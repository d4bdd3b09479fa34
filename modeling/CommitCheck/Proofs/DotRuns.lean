import CommitCheck.Proofs.Search
import Mathlib.Data.List.TakeWhile

set_option autoImplicit false

/-! Runs of dots. A text in which two dots stand next to each other has a longest run of dots, and it
has one only exactly if no two dots are left over before it and after it. -/

namespace CommitCheck.Text

/-- At least two dots in a row, with the text before them, which does not end with a dot, and the
text after them, which does not start with one. -/
@[ext]
structure DotRun (cs : List Char) where
  before : List Char
  count : Nat
  after : List Char
  several : 2 ≤ count
  whole : before ++ (List.replicate count '.' ++ after) = cs
  free_before : before.getLast? ≠ some '.'
  free_after : after.head? ≠ some '.'

variable {cs : List Char}

private theorem two_dots_of_row {count : Nat} (several : 2 ≤ count) (left right : List Char) :
    "..".toList <:+: left ++ (List.replicate count '.' ++ right) := by
  obtain ⟨more, rfl⟩ := Nat.exists_eq_add_of_le several
  refine ⟨left, List.replicate more '.' ++ right, ?_⟩
  rw [List.replicate_add, List.append_assoc, List.append_assoc]
  rfl

private theorem eq_nil_of_row {count : Nat} {left row rest : List Char}
    (free : (left ++ row).getLast? ≠ some '.') (dots : List.replicate count '.' = row ++ rest) :
    row = [] := by
  rcases List.eq_nil_or_concat' row with rfl | ⟨init, last, rfl⟩
  · rfl
  · have member : last ∈ List.replicate count '.' := by
      rw [dots]
      exact List.mem_append_left rest (List.mem_append_right init List.mem_cons_self)
    rw [← List.append_assoc, List.getLast?_concat, List.eq_of_mem_replicate member] at free
    exact absurd rfl free

private theorem row_append_inj {count other : Nat} {rest after : List Char}
    (free : rest.head? ≠ some '.') (free' : after.head? ≠ some '.')
    (same : List.replicate count '.' ++ rest = List.replicate other '.' ++ after) :
    count = other ∧ rest = after := by
  induction count generalizing other with
  | zero =>
      cases other with
      | zero => exact ⟨rfl, same⟩
      | succ other =>
          rw [List.replicate_zero, List.nil_append] at same
          subst same
          exact absurd rfl free
  | succ count ih =>
      cases other with
      | zero =>
          rw [List.replicate_zero, List.nil_append] at same
          subst same
          exact absurd rfl free'
      | succ other =>
          obtain ⟨rfl, rests⟩ := ih (List.cons.inj same).2
          exact ⟨rfl, rests⟩

namespace DotRun

theorem two_dots (run : DotRun cs) : "..".toList <:+: cs := by
  rw [← run.whole]
  exact two_dots_of_row run.several run.before run.after

theorem length_lt (run : DotRun cs) :
    run.before.length < cs.length ∧ run.after.length < cs.length := by
  have parts := congrArg List.length run.whole
  have several := run.several
  rw [List.length_append, List.length_append, List.length_replicate] at parts
  omega

def ofStart (rest : List Char) : DotRun ('.' :: '.' :: rest) where
  before := []
  count := (rest.takeWhile (· == '.')).length + 2
  after := rest.dropWhile (· == '.')
  several := Nat.le_add_left 2 _
  whole := by
    have dots : rest.takeWhile (· == '.') =
        List.replicate (rest.takeWhile (· == '.')).length '.' := by
      apply List.eq_replicate_of_mem
      intro c member
      have dot := List.mem_takeWhile_imp member
      exact eq_of_beq dot
    rw [List.nil_append, List.replicate_succ, List.replicate_succ, ← dots, List.cons_append,
      List.cons_append, List.takeWhile_append_dropWhile]
  free_before := by decide
  free_after := by
    intro dot
    have stopped := List.head?_dropWhile_not (· == '.') rest
    rw [dot] at stopped
    cases stopped

theorem nonempty_cons (c : Char) (run : DotRun cs) : Nonempty (DotRun (c :: cs)) := by
  by_cases first : run.before = []
  · have dots := run.whole
    rw [first, List.nil_append] at dots
    by_cases dot : c = '.'
    · subst c
      refine ⟨[], run.count + 1, run.after, Nat.le_succ_of_le run.several, ?_, by decide,
        run.free_after⟩
      rw [List.nil_append, List.replicate_succ, List.cons_append, dots]
    · refine ⟨[c], run.count, run.after, run.several, ?_, ?_, run.free_after⟩
      · rw [dots, List.singleton_append]
      · simpa using dot
  · refine ⟨c :: run.before, run.count, run.after, run.several, ?_, ?_, run.free_after⟩
    · rw [List.cons_append, run.whole]
    · obtain ⟨d, others, same⟩ := List.exists_cons_of_ne_nil first
      rw [same, List.getLast?_cons_cons, ← same]
      exact run.free_before

theorem nonempty_iff : Nonempty (DotRun cs) ↔ "..".toList <:+: cs := by
  constructor
  · rintro ⟨run⟩
    exact run.two_dots
  · intro found
    induction cs with
    | nil => exact absurd found (by decide)
    | cons c cs ih =>
        rcases List.infix_cons_iff.mp found with ⟨rest, starts⟩ | later
        · rw [← starts]
          exact ⟨ofStart rest⟩
        · obtain ⟨run⟩ := ih later
          exact run.nonempty_cons c

variable (run : DotRun cs)

def ofBefore (inner : DotRun run.before) : DotRun cs where
  before := inner.before
  count := inner.count
  after := inner.after ++ (List.replicate run.count '.' ++ run.after)
  several := inner.several
  whole := by
    rw [← List.append_assoc, ← List.append_assoc, List.append_assoc inner.before, inner.whole]
    exact run.whole
  free_before := inner.free_before
  free_after := by
    have left : inner.after ≠ [] := by
      intro empty
      have free := run.free_before
      rw [← inner.whole, empty, List.append_nil] at free
      have row := eq_nil_of_row free (List.append_nil _).symm
      have several := inner.several
      rw [List.replicate_eq_nil_iff] at row
      omega
    rw [List.head?_append_of_ne_nil _ left]
    exact inner.free_after

def ofAfter (inner : DotRun run.after) : DotRun cs where
  before := run.before ++ (List.replicate run.count '.' ++ inner.before)
  count := inner.count
  after := inner.after
  several := inner.several
  whole := by
    rw [List.append_assoc, List.append_assoc, inner.whole]
    exact run.whole
  free_before := by
    have right : inner.before ≠ [] := by
      intro empty
      have free := run.free_after
      obtain ⟨more, several⟩ := Nat.exists_eq_add_of_le inner.several
      rw [← inner.whole, empty, several, Nat.add_comm] at free
      exact free rfl
    rw [List.getLast?_append_of_ne_nil _ (List.append_ne_nil_of_right_ne_nil _ right),
      List.getLast?_append_of_ne_nil _ right]
    exact inner.free_before
  free_after := inner.free_after

variable {run}

private theorem before_eq (apartBefore : ¬"..".toList <:+: run.before)
    (apartAfter : ¬"..".toList <:+: run.after) (other : DotRun cs) :
    other.before = run.before := by
  rcases List.append_eq_append_iff.mp (other.whole.trans run.whole.symm) with
    ⟨row, longer, rest⟩ | ⟨row, longer, rest⟩
  · rcases List.append_eq_append_iff.mp rest with ⟨more, parts, -⟩ | ⟨more, parts, -⟩
    · refine absurd ?_ apartBefore
      rw [longer, parts]
      exact two_dots_of_row other.several other.before more
    · have free := run.free_before
      rw [longer] at free ⊢
      rw [eq_nil_of_row free parts, List.append_nil]
  · rcases List.append_eq_append_iff.mp rest with ⟨more, -, parts⟩ | ⟨more, parts, -⟩
    · refine absurd ?_ apartAfter
      rw [parts]
      exact two_dots_of_row other.several more other.after
    · have free := other.free_before
      rw [longer] at free ⊢
      rw [eq_nil_of_row free parts, List.append_nil]

/-- A run is the only one exactly if no two dots stand next to each other outside of it. -/
theorem only_iff :
    (∀ other : DotRun cs, other = run) ↔
      ¬"..".toList <:+: run.before ∧ ¬"..".toList <:+: run.after := by
  constructor
  · intro only
    constructor
    · intro found
      obtain ⟨inner⟩ := nonempty_iff.mpr found
      have same : inner.before = run.before := congrArg before (only (run.ofBefore inner))
      have shorter := inner.length_lt.1
      rw [same] at shorter
      exact Nat.lt_irrefl _ shorter
    · intro found
      obtain ⟨inner⟩ := nonempty_iff.mpr found
      have same : inner.after = run.after := congrArg after (only (run.ofAfter inner))
      have shorter := inner.length_lt.2
      rw [same] at shorter
      exact Nat.lt_irrefl _ shorter
  · rintro ⟨apartBefore, apartAfter⟩ other
    have same := before_eq apartBefore apartAfter other
    have rests := other.whole.trans run.whole.symm
    rw [same] at rests
    obtain ⟨counts, afters⟩ :=
      row_append_inj other.free_after run.free_after (List.append_cancel_left rests)
    exact DotRun.ext same counts afters

end DotRun

end CommitCheck.Text
