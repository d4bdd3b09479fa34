import CommitCheck.Text.Search
import Mathlib.Data.List.Basic
import Mathlib.Data.List.Infix

set_option autoImplicit false

/-! Where one text stands inside another. A text is split at the first place where its separator
stands, and a run of one character lies on one side of a border where that character does not come
up to the border from both sides. -/

namespace CommitCheck.Text

theorem occursIn_iff {needle cs : List Char} : occursIn needle cs = true ↔ needle <:+: cs := by
  induction cs with
  | nil => simp [occursIn]
  | cons c cs ih =>
      unfold occursIn
      rw [Bool.or_eq_true, List.isPrefixOf_iff_prefix, ih, List.infix_cons_iff]

theorem occursIn_eq_false_iff {needle cs : List Char} :
    occursIn needle cs = false ↔ ¬needle <:+: cs := by
  rw [← Bool.not_eq_true, occursIn_iff]

section Splitting

variable {separator : List Char}

private theorem isPrefixOf?_eq_none_iff {cs : List Char} :
    separator.isPrefixOf? cs = none ↔ ¬separator <+: cs := by
  rw [Option.eq_none_iff_forall_ne_some]
  constructor
  · rintro missed ⟨rest, whole⟩
    exact missed rest (List.isPrefixOf?_eq_some_iff_append_eq.mpr whole)
  · intro apart rest found
    exact apart ⟨rest, List.isPrefixOf?_eq_some_iff_append_eq.mp found⟩

theorem splitOnce?_eq_none_iff {cs : List Char} :
    splitOnce? separator cs = none ↔ ¬separator <:+: cs := by
  induction cs with
  | nil =>
      unfold splitOnce?
      cases separator <;> simp
  | cons c cs ih =>
      unfold splitOnce?
      rw [List.infix_cons_iff, not_or, ← ih, ← isPrefixOf?_eq_none_iff]
      cases separator.isPrefixOf? (c :: cs) <;> simp

theorem splitOnce?_append (nonempty : separator ≠ []) {before : List Char}
    (first : ¬separator <:+: before ++ separator.dropLast) (after : List Char) :
    splitOnce? separator (before ++ separator ++ after) = some (before, after) := by
  induction before with
  | nil =>
      obtain ⟨mark, marks, rfl⟩ := List.exists_cons_of_ne_nil nonempty
      have starts : (mark :: marks).isPrefixOf? (mark :: (marks ++ after)) = some after :=
        List.isPrefixOf?_eq_some_iff_append_eq.mpr rfl
      rw [List.nil_append, List.cons_append]
      unfold splitOnce?
      rw [starts]
  | cons c before ih =>
      rw [List.cons_append, List.infix_cons_iff, not_or] at first
      have apart : ¬separator <+: c :: (before ++ separator ++ after) := by
        intro starts
        apply first.1
        apply List.prefix_of_prefix_length_le starts
        · refine ⟨separator.getLast nonempty :: after, ?_⟩
          conv => rhs; rw [← List.dropLast_append_getLast nonempty]
          simp
        · simp only [List.length_cons, List.length_append, List.length_dropLast]
          omega
      rw [List.cons_append, List.cons_append]
      unfold splitOnce?
      rw [isPrefixOf?_eq_none_iff.mpr apart, ih first.2]
      rfl

end Splitting

/-- A run of one character across a border comes up to it from both sides. -/
theorem infix_of_run {mark : Char} {count : Nat} {left right : List Char}
    (found : List.replicate count mark <:+: left ++ right)
    (border : left.getLast? ≠ some mark ∨ right.head? ≠ some mark) :
    List.replicate count mark <:+: left ∨ List.replicate count mark <:+: right := by
  rcases List.infix_append_iff.mp found with inLeft | inRight | ⟨first, second, whole, ends, starts⟩
  · exact Or.inl inLeft
  · exact Or.inr inRight
  · have marks (c : Char) (member : c ∈ first ++ second) : c = mark :=
      List.eq_of_mem_replicate (whole ▸ member)
    cases first with
    | nil =>
        rw [whole]
        exact Or.inr starts.isInfix
    | cons c first =>
        cases second with
        | nil =>
            rw [whole, List.append_nil]
            exact Or.inl ends.isInfix
        | cons d second =>
            exfalso
            obtain ⟨before, rfl⟩ := ends
            obtain ⟨after, rfl⟩ := starts
            rcases border with last | head
            · have nonempty := List.cons_ne_nil c first
              have same := marks _ (List.mem_append_left _ (List.getLast_mem nonempty))
              apply last
              rw [List.getLast?_append, List.getLast?_eq_some_getLast nonempty, same]
              rfl
            · have same := marks d (List.mem_append_right _ List.mem_cons_self)
              apply head
              rw [same]
              rfl

theorem not_infix_append {mark : Char} {count : Nat} {left right : List Char}
    (absentLeft : ¬List.replicate count mark <:+: left)
    (absentRight : ¬List.replicate count mark <:+: right)
    (border : left.getLast? ≠ some mark ∨ right.head? ≠ some mark) :
    ¬List.replicate count mark <:+: left ++ right := by
  intro found
  exact (infix_of_run found border).elim absentLeft absentRight

theorem splitOnce?_run {mark : Char} {count : Nat} {left : List Char}
    (apart : ¬List.replicate (count + 1) mark <:+: left) (border : left.getLast? ≠ some mark)
    (right : List Char) :
    splitOnce? (List.replicate (count + 1) mark)
      (left ++ List.replicate (count + 1) mark ++ right) = some (left, right) := by
  have nonempty : List.replicate (count + 1) mark ≠ [] := List.cons_ne_nil _ _
  apply splitOnce?_append nonempty
  rw [List.dropLast_replicate, Nat.add_sub_cancel]
  apply not_infix_append apart _ (Or.inl border)
  intro found
  have longer := found.length_le
  rw [List.length_replicate, List.length_replicate] at longer
  omega

theorem infix_pair_append {a b : Char} {left right : List Char}
    (found : [a, b] <:+: left ++ right) (notLeft : a ∉ left) : b ∈ right := by
  rcases List.infix_append_iff.mp found with inLeft | inRight | ⟨first, second, whole, ends, starts⟩
  · exact absurd (inLeft.subset List.mem_cons_self) notLeft
  · exact inRight.subset (List.mem_cons_of_mem a List.mem_cons_self)
  · cases first with
    | nil =>
        apply starts.subset
        rw [List.nil_append] at whole
        rw [← whole]
        exact List.mem_cons_of_mem a List.mem_cons_self
    | cons c first =>
        obtain ⟨rfl, -⟩ := List.cons.inj whole
        exact absurd (ends.subset List.mem_cons_self) notLeft

end CommitCheck.Text
