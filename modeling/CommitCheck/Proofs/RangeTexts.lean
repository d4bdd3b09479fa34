import CommitCheck.CommandLine
import CommitCheck.Proofs.DotRuns
import CommitCheck.Proofs.Ranges

set_option autoImplicit false

/-! What a range means that is given as a text. A text without adjacent dots is one revision. If a
text has one run of dots, the length and the place of the run decide what the text is: two dots or
three divide two revisions, and all other runs are refused. A check takes a target for a range exactly
if it has adjacent dots. -/

namespace CommitCheck

theorem CheckTarget.isRange_iff {check : CheckTarget} (unmarked : check.asRange = false) :
    check.isRange = true ↔ "..".toList <:+: check.target.toList := by
  unfold isRange
  rw [unmarked, Bool.false_or]
  exact Text.occursIn_iff

namespace Repository

namespace Range

variable {text : String} {run : Text.DotRun text.toList}

private theorem eq_of_parts {first second : List Char} {separator : String}
    (whole : first ++ (separator.toList ++ second) = text.toList) :
    text = String.ofList first ++ separator ++ String.ofList second := by
  apply String.toList_inj.mp
  simp only [String.toList_append, String.toList_ofList, List.append_assoc]
  exact whole.symm

theorem ofText_of_two (only : ∀ other, other = run) (two : run.count = 2) :
    ofText text = .between (String.ofList run.before) (String.ofList run.after) := by
  obtain ⟨apartBefore, apartAfter⟩ := Text.DotRun.only_iff.mp only
  have whole : run.before ++ ("..".toList ++ run.after) = text.toList := by
    have parts := run.whole
    rw [two] at parts
    exact parts
  conv => lhs; rw [eq_of_parts whole]
  apply ofText_between
  · rwa [@String.toList_ofList run.before]
  · rwa [@String.toList_ofList run.after]
  · rw [String.toList_ofList]
    exact run.free_before
  · rw [String.toList_ofList]
    exact run.free_after

theorem ofText_of_more (only : ∀ other, other = run) {more : Nat} (count : run.count = 3 + more) :
    ofText text = .symmetric (String.ofList run.before)
      (String.ofList (List.replicate more '.' ++ run.after)) := by
  obtain ⟨apartBefore, -⟩ := Text.DotRun.only_iff.mp only
  have whole : run.before ++ ("...".toList ++ (List.replicate more '.' ++ run.after)) =
      text.toList := by
    have parts := run.whole
    rw [count, List.replicate_add, List.append_assoc] at parts
    exact parts
  conv => lhs; rw [eq_of_parts whole]
  apply ofText_symmetric
  · rw [@String.toList_ofList run.before]
    intro found
    exact apartBefore ((by decide : "..".toList <:+: "...".toList).trans found)
  · rw [String.toList_ofList]
    exact run.free_before

theorem ofText_eq_single_iff {text : String} :
    ofText text = .single text ↔ ¬"..".toList <:+: text.toList := by
  constructor
  · intro whole
    apply Text.splitOnce?_eq_none_iff.mp
    unfold ofText at whole
    split at whole
    · cases whole
    · split at whole
      · cases whole
      · assumption
  · exact ofText_single

end Range

theorem areEnds_iff {start finish : List Char} :
    areEnds (String.ofList start) (String.ofList finish) = true ↔
      start ≠ [] ∧ finish ≠ [] ∧ finish.head? ≠ some '.' := by
  have empty (cs : List Char) : String.ofList cs ≠ "" ↔ cs ≠ [] := by
    rw [not_iff_not]
    exact String.ofList_inj
  unfold areEnds
  rw [Bool.and_eq_true, Bool.and_eq_true, bne_iff_ne, bne_iff_ne, bne_iff_ne, empty, empty,
    String.toList_ofList, and_assoc]

variable {repository : Repository}

/-- The answer of a range with two ends: the first end that names no commit is reported as a
reference, with the reason; if both name one, the answer is what is selected by the two. -/
inductive EndsAnswer (repository : Repository) (first second : String)
    (select : Nat → Nat → Except Error (List Nat)) : Except Error (List String) → Prop where
  | firstRefused {reason : String}
      (refused : repository.commit first =
        .error (.history (.invalidReference (first ++ ": " ++ reason)))) :
      EndsAnswer repository first second select
        (.error (.history (.invalidReference (first ++ ": " ++ reason))))
  | secondRefused {a : Nat} {reason : String} (found : repository.commit first = .ok a)
      (refused : repository.commit second =
        .error (.history (.invalidReference (second ++ ": " ++ reason)))) :
      EndsAnswer repository first second select
        (.error (.history (.invalidReference (second ++ ": " ++ reason))))
  | bothFound {a b : Nat} (left : repository.commit first = .ok a)
      (right : repository.commit second = .ok b) :
      EndsAnswer repository first second select
        ((select a b).map (List.map repository.history.sha))

theorem commit_cases (repository : Repository) (revision : String) :
    (∃ position, repository.commit revision = .ok position) ∨
      ∃ reason, repository.commit revision =
        .error (.history (.invalidReference (revision ++ ": " ++ reason))) := by
  unfold commit
  cases Revision.commit repository revision with
  | ok position => exact Or.inl ⟨position, rfl⟩
  | error problem => exact Or.inr ⟨problem.message revision, rfl⟩

theorem endsAnswer_bind (first second : String) (select : Nat → Nat → Except Error (List Nat)) :
    EndsAnswer repository first second select
      ((do
        let a ← repository.commit first
        let b ← repository.commit second
        select a b).map (List.map repository.history.sha)) := by
  rcases repository.commit_cases first with ⟨a, left⟩ | ⟨reason, refused⟩
  · rcases repository.commit_cases second with ⟨b, right⟩ | ⟨reason, refused⟩
    · rw [left, right]
      exact .bothFound left right
    · rw [left, refused]
      exact .secondRefused left refused
  · rw [refused]
    exact .firstRefused refused

theorem EndsAnswer.eq_of_found {first second : String} {a b : Nat}
    {select : Nat → Nat → Except Error (List Nat)} {answer : Except Error (List String)}
    (answers : EndsAnswer repository first second select answer)
    (left : repository.commit first = .ok a) (right : repository.commit second = .ok b) :
    answer = (select a b).map (List.map repository.history.sha) := by
  cases answers with
  | firstRefused refused =>
      rw [left] at refused
      cases refused
  | secondRefused _ refused =>
      rw [right] at refused
      cases refused
  | bothFound foundLeft foundRight =>
      cases left.symm.trans foundLeft
      cases right.symm.trans foundRight
      rfl

theorem EndsAnswer.ne_invalidRange {first second range : String}
    {select : Nat → Nat → Except Error (List Nat)} {answer : Except Error (List String)}
    (answers : EndsAnswer repository first second select answer)
    (selects : ∀ a b, select a b ≠ .error (.history (.invalidRange range))) :
    answer ≠ .error (.history (.invalidRange range)) := by
  intro refused
  cases answers with
  | firstRefused _ => cases refused
  | secondRefused _ _ => cases refused
  | bothFound _ _ => exact selects _ _ (map_eq_error_iff.mp refused)

theorem commitsApart_ne_invalidRange (a b : Nat) (range : String) :
    repository.commitsApart a b ≠ .error (.history (.invalidRange range)) := by
  intro refused
  unfold commitsApart at refused
  split at refused
  · cases refused
  · cases refused

/-! ### Texts with one run of dots -/

section

variable {text : String} {run : Text.DotRun text.toList}

private theorem areEnds_of_run (startGiven : run.before ≠ []) (finishGiven : run.after ≠ []) :
    areEnds (String.ofList run.before) (String.ofList run.after) = true :=
  areEnds_iff.mpr ⟨startGiven, finishGiven, run.free_after⟩

theorem shasIn_of_two (only : ∀ other, other = run) (two : run.count = 2)
    (startGiven : run.before ≠ []) (finishGiven : run.after ≠ []) :
    EndsAnswer repository (String.ofList run.before) (String.ofList run.after)
      (fun a b => .ok (repository.commitsBetween a b)) (repository.shasIn text) := by
  unfold shasIn commitsIn
  rw [Range.ofText_of_two only two]
  dsimp only
  rw [if_pos (areEnds_of_run startGiven finishGiven)]
  exact endsAnswer_bind _ _ fun a b => .ok (repository.commitsBetween a b)

theorem shasIn_of_three (only : ∀ other, other = run) (three : run.count = 3)
    (startGiven : run.before ≠ []) (finishGiven : run.after ≠ []) :
    EndsAnswer repository (String.ofList run.before) (String.ofList run.after)
      repository.commitsApart (repository.shasIn text) := by
  unfold shasIn commitsIn
  rw [@Range.ofText_of_more text run only 0 three]
  dsimp only
  rw [List.replicate_zero, List.nil_append, if_pos (areEnds_of_run startGiven finishGiven)]
  exact endsAnswer_bind _ _ repository.commitsApart

theorem shasIn_of_bare (only : ∀ other, other = run)
    (bare : run.before = [] ∨ run.after = [] ∨ 4 ≤ run.count) :
    repository.shasIn text = .error (.history (.invalidRange text)) := by
  have noEnds {finish : List Char}
      (bad : run.before = [] ∨ finish = [] ∨ finish.head? = some '.') :
      ¬areEnds (String.ofList run.before) (String.ofList finish) = true := by
    rw [areEnds_iff]
    tauto
  unfold shasIn commitsIn
  rcases Nat.eq_or_lt_of_le run.several with two | three
  · rw [Range.ofText_of_two only two.symm]
    dsimp only
    rw [if_neg (noEnds ?_)]
    · rfl
    · have short : ¬4 ≤ run.count := by omega
      tauto
  · obtain ⟨more, count⟩ := Nat.exists_eq_add_of_le three
    rw [Range.ofText_of_more only count]
    dsimp only
    rw [if_neg (noEnds ?_)]
    · rfl
    · cases more with
      | zero =>
          have short : ¬4 ≤ run.count := by omega
          rw [List.replicate_zero, List.nil_append]
          tauto
      | succ more => exact Or.inr (Or.inr rfl)

end

/-- A target is checked as a range exactly if it is split into two ends. Without adjacent dots it is
one revision. With one run of dots it is refused exactly if the run is at an end of the text or has
more than three dots; else the ends are what is before the run and what is after it, and three dots
ask for what is reachable from either end. -/
theorem shasIn_split_at_run (repository : Repository) {check : CheckTarget}
    (unmarked : check.asRange = false) :
    (check.isRange = false ↔ Range.ofText check.target = .single check.target) ∧
    (¬"..".toList <:+: check.target.toList →
      check.isRange = false ∧
        repository.shasIn check.target =
          (repository.commit check.target).map fun position =>
            [repository.history.sha position]) ∧
    ∀ run : Text.DotRun check.target.toList, (∀ other, other = run) →
      check.isRange = true ∧
      (repository.shasIn check.target = .error (.history (.invalidRange check.target)) ↔
        run.before = [] ∨ run.after = [] ∨ 4 ≤ run.count) ∧
      (run.before ≠ [] → run.after ≠ [] →
        (run.count = 2 →
          EndsAnswer repository (String.ofList run.before) (String.ofList run.after)
            (fun a b => .ok (repository.commitsBetween a b)) (repository.shasIn check.target)) ∧
        (run.count = 3 →
          EndsAnswer repository (String.ofList run.before) (String.ofList run.after)
            repository.commitsApart (repository.shasIn check.target))) := by
  have single : check.isRange = false ↔ ¬"..".toList <:+: check.target.toList := by
    rw [← check.isRange_iff unmarked, Bool.not_eq_true]
  refine ⟨single.trans Range.ofText_eq_single_iff.symm, ?_, ?_⟩
  · intro apart
    refine ⟨single.mpr apart, ?_⟩
    unfold shasIn commitsIn
    rw [Range.ofText_single apart]
    dsimp only
    cases repository.commit check.target <;> rfl
  · intro run only
    refine ⟨(check.isRange_iff unmarked).mpr run.two_dots, ⟨?_, shasIn_of_bare only⟩, ?_⟩
    · intro refused
      by_contra fits
      rw [not_or, not_or, Nat.not_le] at fits
      obtain ⟨startGiven, finishGiven, short⟩ := fits
      rcases Nat.eq_or_lt_of_le run.several with two | three
      · refine (shasIn_of_two only two.symm startGiven finishGiven).ne_invalidRange ?_ refused
        intro a b impossible
        cases impossible
      · have count : run.count = 3 := by omega
        refine (shasIn_of_three only count startGiven finishGiven).ne_invalidRange ?_ refused
        intro a b
        exact commitsApart_ne_invalidRange a b check.target
    · intro startGiven finishGiven
      exact ⟨fun two => shasIn_of_two only two startGiven finishGiven,
        fun three => shasIn_of_three only three startGiven finishGiven⟩

def mergesWith (count : Nat) : CheckTarget where
  target := String.ofList ((crissCross.sha 3).toList ++
    (List.replicate count '.' ++ (crissCross.sha 4).toList))

def mergesRun (count : Nat) (several : 2 ≤ count) : Text.DotRun (mergesWith count).target.toList where
  before := (crissCross.sha 3).toList
  count := count
  after := (crissCross.sha 4).toList
  several := several
  whole := String.toList_ofList.symm
  free_before := by decide
  free_after := by decide

theorem shasIn_split_at_run_merges :
    (∀ other, other = mergesRun 2 (by decide)) ∧ (mergesWith 2).isRange = true ∧
      crissCrossRepository.shasIn (mergesWith 2).target = .ok ([4].map crissCross.sha) ∧
      (∀ other, other = mergesRun 3 (by decide)) ∧ (mergesWith 3).isRange = true ∧
      crissCrossRepository.shasIn (mergesWith 3).target = .ok ([4, 3, 1].map crissCross.sha) := by
  have left : crissCrossRepository.commit (String.ofList (crissCross.sha 3).toList) = .ok 3 := by
    rw [String.ofList_toList]
    exact commit_crissCross (by decide)
  have right : crissCrossRepository.commit (String.ofList (crissCross.sha 4).toList) = .ok 4 := by
    rw [String.ofList_toList]
    exact commit_crissCross (by decide)
  have only (count : Nat) (several : 2 ≤ count) : ∀ other, other = mergesRun count several :=
    Text.DotRun.only_iff.mpr
      ⟨show ¬"..".toList <:+: (crissCross.sha 3).toList by decide,
        show ¬"..".toList <:+: (crissCross.sha 4).toList by decide⟩
  have split (count : Nat) (several : 2 ≤ count) :=
    (@shasIn_split_at_run crissCrossRepository (mergesWith count) rfl).2.2
      (mergesRun count several) (only count several)
  obtain ⟨two, -, ends⟩ := split 2 (by decide)
  obtain ⟨three, -, ends'⟩ := split 3 (by decide)
  have between := (ends (by decide) (by decide)).1 rfl
  have apart := (ends' (by decide) (by decide)).2 rfl
  refine ⟨only 2 _, two, ?_, only 3 _, three, ?_⟩
  · rw [between.eq_of_found left right]
    cbv
  · rw [apart.eq_of_found left right]
    cbv

example : crissCrossRepository.shasIn "v1.0....v2.0" =
    .error (.history (.invalidRange "v1.0....v2.0")) := by
  cbv

end Repository

end CommitCheck
