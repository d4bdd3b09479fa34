import CommitCheck.History

set_option autoImplicit false

/-! Walks through a history. An ancestor of a commit is the commit itself, or an ancestor of one of
its parents. A walk lists the ancestors of some commits that are not ancestors of others, newest
first. The marking that finds ancestors goes through the positions once, from the last to the first:
a commit is reached before its parents, so it finds all of them, and nothing else (`mem_ancestors`).
-/

namespace CommitCheck.History

/-- One commit is an ancestor of another: it is the other, or an ancestor of one of its parents. -/
inductive Reaches (history : History) : Nat → Nat → Prop where
  | refl (commit : Nat) : Reaches history commit commit
  | step {ancestor parent commit : Nat} :
      parent ∈ history.parents commit → Reaches history ancestor parent →
        Reaches history ancestor commit

theorem Reaches.le {history : History} {ancestor commit : Nat}
    (reaches : Reaches history ancestor commit) : ancestor ≤ commit := by
  induction reaches with
  | refl => exact Nat.le_refl _
  | step member _ le =>
      exact Nat.le_of_lt (Nat.lt_of_le_of_lt le (history.lt_of_mem_parents member))

/-- The commits below a position that are wanted or ancestors of wanted ones, latest position first.
-/
def ancestorsBelow (history : History) : Nat → List Nat → List Nat
  | 0, _ => []
  | commit + 1, wanted =>
      if wanted.contains commit then
        commit :: history.ancestorsBelow commit (history.parents commit ++ wanted)
      else
        history.ancestorsBelow commit wanted

theorem mem_ancestorsBelow (history : History) (bound : Nat) (wanted : List Nat) (ancestor : Nat) :
    ancestor ∈ history.ancestorsBelow bound wanted ↔
      ∃ commit ∈ wanted, commit < bound ∧ Reaches history ancestor commit := by
  induction bound generalizing wanted with
  | zero => simp [ancestorsBelow]
  | succ bound ih =>
      by_cases marked : bound ∈ wanted
      · simp only [ancestorsBelow, List.contains_iff_mem, marked, if_true, List.mem_cons, ih,
          List.mem_append]
        constructor
        · rintro (rfl | ⟨commit, member, below, reaches⟩)
          · exact ⟨ancestor, marked, Nat.lt_succ_self _, .refl _⟩
          · rcases member with parent | member
            · exact ⟨bound, marked, Nat.lt_succ_self _, .step parent reaches⟩
            · exact ⟨commit, member, Nat.lt_succ_of_lt below, reaches⟩
        · rintro ⟨commit, member, below, reaches⟩
          rcases Nat.lt_succ_iff_lt_or_eq.1 below with below | rfl
          · exact .inr ⟨commit, .inr member, below, reaches⟩
          · cases reaches with
            | refl => exact .inl rfl
            | step parent reaches =>
                exact .inr ⟨_, .inl parent, history.lt_of_mem_parents parent, reaches⟩
      · have other {commit : Nat} (member : commit ∈ wanted) : commit ≠ bound :=
          fun same => marked (same ▸ member)
        simp only [ancestorsBelow, List.contains_iff_mem, marked, if_false, ih]
        constructor
        · rintro ⟨commit, member, below, reaches⟩
          exact ⟨commit, member, Nat.lt_succ_of_lt below, reaches⟩
        · rintro ⟨commit, member, below, reaches⟩
          have before : commit < bound :=
            Nat.lt_of_le_of_ne (Nat.le_of_lt_succ below) (other member)
          exact ⟨commit, member, before, reaches⟩

def ancestors (history : History) (starts : List Nat) : List Nat :=
  history.ancestorsBelow history.commits.length starts

theorem mem_ancestors (history : History) (starts : List Nat) (ancestor : Nat) :
    ancestor ∈ history.ancestors starts ↔
      ∃ commit ∈ starts, commit < history.commits.length ∧ Reaches history ancestor commit :=
  history.mem_ancestorsBelow history.commits.length starts ancestor

def newestFirst (history : History) (commits : List Nat) : List Nat :=
  commits.mergeSort fun a b => history.time b ≤ history.time a

/-- The ancestors of some commits that are not ancestors of others, newest first. -/
def walk (history : History) (starts hidden : List Nat) : List Nat :=
  let excluded := history.ancestors hidden
  history.newestFirst ((history.ancestors starts).filter fun commit => !excluded.contains commit)

def commonAncestors (history : History) (a b : Nat) : List Nat :=
  (history.ancestors [a]).filter (history.ancestors [b]).contains

/-- The common ancestors of two commits that are not ancestors of other common ancestors, newest
first. -/
def mergeBases (history : History) (a b : Nat) : List Nat :=
  let common := history.commonAncestors a b
  history.newestFirst <| common.filter fun commit =>
    !common.any fun other => other != commit && (history.ancestors [other]).contains commit

end CommitCheck.History
