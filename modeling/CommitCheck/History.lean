set_option autoImplicit false

/-! Histories: commits with their parents, and the tags that have been put on commits. A commit is
known by its position, and its parents stand before it, so no commit is its own ancestor. -/

namespace CommitCheck

structure StoredCommit where
  sha : String
  /-- The positions of the parents, in order. -/
  parents : List Nat
  time : Int
  message : List UInt8
deriving DecidableEq, Repr

/-- Every parent stands before its child. -/
def ParentsPrecede (commits : List StoredCommit) : Prop :=
  ∀ (i : Nat) (bound : i < commits.length), ∀ parent ∈ commits[i].parents, parent < i

instance (commits : List StoredCommit) : Decidable (ParentsPrecede commits) :=
  inferInstanceAs (Decidable (∀ (i : Nat) (bound : i < commits.length),
    ∀ parent ∈ commits[i].parents, parent < i))

structure StoredTag where
  sha : String
  commit : Nat
deriving DecidableEq, Repr

/-- The objects that a repository stores: commits, tags and, apart from a repository in which
nothing has happened, the tree that all commits have. -/
structure History where
  commits : List StoredCommit
  tags : List StoredTag := []
  hasTree : Bool := true
  precede : ParentsPrecede commits

namespace History

def empty : History where
  commits := []
  hasTree := false
  precede := fun _ bound => absurd bound (Nat.not_lt_zero _)

def ofCommits? (commits : List StoredCommit) (tags : List StoredTag) : Option History :=
  if precede : ParentsPrecede commits then some { commits, tags, precede } else none

def parents (history : History) (commit : Nat) : List Nat :=
  (history.commits[commit]?.map StoredCommit.parents).getD []

def time (history : History) (commit : Nat) : Int :=
  (history.commits[commit]?.map StoredCommit.time).getD 0

def sha (history : History) (commit : Nat) : String :=
  (history.commits[commit]?.map StoredCommit.sha).getD ""

/-- The message of a commit. It ends where the first zero byte is stored. -/
def message (history : History) (commit : Nat) : List UInt8 :=
  ((history.commits[commit]?.map StoredCommit.message).getD []).takeWhile (· != 0)

theorem lt_of_mem_parents (history : History) {parent commit : Nat}
    (member : parent ∈ history.parents commit) : parent < commit := by
  by_cases bound : commit < history.commits.length
  · simp only [parents, List.getElem?_eq_getElem bound, Option.map_some,
      Option.getD_some] at member
    exact history.precede commit bound parent member
  · simp [parents, List.getElem?_eq_none (Nat.le_of_not_lt bound)] at member

end History

end CommitCheck
