import CommitCheck.History.Walk
import CommitCheck.Repository
import CommitCheck.Revision.Resolve
import CommitCheck.Source
import CommitCheck.Text.Search

set_option autoImplicit false

/-! The source that reads a repository itself. The repository is looked for anew at every lookup. A
range is two revisions with two or three dots between them, or one revision, which is a range of one
commit. -/

namespace CommitCheck.Repository

def commit (repository : Repository) (reference : String) : Except Error Nat :=
  match Revision.commit repository reference with
  | .ok position => .ok position
  | .error problem =>
      .error (.history (.invalidReference (reference ++ ": " ++ problem.message reference)))

/-- The text of a stored message. The line feeds in front of it do not count. -/
def messageText? (stored : List UInt8) : Option String :=
  Text.decode? (stored.dropWhile (· == 0x0A))

def lookUp (repository : Repository) (reference : String) : Except Error Commit := do
  let position ← repository.commit reference
  match messageText? (repository.history.message position) with
  | some message => .ok ⟨repository.history.sha position, message⟩
  | none => .error (.history (.invalidReference (reference ++ ": Invalid message encoding")))

inductive Range where
  | single (reference : String)
  | between (start finish : String)
  | symmetric (a b : String)
deriving DecidableEq, Repr

/-- Splits a text at its first three dots or, if it has none, at its first two. -/
def Range.ofText (text : String) : Range :=
  match Text.splitOnce? "...".toList text.toList with
  | some (a, b) => .symmetric (String.ofList a) (String.ofList b)
  | none =>
      match Text.splitOnce? "..".toList text.toList with
      | some (start, finish) => .between (String.ofList start) (String.ofList finish)
      | none => .single text

/-- The ends of a range can be references: none is missing, and no dots are left over. -/
def areEnds (start finish : String) : Bool :=
  start != "" && finish != "" && finish.toList.head? != some '.'

def commitsBetween (repository : Repository) (start finish : Nat) : List Nat :=
  repository.history.walk [finish] [start]

/-- The commits of two others, without those of the newest of their merge bases, newest first. -/
def commitsApart (repository : Repository) (a b : Nat) : Except Error (List Nat) :=
  match repository.history.mergeBases a b with
  | base :: _ => .ok (repository.history.walk [b, a] [base])
  | [] => .error (.history (.commandFailed "merge-base" "no merge base found"))

def commitsIn (repository : Repository) (range : String) : Except Error (List Nat) :=
  match Range.ofText range with
  | .single reference => (repository.commit reference).map fun position => [position]
  | .between start finish =>
      if areEnds start finish then do
        let start ← repository.commit start
        let finish ← repository.commit finish
        .ok (repository.commitsBetween start finish)
      else
        .error (.history (.invalidRange range))
  | .symmetric a b =>
      if areEnds a b then do
        let a ← repository.commit a
        let b ← repository.commit b
        repository.commitsApart a b
      else
        .error (.history (.invalidRange range))

def shasIn (repository : Repository) (range : String) : Except Error (List String) :=
  (repository.commitsIn range).map (List.map repository.history.sha)

def source (host : Host) (path : Path) : Source where
  commit reference := do (← (discover host path).mapError .history).lookUp reference
  shas range := do (← (discover host path).mapError .history).shasIn range

end CommitCheck.Repository
