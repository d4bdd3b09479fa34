import CommitCheck.History.Walk
import CommitCheck.Source.Log.Revision
import CommitCheck.Source.Log.Setting

set_option autoImplicit false

/-! What the argument of the command selects. It is a range, a revision with a mark about parents, a
revision, or an exclusion of one of these; what is none of them is a path. -/

namespace CommitCheck.Log

inductive Selection where
  | commits (starts hidden : List Nat)
  | paths
deriving DecidableEq, Repr

inductive Unread where
  | noRevision
  | refused
deriving DecidableEq, Repr

/-- The first of several readings of an argument that takes it for revisions. -/
def firstReading {α : Type} : List (Except Unread α) → Except Unread α
  | [] => .error .noRevision
  | .error .noRevision :: others => firstReading others
  | reading :: _ => reading

def object (repository : Repository) (revision : List Char) : Except Unread Revision.Object :=
  match hash? repository revision with
  | some hash =>
      match object? repository.history hash with
      | some object => .ok object
      | none => .error .refused
  | none => .error .noRevision

def commitsAt (history : History) (object : Revision.Object) : List Nat :=
  (object.commit? history).toList

/-- A selection by the two ends of a range. If it is symmetric, both have to be commits, and the
commits are selected that only one of them has. -/
def endsSelection (history : History) (symmetric : Bool) (start finish : String) :
    Except Unread Selection :=
  match object? history start, object? history finish with
  | some a, some b =>
      if symmetric then
        match a.commit? history, b.commit? history with
        | some a, some b => .ok (.commits [a, b] (history.mergeBases a b))
        | _, _ => .error .refused
      else
        .ok (.commits (commitsAt history b) (commitsAt history a))
  | _, _ => .error .refused

/-- The selection of a range, whose ends are `HEAD` where they are missing. Two dots alone are no
range. -/
def rangeSelection (repository : Repository) (argument : List Char) : Except Unread Selection :=
  let orHead (revision : List Char) := if revision.isEmpty then "HEAD".toList else revision
  match Text.splitOnce? ['.', '.'] argument with
  | some (start, rest) =>
      let symmetric := rest.head? == some '.'
      let finish := if symmetric then rest.drop 1 else rest
      if argument = ['.', '.'] then .error .noRevision
      else
        match hash? repository (orHead start), hash? repository (orHead finish) with
        | some start, some finish => endsSelection repository.history symmetric start finish
        | _, _ => .error .noRevision
  | none => .error .noRevision

/-! ### Single revisions -/

def withoutCaret : List Char → List Char × Bool
  | '^' :: cs => (cs, true)
  | cs => (cs, false)

def orExcluded (excluded : Bool) (starts hidden : List Nat) : Selection :=
  if excluded then .commits hidden starts else .commits starts hidden

def parentsAt (repository : Repository) (revision : List Char) : Except Unread (List Nat) := do
  match (← object repository revision).commit? repository.history with
  | some commit => return repository.history.parents commit
  | none => .error .noRevision

def parentsSelection (repository : Repository) (argument : List Char) : Except Unread Selection :=
  match Text.splitOnce? ['^', '@'] argument with
  | some (before, []) => do
      let (revision, excluded) := withoutCaret before
      return orExcluded excluded (← parentsAt repository revision) []
  | _ => .error .noRevision

/-- The text that could be the name of a file, and the selection by it as a revision. -/
structure Reading where
  text? : Option (List Char)
  selection : Selection

def revisionReading (repository : Repository) (argument : List Char) (hidden : List Nat) :
    Except Unread Reading := do
  let (revision, excluded) := withoutCaret argument
  let starts := commitsAt repository.history (← object repository revision)
  return ⟨some revision, orExcluded excluded starts hidden⟩

/-- The reading of a commit without one of its parents, which a caret and a hyphen ask for. It is
the first parent if there is no number. -/
def exceptReading (repository : Repository) (argument : List Char) (hidden : List Nat) :
    Except Unread Reading :=
  match Text.splitOnce? ['^', '-'] argument with
  | some (before, digits) => do
      let number := if digits.isEmpty then 1 else Revision.number digits
      if !digits.all Char.isDigit || number = 0 then .error .refused
      else
        match (← parentsAt repository (withoutCaret before).1)[number - 1]? with
        | some parent => revisionReading repository before (parent :: hidden)
        | none => .error .noRevision
  | none => .error .noRevision

/-- The reading of a commit without its parents, which a caret and an exclamation mark ask for. What
stands before them can ask for one of the parents again. -/
def aloneReading (repository : Repository) (argument : List Char) : Except Unread Reading :=
  match Text.splitOnce? ['^', '!'] argument with
  | some (before, []) => do
      let hidden ← parentsAt repository (withoutCaret before).1
      firstReading
        [exceptReading repository before hidden, revisionReading repository before hidden]
  | _ => .error .noRevision

def reading (repository : Repository) (argument : List Char) : Except Unread Reading :=
  firstReading
    [(rangeSelection repository argument).map (⟨none, ·⟩),
      (parentsSelection repository argument).map (⟨none, ·⟩),
      aloneReading repository argument,
      exceptReading repository argument [],
      revisionReading repository argument []]

/-- What an argument selects. A text that is both a revision and the name of a file is refused, and
so is a path before anything has been committed. -/
def selection? (setting : Setting) (argument : List Char) : Option Selection :=
  match reading setting.repository argument with
  | .ok reading => if reading.text?.all setting.isNoFile then some reading.selection else none
  | .error .refused => none
  | .error .noRevision =>
      let hasHead := (object setting.repository "HEAD".toList).isOk
      if argument.head? != some '^' && setting.selectsPaths argument && hasHead then some .paths
      else none

/-- The selected commits, newest first. No commit of a history holds files, so none touches a path.
-/
def selected (history : History) : Selection → List Nat
  | .commits starts hidden => history.walk starts hidden
  | .paths => []

end CommitCheck.Log
