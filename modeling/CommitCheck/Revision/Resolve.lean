import CommitCheck.Revision.Reference
import CommitCheck.Revision.Step
import CommitCheck.Text.Search

set_option autoImplicit false

/-! Revisions: texts that lead to an object of a repository. A revision is a name and steps from
what is named. The steps are taken in order, and the first that leads nowhere is the reason that is
given. -/

namespace CommitCheck.Revision

def abbreviated? (history : History) (digits : List Char) : Except Problem (Option Object) :=
  if digits.isEmpty || hashLength < digits.length || !digits.all isHexDigit then .ok none
  else if digits.length < abbreviationLength then .error .tooShort
  else
    match hashesStarting history digits with
    | [] => .ok none
    | [hash] => .ok (object? history hash)
    | _ => .error .ambiguous

/-- The digits at the end of a name that describes a commit: another name, a number and, behind the
first hyphen with a `g`, the start of the commit's hash. -/
def describedDigits? (name : List Char) : Option (List Char) :=
  match Text.splitOnce? ['-', 'g'] name with
  | some (tag, digits) =>
      match tag.reverse.takeWhile Char.isDigit, tag.reverse.dropWhile Char.isDigit with
      | _ :: _, '-' :: _ :: _ => some digits
      | _, _ => none
  | none => none

def described? (history : History) (name : List Char) : Except Problem (Option Object) := do
  if name.length < hashLength then
    if let some object ← abbreviated? history name then
      return some object
  match describedDigits? name with
  | some digits => abbreviated? history digits
  | none => return none

/-- The object with a name: a full hash, a reference, or an abbreviated hash. -/
def named (repository : Repository) (name : String) : Except Problem Object := do
  let history := repository.history
  let whole? := if isHash name.toList then object? history (hashOfDigits name.toList) else none
  match whole? with
  | some object => return object
  | none =>
      match ← repository.firstTarget? (candidates name) with
      | some hash =>
          match object? history hash with
          | some object => return object
          | none => .error (.missing hash)
      | none =>
          if isShortName name then
            match ← described? history name.toList with
            | some object => return object
            | none => .error (.notFound name)
          else
            .error .malformed

def firstAncestor (history : History) : Nat → Nat → Except Problem Nat
  | commit, 0 => .ok commit
  | commit, count + 1 =>
      match history.parents commit with
      | parent :: _ => firstAncestor history parent count
      | [] => .error (.noParent 0)

/-- The parent of a commit with a number, counted from one. Zero stays at the commit. -/
def parent (history : History) (commit : Nat) : Nat → Except Problem Nat
  | 0 => .ok commit
  | index + 1 =>
      match (history.parents commit)[index]? with
      | some parent => .ok parent
      | none => .error (.noParent index)

/-- The object of a kind that an object leads to. Only a tag could lead to objects of every kind. -/
def peel (history : History) (object : Object) (kind : Kind) : Except Problem Object :=
  match object.peel? history kind, object with
  | some peeled, _ => .ok peeled
  | none, .tag _ => .error (.notOfKind (object.hash history) kind)
  | none, _ => .error .malformed

def entry (path : List Char) : Except Problem Object :=
  if path.isEmpty then .ok .tree
  else
    match path.takeWhile (· != '/') with
    | [] => .error .noEntryName
    | name => .error (.noEntry (String.ofList name))

def take (history : History) (object : Object) (step : Step) : Except Problem Object :=
  match step, object.commit? history with
  | .back count, some commit => (firstAncestor history commit count).map .commit
  | .parent number, some commit => (parent history commit number).map .commit
  | .peel "", _ => .ok (object.untagged history)
  | .peel word, _ =>
      match Kind.all.find? fun kind => kind.word == word with
      | some kind => peel history object kind
      | none => .error .malformed
  | .entry path, _ => entry path
  | _, _ => .error .malformed

/-- Takes steps in order. A number that is too large is found before the tildes in front of it are
followed. -/
def takeAll (history : History) (object : Object) : List Step → Except Problem Object
  | [] => .ok object
  | step :: rest =>
      if overflows (step :: rest) then .error .malformed
      else take history object step >>= fun next => takeAll history next rest

def split (revision : List Char) : List Char × List Char :=
  let isName (c : Char) := c != '~' && c != '^' && c != ':'
  (revision.takeWhile isName, revision.dropWhile isName)

def namesIndex : List Char → Bool
  | ':' :: path => path.head? != some '/'
  | _ => false

/-- The object that a revision leads to. A name with an at sign at its end is short for `HEAD` if no
step follows it. -/
def resolve (repository : Repository) (revision : String) : Except Problem Object :=
  let (name, rest) := split revision.toList
  if revision.contains '\x00' then .error .zeroCharacter
  else if Text.occursIn ['@', '\x7b'] name then .error .malformed
  else if rest.isEmpty && name.getLast? == some '@' then named repository "HEAD"
  else if name.isEmpty then .error (if namesIndex rest then .unsupported else .malformed)
  else if overflows (steps rest) then .error .malformed
  else do takeAll repository.history (← named repository (String.ofList name)) (steps rest)

def commit (repository : Repository) (revision : String) : Except Problem Nat := do
  let object ← resolve repository revision
  match object.commit? repository.history with
  | some commit => .ok commit
  | none => .error (.notOfKind (object.hash repository.history) .commit)

end CommitCheck.Revision
