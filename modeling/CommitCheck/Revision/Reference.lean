import CommitCheck.Repository
import CommitCheck.Revision.Name
import CommitCheck.Revision.Problem

set_option autoImplicit false

/-! References. A file keeps each of them: it says the hash of an object, or the name of another
reference that this one stands for. -/

namespace CommitCheck

inductive Reference where
  | direct (hash : String)
  | symbolic (name : String)
deriving DecidableEq, Repr

namespace Reference

/-- The hash at the start of a text, if nothing but white space or a zero comes right behind it. -/
def ofHash? (text : List Char) : Option Reference :=
  let (digits, rest) := text.splitAt Revision.hashLength
  let ends := rest.head?.all fun c => Text.isSpace c || c == '\x00'
  if Revision.isHash digits && ends then some (.direct (Revision.hashOfDigits digits)) else none

/-- What the content of a file says. The name of another reference comes behind a mark with a space,
and goes up to the white space at the end of the file. -/
def ofContent (name : String) (content : List UInt8) : Except Revision.Problem Reference :=
  let text := (Text.decodeLenient content).toList
  match "ref: ".toList.isPrefixOf? text with
  | some target =>
      let target := Text.trimSpaceEnd target
      if target.isEmpty then .error .nameless else .ok (.symbolic (String.ofList target))
  | none =>
      match ofHash? text with
      | some reference => .ok reference
      | none => .error (.corrupted name)

end Reference

namespace Repository

def reference? (repository : Repository) (name : String) :
    Except Revision.Problem (Option Reference) :=
  match repository.referenceContent name with
  | .ok content => (Reference.ofContent name content).map some
  | .error .nameTooLong => .error .malformed
  | .error _ => .ok none

/-- The hash that a reference leads to by at most a number of other references, unless one of these
is not there. -/
def target? (repository : Repository) : Nat → Reference → Except Revision.Problem (Option String)
  | _, .direct hash => .ok (some hash)
  | 0, .symbolic _ => .error .endless
  | links + 1, .symbolic name => do
      match ← repository.reference? name with
      | some reference => repository.target? links reference
      | none => .ok none

def namedTarget? (repository : Repository) (name : String) :
    Except Revision.Problem (Option String) :=
  if !Revision.isName name.toList then .ok none
  else if Revision.nameLimit < name.utf8ByteSize then .error (.oversized name)
  else do
    match ← repository.reference? name with
    | some reference => repository.target? Revision.linkLimit reference
    | none => .ok none

def firstTarget? (repository : Repository) :
    List String → Except Revision.Problem (Option String)
  | [] => .ok none
  | name :: names => do
      match ← repository.namedTarget? name with
      | some hash => .ok (some hash)
      | none => repository.firstTarget? names

end Repository

end CommitCheck
