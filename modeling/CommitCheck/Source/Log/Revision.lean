import CommitCheck.Revision.Resolve

set_option autoImplicit false

/-! Revisions as the command reads them: from the end. What stands at the end of a revision is a
step from the object that the text before it leads to; a revision without such an end is a name. A
revision stands for a hash, and it is another question whether anything is stored under it. -/

namespace CommitCheck.Log

def isReferenceName (name : List Char) : Bool :=
  (Revision.partsFrom [] name).all Revision.isPart && name.getLast? != some '.' &&
    name != ['@'] && !name.contains '\x7f'

/-- The reference in the content of a file. White space may be missing behind the mark, or be more
than one character. -/
def reference? (content : List UInt8) : Option Reference :=
  let text := Text.trimSpaceEnd (Text.decodeLenient content).toList
  match "ref:".toList.isPrefixOf? text with
  | some target => some (.symbolic (String.ofList (target.dropWhile Text.isSpace)))
  | none => Reference.ofHash? text

def hashAt? (repository : Repository) : Nat → String → Option String
  | 0, _ => none
  | files + 1, name =>
      if isReferenceName name.toList then
        match (repository.referenceContent name).toOption.bind reference? with
        | some (.direct hash) => some hash
        | some (.symbolic target) => hashAt? repository files target
        | none => none
      else
        none

def abbreviatedHash? (history : History) (digits : List Char) : Option String :=
  if Revision.abbreviationLength ≤ digits.length && digits.length ≤ Revision.hashLength &&
      digits.all Revision.isHexDigit then
    match Revision.hashesStarting history digits with
    | [hash] => some hash
    | _ => none
  else
    none

/-- The digits at the end of a name that describes a commit: something, a hyphen with a `g`, and the
start of the commit's hash. -/
def describedDigits? (name : List Char) : Option (List Char) :=
  match name.reverse.dropWhile Revision.isHexDigit with
  | 'g' :: '-' :: _ :: _ => some (name.reverse.takeWhile Revision.isHexDigit).reverse
  | _ => none

/-- The hash that a name stands for: itself, or what a reference, a description or an abbreviation
leads to. A lone at sign is short for `HEAD`. -/
def namedHash? (repository : Repository) (name : List Char) : Option String :=
  let spelled := if name = ['@'] then "HEAD" else String.ofList name
  if Revision.isHash name then some (Revision.hashOfDigits name)
  else
    ((Revision.candidates spelled).findSome? (hashAt? repository Revision.linkLimit)).or
      (((describedDigits? name).bind (abbreviatedHash? repository.history)).or
        (abbreviatedHash? repository.history name))

/-- The step that braces with a caret ask for, by what stands behind the opening one. What comes
after the first closing brace does not count. -/
def bracedStep (text : List Char) : Revision.Step :=
  let words := "" :: "object" :: Revision.Kind.all.map Revision.Kind.word
  match words.find? fun word => (word ++ "\x7d").toList.isPrefixOf text with
  | some word => .peel word
  | none => if ['/', '\x7d'].isPrefixOf text then .peel Revision.Kind.commit.word else .malformed

/-- The step at the end of a revision, with what stands before it. The revision and the rest are
given backwards. -/
def lastStep? (backwards : List Char) : Option (Revision.Step × List Char) :=
  let number? := Revision.number? (backwards.takeWhile Char.isDigit).reverse
  match backwards.dropWhile Char.isDigit with
  | '~' :: before => some ((number?.map Revision.Step.back).getD .outOfRange, before)
  | '^' :: before => some ((number?.map Revision.Step.parent).getD .outOfRange, before)
  | _ =>
      if backwards.head? = some '\x7d' then
        (Text.splitOnce? ['\x7b', '^'] backwards).map fun (braced, before) =>
          (bracedStep braced.reverse, before)
      else
        none

theorem length_lt_of_lastStep? {backwards before : List Char} {step : Revision.Step}
    (found : lastStep? backwards = some (step, before)) : before.length < backwards.length := by
  have rest_le : (backwards.dropWhile Char.isDigit).length ≤ backwards.length :=
    (List.dropWhile_sublist _).length_le
  unfold lastStep? at found
  split at found
  · next rest same =>
      simp only [same, List.length_cons] at rest_le
      simp_all only [Option.some.injEq, Prod.mk.injEq]
      omega
  · next rest same =>
      simp only [same, List.length_cons] at rest_le
      simp_all only [Option.some.injEq, Prod.mk.injEq]
      omega
  · split at found
    · obtain ⟨parts, split, same⟩ := Option.map_eq_some_iff.1 found
      have whole := Text.eq_of_splitOnce? split
      obtain ⟨-, rfl⟩ := Prod.mk.inj same
      simp only [whole, List.length_append, List.length_cons, List.length_nil]
      omega
    · exact absurd found (by simp)

/-- The object with a hash. The command knows the empty tree even if it is not stored. -/
def object? (history : History) (hash : String) : Option Revision.Object :=
  if hash = Revision.emptyTree then some .tree else Revision.object? history hash

/-- Takes a step. Any object will do where just an object is asked for. -/
def take? (history : History) (object : Revision.Object) (step : Revision.Step) :
    Option Revision.Object :=
  if step = .peel "object" then some object
  else (Revision.take history object step).toOption

def hashBackwards? (repository : Repository) (backwards : List Char) : Option String :=
  match _found : lastStep? backwards with
  | some (step, before) => do
      let hash ← hashBackwards? repository before
      let object ← object? repository.history hash
      let next ← take? repository.history object step
      return next.hash repository.history
  | none => namedHash? repository backwards.reverse
termination_by backwards.length
decreasing_by exact length_lt_of_lastStep? _found

def splitAtColon? : Nat → List Char → Option (List Char × List Char)
  | _, [] => none
  | depth, c :: cs =>
      if c = ':' && depth = 0 then some ([], cs)
      else
        let inside := if c = '\x7b' then depth + 1 else if c = '\x7d' then depth - 1 else depth
        (splitAtColon? inside cs).map fun (before, after) => (c :: before, after)

/-- The hash that a revision stands for. With a colon at its end it stands for a tree. -/
def hash? (repository : Repository) (revision : List Char) : Option String :=
  match hashBackwards? repository revision.reverse, splitAtColon? 0 revision with
  | some hash, _ => some hash
  | none, some (before, []) => do
      let hash ← hashBackwards? repository before.reverse
      let object ← object? repository.history hash
      let peeled ← object.peel? repository.history .tree
      return peeled.hash repository.history
  | none, _ => none

end CommitCheck.Log
