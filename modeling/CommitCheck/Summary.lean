import CommitCheck.CommitType

set_option autoImplicit false

/-! The first line of a commit message. A conforming summary is `[TYPE] text` or
`[X#ID-1][TYPE] text`. The type of a commit is read more leniently: any text may follow the type,
and the ticket tag before it may have any letter and any identifier of capitals, digits and hyphens.
Merge and revert summaries are recognised by their fixed wording.

Each reader takes the characters of the line and gives back what follows the part it read. -/

namespace CommitCheck.Summary

def bracketed (kind : CommitType) : List Char :=
  '[' :: kind.token.toList ++ [']']

def readType? (cs : List Char) : Option (CommitType × List Char) :=
  CommitType.all.findSome? fun kind =>
    ((bracketed kind).isPrefixOf? cs).map fun after => (kind, after)

def readRun? (inClass : Char → Bool) (cs : List Char) : Option (List Char) :=
  if (cs.takeWhile inClass).isEmpty then none else some (cs.dropWhile inClass)

def readChar? (c : Char) : List Char → Option (List Char)
  | [] => none
  | d :: cs => if d = c then some cs else none

/-- Reads the ticket tag of a conforming summary: a capital, a project name of letters and digits,
and a number, as in `[J#PROJ-123]`. -/
def readTicket? : List Char → Option (List Char)
  | '[' :: letter :: '#' :: rest =>
      if letter.isUpper then do
        let rest ← readRun? Char.isAlphanum rest
        let rest ← readChar? '-' rest
        let rest ← readRun? Char.isDigit rest
        readChar? ']' rest
      else
        none
  | _ => none

def isTagChar (c : Char) : Bool :=
  c.isUpper || c.isDigit || c == '-'

/-- Reads a lenient ticket tag: any character, and an identifier of capitals, digits and hyphens, as
in `[J#PROJ]`. -/
def readTag? : List Char → Option (List Char)
  | '[' :: _ :: '#' :: rest => do
      let rest ← readRun? isTagChar rest
      readChar? ']' rest
  | _ => none

def isSubject : List Char → Bool
  | ' ' :: _ :: _ => true
  | _ => false

def isTypedSubject (cs : List Char) : Bool :=
  match readType? cs with
  | some (_, after) => isSubject after
  | none => false

/-- The summary is `[TYPE] text` or `[X#ID-1][TYPE] text`. -/
def conforms (cs : List Char) : Bool :=
  isTypedSubject cs ||
    match readTicket? cs with
    | some after => isTypedSubject after
    | none => false

/-- The commit type that the summary starts with, after a lenient ticket tag if there is one. -/
def type? (cs : List Char) : Option CommitType :=
  match (readTag? cs).bind readType? with
  | some (kind, _) => some kind
  | none => (readType? cs).map Prod.fst

/-- The summary of a merge commit: `Merge `, and at least one more character. -/
def isMerge (cs : List Char) : Bool :=
  match "Merge ".toList.isPrefixOf? cs with
  | some after => !after.isEmpty
  | none => false

/-- The summary of a revert commit: a title that is not empty, in quotes after `Revert `. -/
def isRevert (cs : List Char) : Bool :=
  match "Revert \"".toList.isPrefixOf? cs with
  | some after => after.getLast? == some '"' && 2 ≤ after.length
  | none => false

end CommitCheck.Summary
