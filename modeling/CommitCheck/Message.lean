import CommitCheck.Summary
import CommitCheck.Text.Lines

set_option autoImplicit false

/-! Commit messages. A message is kept as it is; its lines, its commit type and whether a merge or a
revert wrote it are views of its text. -/

namespace CommitCheck

inductive Special where
  | merge
  | revert
deriving DecidableEq, Repr

def Special.name : Special → String
  | .merge => "merge"
  | .revert => "revert"

structure Message where
  text : String
deriving DecidableEq, Repr

namespace Message

def lines (message : Message) : List String :=
  (Text.splitLines message.text.toList).map String.ofList

def lineCount (message : Message) : Nat :=
  message.lines.length

def isSingleLine (message : Message) : Bool :=
  message.lineCount == 1

/-- The line at a position, counted from zero. -/
def line? (message : Message) (index : Nat) : Option String :=
  message.lines[index]?

def summary (message : Message) : String :=
  (message.line? 0).getD ""

def type? (message : Message) : Option CommitType :=
  Summary.type? message.summary.toList

def isMerge (message : Message) : Bool :=
  Summary.isMerge message.summary.toList

def isRevert (message : Message) : Bool :=
  Summary.isRevert message.summary.toList

def special? (message : Message) : Option Special :=
  if message.isMerge then some .merge
  else if message.isRevert then some .revert
  else none

end Message

end CommitCheck
