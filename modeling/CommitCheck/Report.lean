import CommitCheck.Json
import CommitCheck.Outcome
import CommitCheck.Text.Blank
import CommitCheck.Text.Wrap

set_option autoImplicit false

/-! Reports about outcomes: a text with one section for each invalid outcome, which may be coloured,
and a JSON list with one entry for each outcome, valid or not. -/

namespace CommitCheck.Report

def codeWidth : Nat := 28

def explanationWidth : Nat := 60

abbrev Attribute := Nat

def switchOn (number : Attribute) : List Char :=
  '\x1b' :: '[' :: (toString number).toList ++ ['m']

/-- A text with display attributes, all of which end after it. Without colour it is the text. -/
def paint (color : Bool) (attributes : List Attribute) (text : List Char) : List Char :=
  if color then attributes.flatMap switchOn ++ text ++ switchOn 0 else text

def headerStyle : List Attribute := [31, 1, 4]

def messageStyle : List Attribute := [37, 1]

def codeStyle : List Attribute := [31]

def hintStyle : List Attribute := [2]

def header (outcome : Outcome) : List Char :=
  match outcome.shortCommit? with
  | some commit =>
      "The following commit message (".toList ++ commit.toList ++ ") failed validation:".toList
  | none => "The following commit message failed validation:".toList

def row (color : Bool) (code : List Char) (line : List Char) : List Char :=
  paint color codeStyle (Text.padRight codeWidth code) ++ ' ' :: line ++ ['\n']

def failureRows (color : Bool) (code : FailureCode) : List Char :=
  match Text.wrap explanationWidth code.explanation.toList with
  | [] => []
  | line :: others => row color code.name.toList line ++ others.flatMap (row color [])

def table (color : Bool) (failures : List FailureCode) : List Char :=
  Text.padRight codeWidth "Rule ID".toList ++ " Message\n".toList ++
    List.replicate (codeWidth + 1 + explanationWidth) '-' ++ '\n' ::
    failures.flatMap (failureRows color)

/-- The section of an invalid outcome: header, message without blanks at its end, table. -/
def outcomeSection (color : Bool) (outcome : Outcome) : List Char :=
  '\n' :: paint color headerStyle (header outcome) ++ "\n\n".toList ++
    paint color messageStyle (Text.trimEnd outcome.message.toList) ++ "\n\n".toList ++
    table color outcome.failures

def textChars (color : Bool) (outcomes : List Outcome) : List Char :=
  (outcomes.filter fun outcome => !outcome.isValid).flatMap (outcomeSection color)

def text (color : Bool) (outcomes : List Outcome) : String :=
  String.ofList (textChars color outcomes)

def tally (outcomes : List Outcome) : String :=
  toString outcomes.length ++ " commit(s) checked, " ++ toString (Outcome.invalidCount outcomes) ++
    " invalid"

def hintChars (color : Bool) : List Char :=
  paint color hintStyle "Run `cmc explain <RULE ID>` for details on a failure.".toList

def hint (color : Bool) : String :=
  String.ofList (hintChars color)

def failureJson (code : FailureCode) : Json :=
  .object [("code", .string code.name), ("explanation", .string code.explanation)]

def outcomeJson (outcome : Outcome) : Json :=
  .object
    [("commit", (outcome.commit.map Json.string).getD .null),
      ("failures", .array (outcome.failures.map failureJson)),
      ("message", .string outcome.message),
      ("special", (outcome.special.map fun kind => Json.string kind.name).getD .null),
      ("valid", .bool outcome.isValid)]

def json (outcomes : List Outcome) : Json :=
  .array (outcomes.map outcomeJson)

end CommitCheck.Report
