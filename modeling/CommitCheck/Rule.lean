import CommitCheck.Failure
import CommitCheck.Message
import CommitCheck.Text.Blank
import CommitCheck.Text.Search

set_option autoImplicit false

/-! Rules: checks of a message that either pass or report one failure code. -/

namespace CommitCheck

structure Rule where
  name : String
  code : FailureCode
  passes : Message → Bool

namespace Rule

/-- The code a message earns under a rule, if it does not pass. -/
def failure? (rule : Rule) (message : Message) : Option FailureCode :=
  if rule.passes message then none else some rule.code

def summaryFormat : Rule where
  name := "summary-format"
  code := .invalidSummaryFormat
  passes message := Summary.conforms message.summary.toList

def commitType : Rule where
  name := "commit-type"
  code := .missingOrInvalidType
  passes message := message.type?.isSome

def separator : Rule where
  name := "separator"
  code := .noSeparatorAfterSummary
  passes message :=
    match message.line? 1 with
    | some line => Text.allBlank line.toList
    | none => true

/-- A rule of one's own: the message contains a text. Such a rule is named after its code. -/
def containing (text : String) (code : FailureCode) : Rule where
  name := code.name
  code := code
  passes message := Text.occursIn text.toList message.text.toList

def builtin : List Rule :=
  [summaryFormat, commitType, separator]

end Rule

end CommitCheck
