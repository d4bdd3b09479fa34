import CommitCheck.CommitType

set_option autoImplicit false

/-! Failure codes: the stable name of what is wrong with a message, and its explanation. -/

namespace CommitCheck

inductive FailureCode where
  | invalidSummaryFormat
  | missingOrInvalidType
  | noSeparatorAfterSummary
deriving DecidableEq, Repr

namespace FailureCode

def all : List FailureCode :=
  [invalidSummaryFormat, missingOrInvalidType, noSeparatorAfterSummary]

def name : FailureCode → String
  | invalidSummaryFormat => "invalid-summary-format"
  | missingOrInvalidType => "missing-or-invalid-type"
  | noSeparatorAfterSummary => "no-separator-after-summary"

def ofName? (name : String) : Option FailureCode :=
  all.find? fun code => code.name == name

def explanation : FailureCode → String
  | invalidSummaryFormat =>
      "The first line of the commit message does not match the expected format. " ++
        "Commit messages should be in the format: \"[J#PROJ-123][BUG] Fix issue with foo\" " ++
        "or \"[BUG] Fix issue with foo\"."
  | missingOrInvalidType =>
      "The commit message is missing a commit type, or the commit type is invalid, " ++
        "e.g. \"[J#PROJ-123][FEATURE] Add foo feature\". Accepted values are " ++
        CommitType.listing ++ "."
  | noSeparatorAfterSummary =>
      "There is a missing new-line after the first line. Multi-line commit messages " ++
        "should have a blank line between the first line (a terse description of the " ++
        "change) and the longer commit description."

end FailureCode

end CommitCheck
