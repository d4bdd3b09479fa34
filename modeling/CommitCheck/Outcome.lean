import CommitCheck.Failure
import CommitCheck.Message

set_option autoImplicit false

/-! Outcomes: what a validation says about one message. -/

namespace CommitCheck

structure Outcome where
  message : String
  commit : Option String := none
  special : Option Special := none
  failures : List FailureCode := []
deriving DecidableEq, Repr

namespace Outcome

def isValid (outcome : Outcome) : Bool :=
  outcome.failures.isEmpty

def hasFailure (outcome : Outcome) (code : FailureCode) : Bool :=
  outcome.failures.contains code

def withCommit (outcome : Outcome) (commit : String) : Outcome :=
  { outcome with commit := some commit }

def summaryLine (outcome : Outcome) : String :=
  (Message.mk outcome.message).summary

def shortCommit? (outcome : Outcome) : Option String :=
  outcome.commit.map fun commit => String.ofList (commit.toList.take 7)

def verdict (outcome : Outcome) : String :=
  if outcome.isValid then
    match outcome.special with
    | some kind => "Valid (" ++ kind.name ++ " commit, rules skipped)"
    | none => "Valid"
  else
    "Invalid (" ++ toString outcome.failures.length ++ " failures)"

def invalidCount (outcomes : List Outcome) : Nat :=
  outcomes.countP fun outcome => !outcome.isValid

end Outcome

end CommitCheck
