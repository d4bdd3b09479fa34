import CommitCheck.Outcome
import CommitCheck.Rule

set_option autoImplicit false

/-! Validators: an ordered list of rules, and the outcome of a message under it. Messages of merge
and revert commits are written by the version control system and are not held to any rule. -/

namespace CommitCheck

/-- The rules that messages are held to, in the order in which they report. -/
structure Validator where
  rules : List Rule := Rule.builtin

namespace Validator

def standard : Validator := {}

def addRule (validator : Validator) (rule : Rule) : Validator :=
  { validator with rules := validator.rules ++ [rule] }

/-- The codes of the rules that a message fails, one for each of them. -/
def failures (validator : Validator) (message : Message) : List FailureCode :=
  validator.rules.filterMap fun rule => rule.failure? message

def validate (validator : Validator) (text : String) : Outcome :=
  match Message.special? ⟨text⟩ with
  | some kind => { message := text, special := some kind }
  | none => { message := text, failures := validator.failures ⟨text⟩ }

def validateAll (validator : Validator) (texts : List String) : List Outcome :=
  texts.map validator.validate

def accepts (validator : Validator) (text : String) : Bool :=
  (validator.validate text).isValid

end Validator

end CommitCheck
