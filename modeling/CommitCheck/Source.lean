import CommitCheck.Error
import CommitCheck.Validator

set_option autoImplicit false

/-! Sources of commits, and the validation of what they hold. A source finds one commit by a
reference and lists the commits of a range, newest first. Whatever is asked for several commits is
answered for all of them or not at all: the first lookup that fails, in order, is the answer. -/

namespace CommitCheck

structure Commit where
  sha : String
  message : String
deriving DecidableEq, Repr

structure Source where
  commit : String → Except Error Commit
  /-- The hashes of the commits in a range, newest first. -/
  shas : String → Except Error (List String)

namespace Source

def message (source : Source) (reference : String) : Except Error String :=
  (source.commit reference).map Commit.message

def commits (source : Source) (references : List String) : Except Error (List Commit) :=
  references.mapM source.commit

def commitsInRange (source : Source) (range : String) : Except Error (List Commit) :=
  source.shas range >>= source.commits

end Source

namespace Validator

def validateCommit (validator : Validator) (commit : Commit) : Outcome :=
  (validator.validate commit.message).withCommit commit.sha

def validateReference (validator : Validator) (source : Source) (reference : String) :
    Except Error Outcome :=
  (source.commit reference).map validator.validateCommit

def validateReferences (validator : Validator) (source : Source) (references : List String) :
    Except Error (List Outcome) :=
  (source.commits references).map (List.map validator.validateCommit)

def validateRange (validator : Validator) (source : Source) (range : String) :
    Except Error (List Outcome) :=
  (source.commitsInRange range).map (List.map validator.validateCommit)

end Validator

end CommitCheck
