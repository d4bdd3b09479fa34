import CommitCheck.Revision.Object

set_option autoImplicit false

/-! Why a revision leads nowhere, by cause, and the wording of each cause. -/

namespace CommitCheck.Revision

/-- The greatest number of symbolic references that are followed one after the other. -/
def linkLimit : Nat := 5

def nameLimit : Nat := 1023

inductive Problem where
  | malformed
  | zeroCharacter
  | notFound (name : String)
  | missing (hash : String)
  | corrupted (name : String)
  | nameless
  | oversized (name : String)
  | endless
  | tooShort
  | ambiguous
  /-- A commit has no parent with the number, counted from zero. -/
  | noParent (number : Nat)
  | notOfKind (hash : String) (kind : Kind)
  | noEntry (name : String)
  | noEntryName
  | unsupported
deriving DecidableEq, Repr

def Problem.message (revision : String) : Problem → String
  | malformed => "failed to parse revision specifier - Invalid pattern '" ++ revision ++ "'"
  | zeroCharacter => "data contained a nul byte that could not be represented as a string"
  | notFound name => "revspec '" ++ name ++ "' not found"
  | missing hash => "object not found - no match for id (" ++ hash ++ ")"
  | corrupted name => "corrupted loose reference file: " ++ name
  | nameless => "corrupted loose reference file"
  | oversized name =>
      "the provided buffer is too short to hold the normalization of '" ++ name ++ "'"
  | endless => "cannot resolve reference (>" ++ toString linkLimit ++ " levels deep)"
  | tooShort => "ambiguous lookup - OID prefix is too short"
  | ambiguous => "ambiguous lookup - multiple matches in loose objects"
  | noParent number => "parent " ++ toString number ++ " does not exist"
  | notOfKind hash kind =>
      "the git_object of id '" ++ hash ++ "' can not be successfully peeled into a " ++
        kind.word ++ " (git_object_t=" ++ toString kind.number ++ ")."
  | noEntry name => "the path '" ++ name ++ "' does not exist in the given tree"
  | noEntryName => "invalid tree path given"
  | unsupported => "unimplemented"

end CommitCheck.Revision
