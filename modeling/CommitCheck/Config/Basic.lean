import CommitCheck.Glob.Match

set_option autoImplicit false

/-! The configuration: three sections, each value of which has a default of its own. -/

namespace CommitCheck

structure CiConfig where
  ignoredBranches : List String := ["master", "develop"]
deriving DecidableEq, Repr

structure HookConfig where
  block : Bool := false
deriving DecidableEq, Repr

structure DisplayConfig where
  color : Bool := true
  hints : Bool := true
deriving DecidableEq, Repr

structure Config where
  ci : CiConfig := {}
  hooks : HookConfig := {}
  ui : DisplayConfig := {}
deriving DecidableEq, Repr

/-- A branch is ignored when it is one of the patterns or matches one. -/
def CiConfig.ignores (config : CiConfig) (branch : String) : Bool :=
  config.ignoredBranches.any fun pattern =>
    pattern == branch || Glob.accepts pattern.toList branch.toList

end CommitCheck
