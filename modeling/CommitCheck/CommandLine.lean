import CommitCheck.CommandLine.Reader

set_option autoImplicit false

/-! Invocations: what a command line asks for. -/

namespace CommitCheck

inductive Format where
  | text
  | json
deriving DecidableEq, Repr

structure CheckTarget where
  target : String := "HEAD"
  asRange : Bool := false
  byCommand : Bool := false
deriving DecidableEq, Repr

/-- The target is a range: it is said to be one, or has two dots in it. -/
def CheckTarget.isRange (check : CheckTarget) : Bool :=
  check.asRange || Text.occursIn ['.', '.'] check.target.toList

inductive HookAction where
  | install (force block : Bool)
  | uninstall
  | status
deriving DecidableEq, Repr

inductive Command where
  | check (check : CheckTarget)
  | message (text? : Option String)
  | hook (file : String) (block : Bool)
  | ci
  | hooks (action : HookAction)
  | explain (code? : Option String)
  | version
deriving DecidableEq, Repr

structure Invocation where
  command : Command
  format : Format := .text
  config? : Option String := none
  noColor : Bool := false
  debug : Bool := false
deriving DecidableEq, Repr

namespace CommandLine

def command? (given : Given) : Level → Option Command
  | .check =>
      some (.check
        { target := (given.lookup .operand).getD ({} : CheckTarget).target
          asRange := (given.lookup .range).isSome
          byCommand := (given.lookup .shell).isSome })
  | .message => some (.message (given.lookup .operand))
  | .hook => (given.lookup .operand).map fun file => .hook file (given.lookup .block).isSome
  | .ci => some .ci
  | .install =>
      some (.hooks (.install (given.lookup .force).isSome (given.lookup .block).isSome))
  | .uninstall => some (.hooks .uninstall)
  | .status => some (.hooks .status)
  | .explain => some (.explain (given.lookup .operand))
  | .version => some .version
  | .program | .hooks => none

/-- The value of a parameter that every level has: the innermost level that gives it counts. -/
def shared? (levels : List (Level × Given)) (parameter : Parameter) : Option String :=
  levels.reverse.findSome? fun level => level.2.lookup parameter

def format (name? : Option String) : Format :=
  if name? = some "json" then .json else .text

def configVariable : String := "CMC_CONFIG"

/-- Reads the words of a command line, without the name of the program. -/
def read (environment : String → Option String) (words : List String) :
    Except Refusal Invocation := do
  let fallback? := environment configVariable
  let levels ← readLevel fallback? .program {} words
  match levels.getLast?.bind fun level => command? level.2 level.1 with
  | none => .error .missingSubcommand
  | some command =>
      .ok
        { command
          format := format (shared? levels .format)
          config? := (shared? levels .config).or fallback?
          noColor := (shared? levels .noColor).isSome
          debug := (shared? levels .debug).isSome }

end CommandLine

end CommitCheck
