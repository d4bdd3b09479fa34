set_option autoImplicit false

/-! The grammar of the command line: which commands there are, and which options and operands each
takes. The program and every command are levels of it, and some levels have commands below them. -/

namespace CommitCheck.CommandLine

/-- A level: the program, a command, or a command of a command. -/
inductive Level where
  | program
  | check
  | message
  | hook
  | ci
  | hooks
  | install
  | uninstall
  | status
  | explain
  | version
deriving DecidableEq, Repr

inductive Parameter where
  | debug
  | format
  | config
  | noColor
  | range
  | shell
  | block
  | force
  | operand
deriving DecidableEq, Repr

inductive Meaning where
  | flag (parameter : Parameter)
  | valued (parameter : Parameter)
  | help
  | version
deriving DecidableEq, Repr

def commands : Level → List (String × Level)
  | .program =>
      [("check", .check), ("message", .message), ("hook", .hook), ("ci", .ci), ("hooks", .hooks),
        ("explain", .explain), ("version", .version)]
  | .hooks => [("install", .install), ("uninstall", .uninstall), ("status", .status)]
  | _ => []

def sharedOptions : List (String × Meaning) :=
  [("debug", .flag .debug), ("format", .valued .format), ("config", .valued .config),
    ("no-color", .flag .noColor), ("help", .help), ("version", .version)]

def ownOptions : Level → List (String × Meaning)
  | .check => [("range", .flag .range), ("shell", .flag .shell)]
  | .hook => [("block", .flag .block)]
  | .install => [("force", .flag .force), ("block", .flag .block)]
  | _ => []

def longOption? (level : Level) (name : String) : Option Meaning :=
  (sharedOptions ++ ownOptions level).lookup name

def shortOption? (level : Level) : Char → Option Meaning
  | 'd' => some (.flag .debug)
  | 'c' => some (.valued .config)
  | 'h' => some .help
  | 'V' => some .version
  | 'f' => if level = .install then some (.flag .force) else none
  | _ => none

def takesOperand : Level → Bool
  | .check | .message | .hook | .explain => true
  | _ => false

/-- A value that a parameter can have. A path is never empty. -/
def allows (level : Level) (parameter : Parameter) (value : String) : Bool :=
  match parameter with
  | .format => value == "text" || value == "json"
  | .config => value != ""
  | .operand => level != .hook || value != ""
  | _ => true

end CommitCheck.CommandLine
