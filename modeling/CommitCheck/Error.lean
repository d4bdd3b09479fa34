set_option autoImplicit false

/-! What can go wrong, by cause, and the wording of each cause. -/

namespace CommitCheck

inductive ConfigError where
  | notFound (path : String)
  | unreadable (reason : String)
  | malformed (reason : String)
  | invalidValue (key : String) (reason : String)
deriving DecidableEq, Repr

def ConfigError.message : ConfigError → String
  | notFound path => "Configuration file not found: " ++ path
  | unreadable reason => "Failed to parse configuration: Failed to read config file: " ++ reason
  | malformed reason => "Failed to parse configuration: " ++ reason
  | invalidValue key reason => "Invalid configuration value for '" ++ key ++ "': " ++ reason

inductive HistoryError where
  | notARepository
  /-- There is something in the place of a repository that cannot be opened. -/
  | openFailed (reason : String)
  | invalidReference (reference : String)
  | invalidRange (range : String)
  | commandFailed (command : String) (reason : String)
deriving DecidableEq, Repr

def HistoryError.message : HistoryError → String
  | notARepository => "Not a git repository"
  | openFailed reason => "Failed to open repository: " ++ reason
  | invalidReference reference => "Invalid commit reference: " ++ reference
  | invalidRange range => "Invalid commit range: " ++ range
  | commandFailed command reason => "Git command failed: " ++ command ++ " - " ++ reason

inductive BuildError where
  | notDetected
  | missingVariable (name : String)
deriving DecidableEq, Repr

def BuildError.message : BuildError → String
  | notDetected => "No supported CI environment detected"
  | missingVariable name => "Missing CI environment variable: " ++ name

inductive HookError where
  | installFailed (hook : String) (reason : String)
  | alreadyExists (hook : String)
  | notFound (hook : String)
  | removeFailed (hook : String) (reason : String)
deriving DecidableEq, Repr

def HookError.message : HookError → String
  | installFailed hook reason => "Failed to install hook '" ++ hook ++ "': " ++ reason
  | alreadyExists hook => "Hook already exists: " ++ hook
  | notFound hook => "Hook not found: " ++ hook
  | removeFailed hook reason => "Failed to remove hook '" ++ hook ++ "': " ++ reason

inductive Error where
  | config (cause : ConfigError)
  | history (cause : HistoryError)
  | build (cause : BuildError)
  | hook (cause : HookError)
  | inputOutput (reason : String)
  | invalidMessages (count : Nat)
  | inContext (context : String) (reason : String)
deriving DecidableEq, Repr

namespace Error

def message : Error → String
  | config cause => "Configuration error: " ++ cause.message
  | history cause => "Git error: " ++ cause.message
  | build cause => "CI error: " ++ cause.message
  | hook cause => "Hook error: " ++ cause.message
  | inputOutput reason => "IO error: " ++ reason
  | invalidMessages count => toString count ++ " commit message(s) failed validation"
  | inContext context reason => context ++ ": " ++ reason

def within (failure : Error) (context : String) : Error :=
  .inContext context failure.message

end Error

end CommitCheck
