import CommitCheck.CommandLine
import CommitCheck.Config.Search
import CommitCheck.Hook.Directory
import CommitCheck.Report
import CommitCheck.Source.Direct
import CommitCheck.Source.Log

set_option autoImplicit false

/-! Runs of the program. A run reads the configuration, does what its command asks for, and ends
with what it has printed, the files as they are then, and whether it has succeeded. Nothing is
printed before all that is asked for has been looked up, so there is a whole report or none. -/

namespace CommitCheck

structure Ending where
  output : String := ""
  result : Except Error Unit := .ok ()

namespace Program

def failed (error : Error) : Ending where
  result := .error error

def printed (lines : List String) : Ending where
  output := String.join (lines.map (· ++ "\n"))

def usesColor (host : Host) (invocation : Invocation) (config : Config) : Bool :=
  !invocation.noColor && config.ui.color && host.surroundings.colors

def report (host : Host) (invocation : Invocation) (config : Config) (outcomes : List Outcome) :
    String :=
  let anyInvalid := decide (0 < Outcome.invalidCount outcomes)
  match invocation.format with
  | .json => (Report.json outcomes).render ++ "\n"
  | .text =>
      let color := usesColor host invocation config
      Report.text color outcomes ++ (if anyInvalid then "\n" else "") ++
        Report.tally outcomes ++ "\n" ++
        (if anyInvalid && config.ui.hints then Report.hint color ++ "\n" else "")

def verdict (outcomes : List Outcome) : Except Error Unit :=
  if Outcome.invalidCount outcomes = 0 then .ok ()
  else .error (.invalidMessages (Outcome.invalidCount outcomes))

def concluded (host : Host) (invocation : Invocation) (config : Config)
    (result : Except Error (List Outcome)) : Ending :=
  match result with
  | .error error => failed error
  | .ok outcomes =>
      { output := report host invocation config outcomes, result := verdict outcomes }

def outcomes (source : Source) (target : String) (isRange : Bool) : Except Error (List Outcome) :=
  if isRange then Validator.standard.validateRange source target
  else Validator.standard.validateReferences source [target]

def directSource (host : Host) : Source :=
  Repository.source host host.currentPath

def runCheck (host : Host) (invocation : Invocation) (config : Config) (check : CheckTarget) :
    Ending :=
  let source := if check.byCommand then Log.source host else directSource host
  concluded host invocation config (outcomes source check.target check.isRange)

def inputText (host : Host) : Except Error String :=
  match Text.decode? host.input with
  | some text => .ok text
  | none => .error (.inContext "Failed to read message from stdin" Fault.notText.message)

def runMessage (host : Host) (invocation : Invocation) (config : Config)
    (text? : Option String) : Ending :=
  let text := (text?.map Except.ok).getD (inputText host)
  concluded host invocation config (text.map fun text => [Validator.standard.validate text])

/-- Validates the content of a file. Unless the hook blocks, an invalid message is reported and let
through. -/
def runHook (host : Host) (invocation : Invocation) (config : Config) (file : String)
    (block : Bool) : Ending :=
  match host.readText (Path.ofText file) with
  | .error fault => failed (.inContext ("Failed to read " ++ file) fault.message)
  | .ok text =>
      let outcomes := [Validator.standard.validate text]
      { output := report host invocation config outcomes
        result := if block || config.hooks.block then verdict outcomes else .ok () }

def runBuild (host : Host) (invocation : Invocation) (config : Config) : Ending :=
  match Build.plan config.ci host.environment with
  | .error error => failed (.build error)
  | .ok (.skip reason) => printed [reason]
  | .ok (.range range) =>
      concluded host invocation config (outcomes (directSource host) range true)
  | .ok (.commit commit) =>
      concluded host invocation config (outcomes (directSource host) commit false)

def statusLine (hook : String × Bool) : String :=
  (if hook.2 then "✓ " else "✗ ") ++ hook.1

def hookAction (config : Config) (directory : HookDirectory) :
    HookAction → FileAction (List String)
  | .install force block => do
      directory.installAll force (block || config.hooks.block)
      return ["✓ Installed commit-msg hook"]
  | .uninstall => do
      directory.uninstallAll
      return ["✓ Uninstalled commit-msg hook"]
  | .status => return (directory.status (← get)).map statusLine

def runHooks (host : Host) (config : Config) (action : HookAction) : Ending × FileTree :=
  match Repository.discover host host.currentPath with
  | .error error => (failed (.history error), host.files)
  | .ok repository =>
      let steps := do
        hookAction config (← HookDirectory.prepare (repository.path.child "hooks")) action
      match steps.run host.files with
      | .ok lines files => (printed lines, files)
      | .error error files => (failed error, files)

def explanationLine (code : FailureCode) : String :=
  code.name ++ ": " ++ code.explanation

def typeLine (kind : CommitType) : String :=
  "  " ++ String.ofList (Text.padRight 10 kind.token.toList) ++ " " ++ kind.description

def runExplain : Option String → Ending
  | some name =>
      match FailureCode.ofName? name with
      | some code => printed [explanationLine code]
      | none => failed (.inContext "explain" ("Unknown rule ID '" ++ name ++ "'"))
  | none =>
      printed (FailureCode.all.map explanationLine ++ "" :: "Commit types:" ::
        CommitType.all.map typeLine)

def runVersion : Ending :=
  printed
    ["cmc " ++ Version.summary, "git commit: " ++ Version.commit, "commit date: " ++ Version.date]

def configuration (host : Host) (invocation : Invocation) : Except ConfigError Config :=
  match invocation.config? with
  | some path => Config.loadFrom host (Path.ofText path)
  | none => Config.load host

/-- Runs an invocation: how it ends, and the files after it. -/
def run (host : Host) (invocation : Invocation) : Ending × FileTree :=
  match configuration host invocation with
  | .error error => (failed (.config error), host.files)
  | .ok config =>
      match invocation.command with
      | .check check => (runCheck host invocation config check, host.files)
      | .message text? => (runMessage host invocation config text?, host.files)
      | .hook file block => (runHook host invocation config file block, host.files)
      | .ci => (runBuild host invocation config, host.files)
      | .hooks action => runHooks host config action
      | .explain code? => (runExplain code?, host.files)
      | .version => (runVersion, host.files)

end Program

end CommitCheck
