import CommitCheck.Config.Basic
import CommitCheck.Error
import CommitCheck.Toml.Document

set_option autoImplicit false

/-! Reading a configuration from a TOML document. A section is a table with named settings, or a
list with the settings in their order. Settings that are not given have their defaults, and anything
that is not a setting is ignored. -/

namespace CommitCheck.Config

inductive Section where
  | named (entries : Toml.Entries)
  | listed (items : List Toml.Value)

namespace Section

/-- A value that can be a section. A moment has no settings in it. -/
def ofValue? : Toml.Value → Option Section
  | .table _ entries => some (named entries)
  | .array items => some (listed items)
  | .tables elements => some (listed (elements.map (.table .header)))
  | .moment _ => some (named [])
  | _ => none

def get? (settings : Section) (place : Nat) (name : String) : Option Toml.Value :=
  match settings with
  | named entries => entries.lookup name
  | listed items => items[place]?

def setting? {α : Type} (settings : Section) (place : Nat) (name : String) (default : α)
    (decode? : Toml.Value → Option α) : Option α :=
  match settings.get? place name with
  | some value => decode? value
  | none => some default

end Section

def boolean? : Toml.Value → Option Bool
  | .boolean value => some value
  | _ => none

def text? : Toml.Value → Option String
  | .string text => some text
  | _ => none

def texts? : Toml.Value → Option (List String)
  | .array items => items.mapM text?
  | _ => none

def ci? (value : Toml.Value) : Option CiConfig := do
  let settings ← Section.ofValue? value
  let branches ← settings.setting? 0 "ignore_pull_requests_from_branches"
    ({} : CiConfig).ignoredBranches texts?
  some ⟨branches⟩

def hooks? (value : Toml.Value) : Option HookConfig := do
  let settings ← Section.ofValue? value
  let block ← settings.setting? 0 "block" ({} : HookConfig).block boolean?
  some ⟨block⟩

def ui? (value : Toml.Value) : Option DisplayConfig := do
  let settings ← Section.ofValue? value
  let color ← settings.setting? 0 "color" ({} : DisplayConfig).color boolean?
  let hints ← settings.setting? 1 "hints" ({} : DisplayConfig).hints boolean?
  some ⟨color, hints⟩

def ofEntries? (entries : Toml.Entries) : Option Config := do
  let document := Section.named entries
  let ci ← document.setting? 0 "ci" {} ci?
  let hooks ← document.setting? 1 "hooks" {} hooks?
  let ui ← document.setting? 2 "ui" {} ui?
  some ⟨ci, hooks, ui⟩

def branchKey : String := "ci.ignore_pull_requests_from_branches"

def patternError? (pattern : String) : Option ConfigError :=
  match Glob.tokens pattern.toList with
  | .ok _ => none
  | .error error => some (.invalidValue branchKey ("'" ++ pattern ++ "': " ++ error.message))

/-- Reads a configuration. Every branch pattern has to be a glob pattern; the first that is not one
is reported. The words for what is wrong with a text that is no document are given. -/
def parse (text : String) (diagnosis : String → String := fun _ => "") :
    Except ConfigError Config :=
  match (Toml.entries? text.toList).bind ofEntries? with
  | none => .error (.malformed ("Failed to parse TOML: " ++ diagnosis text))
  | some config =>
      match config.ci.ignoredBranches.findSome? patternError? with
      | some error => .error error
      | none => .ok config

end CommitCheck.Config
