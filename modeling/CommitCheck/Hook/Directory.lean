import CommitCheck.Error
import CommitCheck.FileTree
import CommitCheck.Hook.Script

set_option autoImplicit false

/-! The directory of hooks. Installing a hook writes its script. A script that someone else wrote is
in the way: it is only replaced by force, and is kept as a backup, which comes back when the hook is
uninstalled. Each operation is a sequence of steps on the files. It ends at the first step that
fails, and what the steps before have changed stays changed. -/

namespace CommitCheck

abbrev FileAction := EStateM Error FileTree

def change (report : Fault → Error) (step : FileTree → Except Fault FileTree) :
    FileAction Unit :=
  fun files =>
    match step files with
    | .ok changed => .ok () changed
    | .error fault => .error (report fault) files

def inspect {α : Type} (report : Fault → Error) (look : FileTree → Except Fault α) :
    FileAction α :=
  fun files =>
    match look files with
    | .ok found => .ok found files
    | .error fault => .error (report fault) files

structure HookDirectory where
  path : Path
deriving DecidableEq, Repr

namespace HookDirectory

def scriptPath (directory : HookDirectory) (hook : Hook) : Path :=
  directory.path.child hook.fileName

def backupPath (directory : HookDirectory) (hook : Hook) : Path :=
  directory.path.child (hook.fileName ++ ".backup")

def scriptMode : Nat := 0o755

def installFailed (hook : String) (what : String) (fault : Fault) : Error :=
  .hook (.installFailed hook (what ++ ": " ++ fault.message))

def removeFailed (hook : String) (what : String) (fault : Fault) : Error :=
  .hook (.removeFailed hook (what ++ ": " ++ fault.message))

/-- The directory of hooks at a path. It is made if there is nothing there. -/
def prepare (path : Path) : FileAction HookDirectory := do
  if !(← get).holds path then
    change (installFailed "all" "Failed to create hooks directory") (·.makeDirectories path)
  return ⟨path⟩

def readsOwn (path : Path) : FileAction Bool :=
  inspect (installFailed path.text "Failed to read hook") fun files =>
    (files.readText path).map Hook.isOwn

def isForeign (path : Path) : FileAction Bool := do
  if (← get).holds path then
    return !(← readsOwn path)
  else
    return false

def install (directory : HookDirectory) (hook : Hook) (force block : Bool) : FileAction Unit := do
  let path := directory.scriptPath hook
  if ← isForeign path then
    if !force then
      throw (.hook (.alreadyExists hook.fileName))
    change (installFailed hook.fileName "Failed to backup existing hook")
      (·.rename path (directory.backupPath hook))
  change (installFailed hook.fileName "Failed to write hook")
    (·.write path (Text.encode (hook.script block)))
  change (installFailed hook.fileName "Failed to set permissions") (·.setMode path scriptMode)

/-- Uninstalls a hook, which the caller knows under a name, and brings back the script it has
replaced. -/
def uninstall (directory : HookDirectory) (hook : Hook) (name : String) : FileAction Unit := do
  let path := directory.scriptPath hook
  if (← get).holds path then
    if !(← readsOwn path) then
      throw (.hook (.removeFailed name "Hook was not installed by cmc"))
    change (removeFailed name "Failed to remove hook") (·.removeFile path)
    let backup := directory.backupPath hook
    if (← get).holds backup then
      change (removeFailed name "Failed to restore backup") (·.rename backup path)

def named (name : String) : FileAction Hook :=
  match Hook.ofName? name with
  | some hook => return hook
  | none => throw (.hook (.notFound name))

def installNamed (directory : HookDirectory) (name : String) (force block : Bool) :
    FileAction Unit := do
  directory.install (← named name) force block

def uninstallNamed (directory : HookDirectory) (name : String) : FileAction Unit := do
  directory.uninstall (← named name) name

def installAll (directory : HookDirectory) (force block : Bool) : FileAction Unit :=
  Hook.all.forM fun hook => directory.install hook force block

def uninstallAll (directory : HookDirectory) : FileAction Unit :=
  Hook.all.forM fun hook => directory.uninstall hook hook.fileName

/-- There is a script at a path that this program installed. A script that cannot be read is not
one. -/
def isInstalled (files : FileTree) (path : Path) : Bool :=
  match files.readText path with
  | .ok script => Hook.isOwn script
  | .error _ => false

def status (directory : HookDirectory) (files : FileTree) : List (String × Bool) :=
  Hook.all.map fun hook => (hook.fileName, isInstalled files (directory.scriptPath hook))

end HookDirectory

end CommitCheck
