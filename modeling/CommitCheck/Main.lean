import CommitCheck.Program

set_option autoImplicit false

/-! The executable. It reads what a run can look at, runs the program, prints what the run has
printed, and brings the scripts of hooks on the disk to the state after the run. Stored commits are
not read here: a repository that is found is taken to have an empty history. -/

namespace CommitCheck.Executable

def variableNames : List String :=
  [CommandLine.configVariable, "HOME", "XDG_CONFIG_HOME", "TERM", "NO_COLOR", "CLICOLOR",
    "CLICOLOR_FORCE", "TRAVIS", "TRAVIS_PULL_REQUEST", "TRAVIS_PULL_REQUEST_BRANCH",
    "TRAVIS_COMMIT_RANGE", "TRAVIS_COMMIT", "APPVEYOR", "APPVEYOR_PULL_REQUEST_NUMBER",
    "APPVEYOR_PULL_REQUEST_HEAD_REPO_BRANCH", "APPVEYOR_REPO_BRANCH", "APPVEYOR_REPO_COMMIT"]

def readEnvironment : IO Environment := do
  let values ← variableNames.filterMapM fun name => do
    return (← IO.getEnv name).map fun value => (name, value)
  return fun name => values.lookup name

/-- The standard output shows colours: it is a terminal that can, or has to. -/
def showsColors (environment : Environment) (isTerminal : Bool) : Bool :=
  (isTerminal && (environment "NO_COLOR").isNone && (environment "TERM").any (· != "dumb") &&
      environment "CLICOLOR" != some "0") ||
    (environment "CLICOLOR_FORCE").any (· != "0")

def historyPlaces (place : Place) : List Place :=
  (Repository.enclosing place).flatMap fun place => [place ++ [".git"], place]

def historyPaths (place : Place) : List Path :=
  ["HEAD", "commondir", "objects", "refs"].map (Repository.entryPath place)

def scriptPaths (place : Place) : List Path :=
  let directory : HookDirectory := ⟨(Path.ofNames place).child "hooks"⟩
  directory.path :: Hook.all.flatMap fun hook =>
    [directory.scriptPath hook, directory.backupPath hook]

def namedPaths (invocation : Invocation) : List Path :=
  let operand := match invocation.command with
    | .hook file _ => [file]
    | _ => []
  (invocation.config?.toList ++ operand).map Path.ofText

def readPath (files : FileTree) (path : Path) : IO FileTree := do
  let spot := (← IO.currentDir) / path.text
  if ← spot.isDir then
    return (files.makeDirectories path).toOption.getD files
  else if ← spot.pathExists then
    let content := (← IO.FS.readBinFile spot).toList
    return (do
      let above ← files.makeDirectories ⟨path.stem.dropLast⟩
      above.write path content).toOption.getD files
  else
    return files

def nodeAt (files : FileTree) (path : Path) : Option Node :=
  (files.find path).toOption.map Prod.snd

def movedFrom? (before after : FileTree) (paths : List Path) (path : Path) : Option Path :=
  match nodeAt after path with
  | some (.file content _) =>
      if nodeAt after path = nodeAt before path then none
      else paths.find? fun other => other != path && (before.read other).toOption == some content
  | _ => none

def writePath (before after : FileTree) (path : Path) : IO Unit := do
  match nodeAt after path with
  | some (.file content mode) =>
      if nodeAt before path != some (.file content mode) then
        IO.FS.writeBinFile path.text ⟨content.toArray⟩
        if mode = HookDirectory.scriptMode then
          let access : IO.AccessRight := ⟨true, false, true⟩
          IO.setAccessRights path.text ⟨⟨true, true, true⟩, access, access⟩
  | some .directory => IO.FS.createDirAll path.text
  | none =>
      if (nodeAt before path).isSome && (← ((← IO.currentDir) / path.text).pathExists) then
        IO.FS.removeFile path.text

/-- Brings the disk to the state that several paths have in the tree after a run. Files are moved
before any is written, so that they keep their modes. -/
def writePaths (before after : FileTree) (paths : List Path) : IO Unit := do
  let moves := paths.filterMap fun path =>
    (movedFrom? before after paths path).map fun source => (source, path)
  for (source, path) in moves do
    IO.FS.rename source.text path.text
  for path in paths do
    if !(moves.map Prod.snd).contains path then
      writePath before after path

partial def readAll (stream : IO.FS.Stream) (bytes : ByteArray) : IO ByteArray := do
  let more ← stream.read 65536
  if more.isEmpty then return bytes else readAll stream (bytes ++ more)

def readHost (environment : Environment) (invocation : Invocation) : IO Host := do
  let current := Path.ofText (← IO.currentDir).toString
  let directory := current.pieces.filter (· != "")
  let places := historyPlaces directory
  let colors := showsColors environment (← (← IO.getStdout).isTty)
  let start : Host := { directory, surroundings := { environment, colors } }
  let paths := current :: Config.candidates start.surroundings current ++ namedPaths invocation ++
    places.map Path.ofNames ++ places.flatMap historyPaths ++ places.flatMap scriptPaths
  let files ← (paths.map start.absolute).foldlM readPath {}
  let input ← match invocation.command with
    | .message none => do pure (← readAll (← IO.getStdin) .empty).toList
    | _ => pure []
  return { start with files, input }

def runInvocation (environment : Environment) (invocation : Invocation) : IO UInt32 := do
  let host ← readHost environment invocation
  let (ending, after) := Program.run host invocation
  writePaths host.files after ((historyPlaces host.directory).flatMap scriptPaths)
  IO.print ending.output
  match ending.result with
  | .ok _ => return 0
  | .error (.invalidMessages _) => return 1
  | .error error =>
      IO.eprintln ("Error: " ++ error.message)
      return 1

end CommitCheck.Executable

/-- Runs the words of the command line. Words that cannot be run end with status 2, requests for
help or for the version with status 0. -/
def main (words : List String) : IO UInt32 := do
  let environment ← CommitCheck.Executable.readEnvironment
  match CommitCheck.CommandLine.read environment words with
  | .ok invocation => CommitCheck.Executable.runInvocation environment invocation
  | .error refusal => return if refusal.isRequest then 0 else 2
