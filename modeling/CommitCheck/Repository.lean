import CommitCheck.Error
import CommitCheck.Host
import CommitCheck.Text.Blank

set_option autoImplicit false

/-! Repositories, and how the one is found that a directory belongs to. Each directory from the
starting point up to the root is looked at: it may have a directory `.git` that keeps a history, or
a file of that name that says where the history is kept, or keep a history itself. A directory keeps
a history when it has a file `HEAD` and when directories for objects and for references are there,
in the directory itself or in another one that it shares. -/

namespace CommitCheck

structure Repository where
  directory : Place
  shared : Place
  files : FileTree
  history : History

namespace Repository

def entryPath (directory : Place) (name : String) : Path :=
  ⟨(Path.ofNames directory).stem ++ (Path.ofText name).pieces⟩

def storedHistory (host : Host) (directory : Place) : History :=
  match host.files.locate (entryPath directory "objects") with
  | .ok store => (host.stores.lookup store).getD .empty
  | .error _ => .empty

def ofPlaces (host : Host) (directory shared : Place) : Repository where
  directory
  shared
  files := host.files
  history := storedHistory host shared

def path (repository : Repository) : Path :=
  (Path.ofNames repository.directory).child ""

/-- The path of the file that keeps the reference with a name. The references whose names start with
`refs/` are shared. -/
def referencePath (repository : Repository) (name : String) : Path :=
  let inShared := "refs/".toList.isPrefixOf name.toList
  entryPath (if inShared then repository.shared else repository.directory) name

def referenceContent (repository : Repository) (name : String) : Except Fault (List UInt8) :=
  repository.files.read (repository.referencePath name)

def resolved (host : Host) (path : Path) : Except HistoryError Place :=
  match host.files.find path with
  | .ok (place, _) => .ok place
  | .error .nameTooLong =>
      .error (.openFailed ("failed to resolve path '" ++ path.text ++ "': File name too long"))
  | .error _ => .error .notARepository

def spelledPath (cs : List Char) : Path :=
  Path.ofText (String.ofList (cs.takeWhile (· != '\x00')))

/-- The text in the content of a file, without white space at its end. -/
def trimmedText (content : List UInt8) : List Char :=
  Text.trimSpaceEnd (Text.decodeLenient content).toList

/-- The directory that a directory shares: the one that its file `commondir` says, or else itself.
-/
def sharedPlace (host : Host) (directory : Place) : Except HistoryError Place :=
  match host.files.read (entryPath directory "commondir") with
  | .ok content => resolved host ((Path.ofNames directory).join (spelledPath (trimmedText content)))
  | .error _ => .ok directory

def kept? (host : Host) (directory : Place) : Except HistoryError (Option Repository) :=
  match host.files.node? directory with
  | some .directory => do
      let shared ← sharedPlace host directory
      if host.files.holdsFile (entryPath directory "HEAD") &&
          host.files.holdsDirectory (entryPath shared "objects") &&
          host.files.holdsDirectory (entryPath shared "refs") then
        .ok (some (ofPlaces host directory shared))
      else
        .ok none
  | _ => .ok none

def linkMark : List Char := "gitdir:".toList

def linkPath? (content : List UInt8) : Option Path :=
  match linkMark.isPrefixOf? (trimmedText content) with
  | some (c :: cs) => some (spelledPath ((c :: cs).dropWhile Text.isSpace))
  | _ => none

def linked (host : Host) (directory : Place) (content : List UInt8) :
    Except HistoryError Repository := do
  match linkPath? content with
  | none =>
      .error (.openFailed
        ("the `.git` file at '" ++ (entryPath directory ".git").text ++ "' is malformed"))
  | some path =>
      let place ← resolved host ((Path.ofNames directory).join path)
      match ← kept? host place with
      | some repository => .ok repository
      | none => .error .notARepository

def opened? (host : Host) (directory : Place) : Except HistoryError (Option Repository) := do
  match host.files.find (entryPath directory ".git") with
  | .ok (_, .file content _) => return some (← linked host directory content)
  | .ok (inside, .directory) =>
      match ← kept? host inside with
      | some repository => return some repository
      | none => kept? host directory
  | .error _ => kept? host directory

def firstOpened (host : Host) : List Place → Except HistoryError Repository
  | [] => .error .notARepository
  | directory :: others => do
      match ← opened? host directory with
      | some repository => .ok repository
      | none => firstOpened host others

def enclosing (place : Place) : List Place :=
  ((List.range (place.length + 1)).reverse).map place.take

/-- The repository that the end of a path belongs to. Once its directory has been found, it is
opened from there. -/
def discover (host : Host) (path : Path) : Except HistoryError Repository :=
  match host.files.find (host.absolute path) with
  | .error _ => .error .notARepository
  | .ok (place, _) => do
      let found ← firstOpened host (enclosing place)
      firstOpened host [found.directory]

end Repository

end CommitCheck
