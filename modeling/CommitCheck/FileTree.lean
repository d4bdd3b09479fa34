import CommitCheck.Path
import CommitCheck.Text.Utf8

set_option autoImplicit false

/-! Files, directories and links, and the operations on them. A file tree is a finite map from places
to entries; the root is a directory that is always there. An operation follows a path from the root,
piece by piece, and either succeeds or finds a fault and changes nothing. -/

namespace CommitCheck

inductive Node where
  | file (content : List UInt8) (mode : Nat)
  | directory
deriving DecidableEq, Repr

/-- What a directory can have under a name. A link stands for what its target leads to. -/
inductive Entry where
  | node (node : Node)
  | link (target : String)
deriving DecidableEq, Repr

def Entry.node? : Entry → Option Node
  | .node held => some held
  | .link _ => none

def Entry.link? : Entry → Option Path
  | .node _ => none
  | .link target => some (.ofText target)

def Entry.isDirectory : Entry → Bool
  | .node .directory => true
  | _ => false

abbrev Place := List String

structure FileTree where
  entries : List (Place × Entry) := []
deriving DecidableEq, Repr

inductive Fault where
  | notFound
  | notPermitted
  | notADirectory
  | isADirectory
  | alreadyThere
  | nameTooLong
  | notEmpty
  | tooManyLinks
  | invalidName
  | notText
deriving DecidableEq, Repr

def Fault.message : Fault → String
  | notFound => "No such file or directory (os error 2)"
  | notPermitted => "Permission denied (os error 13)"
  | alreadyThere => "File exists (os error 17)"
  | notADirectory => "Not a directory (os error 20)"
  | isADirectory => "Is a directory (os error 21)"
  | nameTooLong => "File name too long (os error 36)"
  | notEmpty => "Directory not empty (os error 39)"
  | tooManyLinks => "Too many levels of symbolic links (os error 40)"
  | invalidName => "file name contained an unexpected NUL byte"
  | notText => "stream did not contain valid UTF-8"

namespace FileTree

def ofNodes (nodes : List (Place × Node)) : FileTree :=
  ⟨nodes.map fun node => (node.1, .node node.2)⟩

def held? (files : FileTree) (place : Place) : Option Entry :=
  if place.isEmpty then some (.node .directory) else files.entries.lookup place

def node? (files : FileTree) (place : Place) : Option Node :=
  (files.held? place).bind Entry.node?

def link? (files : FileTree) (place : Place) : Option Path :=
  (files.held? place).bind Entry.link?

def put (files : FileTree) (place : Place) (node : Node) : FileTree :=
  ⟨(place, .node node) :: files.entries.filter fun entry => entry.1 != place⟩

def erase (files : FileTree) (place : Place) : FileTree :=
  ⟨files.entries.filter fun entry => !place.isPrefixOf entry.1⟩

theorem lookup_filter (keep : Place → Bool) (entries : List (Place × Entry)) (place : Place) :
    (entries.filter fun entry => keep entry.1).lookup place =
      if keep place then entries.lookup place else none := by
  induction entries with
  | nil => simp
  | cons entry entries ih =>
      obtain ⟨key, held⟩ := entry
      by_cases kept : keep key
      · by_cases same : place = key
        · subst same
          simp [kept]
        · have apart : (place == key) = false := by simpa using same
          simp [kept, List.lookup_cons, apart, ih]
      · by_cases same : place = key
        · subst same
          simp [kept, ih]
        · have apart : (place == key) = false := by simpa using same
          simp [kept, List.lookup_cons, apart, ih]

theorem held?_put (files : FileTree) {place : Place} (below : place ≠ []) (node : Node)
    (other : Place) :
    (files.put place node).held? other =
      if other = place then some (.node node) else files.held? other := by
  by_cases root : other = []
  · subst root
    simp [held?, Ne.symm below]
  · by_cases same : other = place
    · subst same
      simp [held?, put, root]
    · have apart : (other == place) = false := by simpa using same
      simp [held?, put, root, same, List.lookup_cons, apart,
        lookup_filter (fun key => key != place)]

theorem held?_erase (files : FileTree) {place : Place} (below : place ≠ []) (other : Place) :
    (files.erase place).held? other =
      if place.isPrefixOf other then none else files.held? other := by
  by_cases root : other = []
  · subst root
    cases place with
    | nil => exact absurd rfl below
    | cons => simp [held?]
  · by_cases under : place.isPrefixOf other <;>
      simp [held?, erase, root, under, lookup_filter (fun key => !place.isPrefixOf key)]

def moved (source target place : Place) : Place :=
  match source.isPrefixOf? place with
  | some below => target ++ below
  | none => place

def move (files : FileTree) (source target : Place) : FileTree :=
  if source = target then files
  else ⟨(files.erase target).entries.map fun entry => (moved source target entry.1, entry.2)⟩

def names (files : FileTree) (place : Place) : List String :=
  files.entries.filterMap fun entry =>
    match place.isPrefixOf? entry.1 with
    | some [name] => some name
    | _ => none

/-! ### Following paths -/

def nameLimit : Nat := 255

def pathLimit : Nat := 4095

def linkLimit : Nat := 40

def pathFault? (path : Path) : Option Fault :=
  if path.text.contains '\x00' then some .invalidName
  else if pathLimit < path.text.utf8ByteSize then some .nameTooLong
  else none

/-- Follows one piece of a path. Nothing but a directory can be gone through, not even by a piece
that leads nowhere, and `mayOpen` says which directories the user may search. -/
def follow (files : FileTree) (mayOpen : Place → Bool) (place : Place) (piece : String) :
    Except Fault Place :=
  match files.node? place with
  | none => .error .notFound
  | some (.file _ _) => .error .notADirectory
  | some .directory =>
      if piece = "" then .ok place
      else if !mayOpen place then .error .notPermitted
      else if Path.isIdle piece then .ok place
      else if piece = ".." then .ok place.dropLast
      else if nameLimit < piece.utf8ByteSize then .error .nameTooLong
      else .ok (place ++ [piece])

/-- The directory from which the target of a link at a place is followed. -/
def linkStart (target : Path) (place : Place) : Place :=
  if target.isAbsolute then [] else place.dropLast

/-- Follows pieces up to a link that is gone through, where `enter` goes on with the pieces of its
target in front of those that are left. A link at the very end is gone through only if `through`
holds. -/
def walkTo (files : FileTree) (mayOpen : Place → Bool) (through : Bool)
    (enter : Place → List String → Except Fault Place) :
    Place → List String → Except Fault Place
  | place, [] => .ok place
  | place, piece :: pieces =>
      match files.follow mayOpen place piece with
      | .error fault => .error fault
      | .ok next =>
          match files.link? next with
          | none => walkTo files mayOpen through enter next pieces
          | some target =>
              if through || !pieces.isEmpty then
                enter (linkStart target next) (target.pieces ++ pieces)
              else
                .ok next

def walk (files : FileTree) (mayOpen : Place → Bool) (through : Bool) :
    Nat → Place → List String → Except Fault Place
  | 0 => walkTo files mayOpen through fun _ _ => .error .tooManyLinks
  | links + 1 => walkTo files mayOpen through (walk files mayOpen through links)

def everywhere : Place → Bool := fun _ => true

/-- The place that an absolute path leads to. There need not be anything at it. -/
def locate (files : FileTree) (path : Path) (mayOpen : Place → Bool := everywhere) :
    Except Fault Place :=
  match pathFault? path with
  | some fault => .error fault
  | none => files.walk mayOpen true linkLimit [] path.pieces

/-- The place of the entry that an absolute path names, which may be a link. -/
def locateEntry (files : FileTree) (path : Path) : Except Fault Place :=
  match pathFault? path with
  | some fault => .error fault
  | none => files.walk everywhere false linkLimit [] path.pieces

def find (files : FileTree) (path : Path) (mayOpen : Place → Bool := everywhere) :
    Except Fault (Place × Node) :=
  match files.locate path mayOpen with
  | .error fault => .error fault
  | .ok place =>
      match files.node? place with
      | some node => .ok (place, node)
      | none => .error .notFound

def holds (files : FileTree) (path : Path) (mayOpen : Place → Bool := everywhere) : Bool :=
  (files.find path mayOpen).isOk

def holdsDirectory (files : FileTree) (path : Path) : Bool :=
  match files.find path with
  | .ok (_, .directory) => true
  | _ => false

def holdsFile (files : FileTree) (path : Path) : Bool :=
  match files.find path with
  | .ok (_, .file _ _) => true
  | _ => false

def read (files : FileTree) (path : Path) (mayOpen : Place → Bool := everywhere) :
    Except Fault (List UInt8) :=
  match files.find path mayOpen with
  | .error fault => .error fault
  | .ok (place, node) =>
      if !mayOpen place then .error .notPermitted
      else match node with
        | .directory => .error .isADirectory
        | .file content _ => .ok content

def readText (files : FileTree) (path : Path) (mayOpen : Place → Bool := everywhere) :
    Except Fault String :=
  match files.read path mayOpen with
  | .error fault => .error fault
  | .ok content =>
      match Text.decode? content with
      | some text => .ok text
      | none => .error .notText

def plainMode : Nat := 0o644

/-- Writes a file. One that is there keeps its mode. -/
def write (files : FileTree) (path : Path) (content : List UInt8) : Except Fault FileTree :=
  match files.locate path with
  | .error fault => .error fault
  | .ok place =>
      match files.node? place with
      | some .directory => .error .isADirectory
      | some (.file _ mode) => .ok (files.put place (.file content mode))
      | none => .ok (files.put place (.file content plainMode))

/-- Sets the mode of a file. Directories have none here. -/
def setMode (files : FileTree) (path : Path) (mode : Nat) : Except Fault FileTree :=
  match files.find path with
  | .error fault => .error fault
  | .ok (_, .directory) => .ok files
  | .ok (place, .file content _) => .ok (files.put place (.file content mode))

def removeFile (files : FileTree) (path : Path) : Except Fault FileTree :=
  match files.locateEntry path with
  | .error fault => .error fault
  | .ok place =>
      match files.held? place with
      | none => .error .notFound
      | some entry => if entry.isDirectory then .error .isADirectory else .ok (files.erase place)

/-- Gives a new path to a file, to a link or to a directory with all that is in it. A directory takes
the place of an empty directory only, and anything else that of a file or a link. -/
def rename (files : FileTree) (source target : Path) : Except Fault FileTree :=
  match files.locateEntry source, files.locateEntry target with
  | .error fault, _ => .error fault
  | _, .error fault => .error fault
  | .ok start, .ok goal =>
      match files.held? start, files.held? goal with
      | none, _ => .error .notFound
      | some _, none => .ok (files.move start goal)
      | some entry, some replaced =>
          if !entry.isDirectory && replaced.isDirectory then .error .isADirectory
          else if entry.isDirectory && !replaced.isDirectory then .error .notADirectory
          else if entry.isDirectory && !(files.names goal).isEmpty then .error .notEmpty
          else .ok (files.move start goal)

def withoutSlashes (path : Path) : Path :=
  ⟨(path.pieces.reverse.dropWhile (· == "")).reverse⟩

def endsWithDots (path : Path) : Bool :=
  path.pieces.getLast? == some "." || path.pieces.getLast? == some ".."

def makeDirectory (files : FileTree) (path : Path) : Except Fault FileTree :=
  let goal := withoutSlashes path
  match pathFault? path, files.locateEntry goal with
  | some fault, _ => .error fault
  | none, .error fault => .error fault
  | none, .ok place =>
      if endsWithDots goal || (files.held? place).isSome then .error .alreadyThere
      else .ok (files.put place .directory)

def ensureDirectory (files : FileTree) (path : Path) : Except Fault FileTree :=
  match files.makeDirectory path with
  | .ok made => .ok made
  | .error fault => if files.holdsDirectory path then .ok files else .error fault

/-- Makes the first of several directories, each of which is in the next one. Where the directory
that it is in is missing, that one is made first. -/
def makeWithin (files : FileTree) : List Path → Except Fault FileTree
  | [] => .error .notFound
  | path :: above =>
      match files.ensureDirectory path with
      | .error .notFound =>
          match files.makeWithin above with
          | .ok made => made.ensureDirectory path
          | .error fault => .error fault
      | result => result

def makeDirectories (files : FileTree) (path : Path) : Except Fault FileTree :=
  files.makeWithin (path :: path.parents)

end FileTree

end CommitCheck
