import CommitCheck.Build
import CommitCheck.FileTree
import CommitCheck.History

set_option autoImplicit false

/-! The host of a run: the files, the directory it starts in, its surroundings, what can be read
from the standard input, and the stores of objects. -/

namespace CommitCheck

/-- What a run learns about its user, its terminal and the reader of TOML from around it. -/
structure Surroundings where
  environment : Environment := fun _ => none
  accountHome? : Option String := none
  /-- The directories that the user may search, and the files that the user may read. -/
  mayOpen : Place → Bool := FileTree.everywhere
  colors : Bool := false
  /-- The words for what is wrong with a text that is no document. -/
  diagnosis : String → String := fun _ => ""

instance : Coe Environment Surroundings := ⟨fun environment => { environment }⟩

structure Host where
  files : FileTree := {}
  directory : Place := []
  surroundings : Surroundings := {}
  input : List UInt8 := []
  /-- The directories that store objects, and the histories that are stored in them. -/
  stores : List (Place × History) := []

namespace Host

def environment (host : Host) : Environment :=
  host.surroundings.environment

def currentPath (host : Host) : Path :=
  Path.ofNames host.directory

def absolute (host : Host) (path : Path) : Path :=
  host.currentPath.join path

def holds (host : Host) (path : Path) : Bool :=
  host.files.holds (host.absolute path) host.surroundings.mayOpen

def readText (host : Host) (path : Path) : Except Fault String :=
  host.files.readText (host.absolute path) host.surroundings.mayOpen

end Host

end CommitCheck
