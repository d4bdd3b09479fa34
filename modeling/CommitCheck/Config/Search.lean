import CommitCheck.Config.Decode
import CommitCheck.Host

set_option autoImplicit false

/-! Looking for the configuration file. Each directory from the starting point up to the root is
searched for three names, then the home directory, and at last the directory where configurations
are kept. The first path with anything at it that the user can get to counts, even if that cannot be
read. -/

namespace CommitCheck.Config

/-- The paths of a configuration file in a directory, in the order in which they are tried. -/
def fileNames : List Path :=
  ["cmc.toml", ".cmc.toml", ".config/cmc.toml"].map Path.ofText

def inDirectory (directory : Path) : List Path :=
  fileNames.map directory.join

/-- The home directory: the one that the variable says, or else the one in the account. -/
def home? (surroundings : Surroundings) : Option Path :=
  ((Build.filled? surroundings.environment "HOME").or surroundings.accountHome?).map Path.ofText

def settings? (surroundings : Surroundings) : Option Path :=
  match ((surroundings.environment "XDG_CONFIG_HOME").map Path.ofText).filter Path.isAbsolute with
  | some directory => some directory
  | none => (home? surroundings).map (·.child ".config")

def candidates (surroundings : Surroundings) (start : Path) : List Path :=
  (start :: start.parents).flatMap inDirectory ++
    (home? surroundings).toList.flatMap inDirectory ++
    (settings? surroundings).toList.map fun directory =>
      (directory.child "cmc").child "config.toml"

def findFrom? (host : Host) (start : Path) : Option Path :=
  (candidates host.surroundings start).find? host.holds

def find? (host : Host) : Option Path :=
  findFrom? host host.currentPath

def loadFrom (host : Host) (path : Path) : Except ConfigError Config :=
  if host.holds path then
    match host.readText path with
    | .ok text => parse text host.surroundings.diagnosis
    | .error fault => .error (.unreadable fault.message)
  else
    .error (.notFound path.text)

/-- Reads the configuration for the current directory. Without a file all values are the defaults.
-/
def load (host : Host) : Except ConfigError Config :=
  match find? host with
  | some path => loadFrom host path
  | none => .ok {}

end CommitCheck.Config
