import CommitCheck.Repository
import CommitCheck.Revision.Object
import CommitCheck.Source.Log.Pathspec

set_option autoImplicit false

/-! The setting of the command: the repository that it finds from the current directory, and the
directory with the files of the repository, if the current directory is among them. The command is
stricter than `Repository.discover` about what a link and a repository look like. -/

namespace CommitCheck.Log

structure Setting where
  host : Host
  repository : Repository
  /-- The directory that has the repository, unless that one is the repository. -/
  workTree? : Option Place

def isHead (content : List UInt8) : Bool :=
  let text := (Text.decodeLenient content).toList
  match "ref:".toList.isPrefixOf? text with
  | some target => "refs/".toList.isPrefixOf (target.dropWhile Text.isSpace)
  | none => Revision.isHash (text.take Revision.hashLength)

def withoutLineEnds (content : List UInt8) : List Char :=
  ((Text.decodeLenient content).toList.reverse.dropWhile fun c => c == '\n' || c == '\r').reverse

/-- The directory that a directory shares. Nothing can be made of a file `commondir` that is empty
or leads to no directory that could have something in it. -/
def sharedPlace? (host : Host) (directory : Place) : Option Place :=
  let link := Repository.entryPath directory "commondir"
  if host.files.holds link then
    match host.files.read link with
    | .error _ | .ok [] => none
    | .ok content =>
        let path := Repository.spelledPath (withoutLineEnds content)
        (host.files.locate ((Path.ofNames directory).join path)).toOption
  else
    some directory

/-- The repository that a directory keeps, unless nothing can be made of the directory. -/
def kept? (host : Host) (directory : Place) : Option (Option Repository) :=
  match host.files.read (Repository.entryPath directory "HEAD") with
  | .error _ => some none
  | .ok content => do
      if isHead content then
        let shared ← sharedPlace? host directory
        if host.files.holdsDirectory (Repository.entryPath shared "objects") &&
            host.files.holdsDirectory (Repository.entryPath shared "refs") then
          return some (Repository.ofPlaces host directory shared)
      return none

def linked? (host : Host) (directory : Place) (content : List UInt8) : Option Repository := do
  let c :: cs ← "gitdir: ".toList.isPrefixOf? (withoutLineEnds content) | none
  let path := (Path.ofNames directory).join (Repository.spelledPath (c :: cs))
  let (place, _) ← (host.files.find path).toOption
  (← kept? host place)

def setting? (host : Host) (directory : Place) : Option (Option Setting) := do
  let own : Option (Option Setting) := do
    return (← kept? host directory).map fun repository => ⟨host, repository, none⟩
  match host.files.find (Repository.entryPath directory ".git") with
  | .ok (_, .file content _) =>
      return some ⟨host, ← linked? host directory content, some directory⟩
  | .ok (inside, .directory) =>
      match ← kept? host inside with
      | some repository => return some ⟨host, repository, some directory⟩
      | none => own
  | .error _ => own

def firstSetting? (host : Host) : List Place → Option Setting
  | [] => none
  | directory :: others => do
      match ← setting? host directory with
      | some setting => some setting
      | none => firstSetting? host others

def Setting.find? (host : Host) : Option Setting :=
  match host.files.find host.currentPath with
  | .ok (place, .directory) => firstSetting? host (Repository.enclosing place)
  | _ => none

namespace Setting

/-- The directory with the files, if the current directory is one of them and none of history. -/
def files? (setting : Setting) : Option Place :=
  setting.workTree?.filter fun _ =>
    !setting.repository.directory.isPrefixOf setting.host.directory

/-- The names at the end of a path that starts after some names, unless it goes back too far. -/
def namesAfter? : List String → List String → Option (List String)
  | names, [] => some names
  | names, piece :: pieces =>
      if Path.isIdle piece then namesAfter? names pieces
      else if piece = ".." then
        if names.isEmpty then none else namesAfter? names.dropLast pieces
      else namesAfter? (names ++ [piece]) pieces

/-- A path that stays among the files of the repository, or below the current directory if that is
not one of files. -/
def staysInside (setting : Setting) (path : Path) : Bool :=
  if path.isAbsolute then
    match setting.files? with
    | some top => (namesAfter? [] path.pieces).any top.isPrefixOf
    | none => false
  else
    let below := match setting.files? with
      | some top => setting.host.directory.drop top.length
      | none => []
    (namesAfter? below path.pieces).isSome

def topHolds (setting : Setting) (path : Path) : Bool :=
  setting.host.files.holds ((Path.ofNames (setting.files?.getD setting.host.directory)).join path)

/-- There is something where a text leads: behind a colon and a slash from where the files are, and
without a mark that excludes it. -/
def holdsText (setting : Setting) (text : List Char) : Bool :=
  let path := Path.ofText ∘ String.ofList
  match text with
  | [':', '/'] | [':', '!'] | [':', '^'] => true
  | ':' :: '/' :: cs => setting.topHolds (path cs)
  | ':' :: '!' :: cs => setting.host.holds (path cs)
  | ':' :: '^' :: cs => setting.host.holds (path cs)
  | cs => setting.host.holds (path cs)

def selectsPaths (setting : Setting) (text : List Char) : Bool :=
  (Pathspec.isPattern text || setting.holdsText text) &&
    (Pathspec.ofText? text).any fun spec => spec.fromTop || setting.staysInside spec.path

def isNoFile (setting : Setting) (text : List Char) : Bool :=
  setting.files?.isNone ||
    match setting.host.files.find (setting.host.absolute (Path.ofText (String.ofList text))) with
    | .error .notFound | .error .notADirectory => true
    | _ => false

end Setting

end CommitCheck.Log
