import CommitCheck.Source
import CommitCheck.Source.Log.Selection
import CommitCheck.Text.Lines

set_option autoImplicit false

/-! The source that asks `git log`. The argument of the command selects commits: it is a range, an
exclusion, a revision, or else a path. What the command prints is read back: the hash of a commit up
to the end of the first line and its message after it, or one hash in each line. -/

namespace CommitCheck.Log

/-- The commits that the command logs, newest first, unless it fails. No argument can hold a zero
character. -/
def logged? (host : Host) (argument : String) : Option (Repository × List Nat) := do
  if argument.contains '\x00' then none
  else
    let setting ← Setting.find? host
    let selection ← selection? setting argument.toList
    return (setting.repository, selected setting.repository.history selection)

def lineFeed : List UInt8 := [0x0A]

/-- What is printed of a commit: its hash, a line feed and its message as it is stored. -/
def entry (history : History) (commit : Nat) : List UInt8 :=
  Text.encode (history.sha commit) ++ lineFeed ++ history.message commit

def newestOutput? (host : Host) (argument : String) : Option (List UInt8) :=
  (logged? host argument).map fun (repository, commits) =>
    (commits.head?.map (entry repository.history)).getD []

def hashesOutput? (host : Host) (argument : String) : Option (List UInt8) :=
  (logged? host argument).map fun (repository, commits) =>
    lineFeed.intercalate (commits.map fun commit => Text.encode (repository.history.sha commit))

/-- The hash and message in the output for one commit. Output without a line feed has no message. -/
def readCommit (output : List UInt8) : Commit :=
  let text := Text.decodeLenient output
  match Text.splitOnce? ['\n'] text.toList with
  | some (sha, message) => ⟨String.ofList sha, String.ofList message⟩
  | none => ⟨text, ""⟩

def readHashes (output : List UInt8) : List String :=
  ((Text.splitLines (Text.decodeLenient output).toList).filter fun line => !line.isEmpty).map
    String.ofList

/-- Refuses what the command would not take for a revision: nothing at all, or an option. -/
def checkRevision (revision : String) : Except Error Unit :=
  if revision = "" || revision.toList.head? == some '-' then
    .error (.history (.invalidReference revision))
  else
    .ok ()

/-- The output of a command, or the report of its failure. What it says about the failure is not
kept. -/
def ran (command : String) (output? : Option (List UInt8)) : Except Error (List UInt8) :=
  match output? with
  | some output => .ok output
  | none => .error (.history (.commandFailed command ""))

def source (host : Host) : Source where
  commit reference := do
    checkRevision reference
    let output ← ran ("git log -1 --pretty=format:%H%n%B " ++ reference)
      (newestOutput? host reference)
    .ok (readCommit output)
  shas range := do
    checkRevision range
    let output ← ran ("git log --pretty=format:%H " ++ range) (hashesOutput? host range)
    .ok (readHashes output)

end CommitCheck.Log
