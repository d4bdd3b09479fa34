import CommitCheck.Text.Search
import CommitCheck.Version

set_option autoImplicit false

/-! Hook scripts. A hook is a script that the version control system runs at a certain moment; here
is which hooks there are, the script of each, and the marker by which such a script is recognised
again. -/

namespace CommitCheck

inductive Hook where
  | commitMessage
deriving DecidableEq, Repr

namespace Hook

def all : List Hook :=
  [commitMessage]

def fileName : Hook → String
  | commitMessage => "commit-msg"

/-- The hook with the given name; a dash may be written as an underscore. -/
def ofName? (name : String) : Option Hook :=
  if name = "commit-msg" ∨ name = "commit_msg" then some commitMessage else none

def marker : String := "# cmc Git Hook"

def arguments (file : String) (block : Bool) : List String :=
  "hook" :: file :: if block then ["--block"] else []

def consequence (block : Bool) : String :=
  if block then "# Invalid messages abort the commit."
  else "# Invalid messages are reported but the commit still goes through."

/-- The lines of a script. The last one hands over to the program, with the file that the version
control system names as its first argument. -/
def scriptLines (block : Bool) : Hook → List String
  | commitMessage =>
      ["#!/bin/sh",
        marker,
        "# Generated by cmc v" ++ Version.number,
        "#",
        "# Validates the commit message in \"$1\".",
        consequence block,
        " ".intercalate ("exec" :: "cmc" :: arguments "\"$1\"" block)]

def script (hook : Hook) (block : Bool) : String :=
  String.join ((hook.scriptLines block).map (· ++ "\n"))

def isOwn (script : String) : Bool :=
  Text.occursIn marker.toList script.toList

end Hook

end CommitCheck
