import CommitCheck.Source

set_option autoImplicit false

/-! A source that is written by hand: messages by hash, names for hashes, and ranges. What is
registered last under a key is what the key stands for. -/

namespace CommitCheck

/-- Commits, names and ranges, the latest registration first. -/
structure MemorySource where
  messages : List (String × String) := []
  names : List (String × String) := []
  ranges : List (String × List String) := []
deriving DecidableEq, Repr

namespace MemorySource

def withCommit (memory : MemorySource) (sha message : String) : MemorySource :=
  { memory with messages := (sha, message) :: memory.messages }

def withName (memory : MemorySource) (name sha : String) : MemorySource :=
  { memory with names := (name, sha) :: memory.names }

def withRange (memory : MemorySource) (range : String) (shas : List String) : MemorySource :=
  { memory with ranges := (range, shas) :: memory.ranges }

/-- The hash that a reference stands for: that of its name, or the reference itself. -/
def sha (memory : MemorySource) (reference : String) : String :=
  (memory.names.lookup reference).getD reference

def commit (memory : MemorySource) (reference : String) : Except Error Commit :=
  match memory.messages.lookup (memory.sha reference) with
  | some message => .ok ⟨memory.sha reference, message⟩
  | none => .error (.history (.invalidReference reference))

def shas (memory : MemorySource) (range : String) : Except Error (List String) :=
  match memory.ranges.lookup range with
  | some shas => .ok shas
  | none => .error (.history (.invalidRange range))

def source (memory : MemorySource) : Source where
  commit := memory.commit
  shas := memory.shas

end MemorySource

end CommitCheck
