import CommitCheck.Toml.Value

set_option autoImplicit false

/-! Building tables. A header declares a table, or adds one to a list of tables, and may pass
through tables of any kind except inline ones; in a list of tables it goes on with the last. A
dotted key may only pass through tables that no header declared, and may only add to a table that
dotted keys made. A key or a table is never given twice. Each operation answers nothing when it is
not allowed. -/

namespace CommitCheck.Toml.Entries

def changeLast? (change : Entries → Option Entries) : List Entries → Option (List Entries)
  | [] => none
  | [last] => (change last).map ([·])
  | first :: others => (changeLast? change others).map (first :: ·)

/-- Changes the table at a path of header keys. Tables that are not there are made on the way. -/
def changeAt? (change : Entries → Option Entries) : List String → Entries → Option Entries
  | [], entries => change entries
  | key :: path, entries =>
      match entries.lookup key with
      | none => (changeAt? change path []).map fun inner => entries.add key (.table .implied inner)
      | some (.table .inline _) => none
      | some (.table kind inner) =>
          (changeAt? change path inner).map fun inner => entries.set key (.table kind inner)
      | some (.tables elements) =>
          (changeLast? (changeAt? change path) elements).map fun elements =>
            entries.set key (.tables elements)
      | some _ => none

/-- Declares the table of a header. A table that is there so far as a parent only becomes declared.
-/
def declareTable? (key : String) (entries : Entries) : Option Entries :=
  match entries.lookup key with
  | none => some (entries.add key (.table .header []))
  | some (.table .implied inner) => some (entries.set key (.table .header inner))
  | some _ => none

/-- Adds a table to a list of tables, or begins the list. -/
def declareElement? (key : String) (entries : Entries) : Option Entries :=
  match entries.lookup key with
  | none => some (entries.add key (.tables [[]]))
  | some (.tables elements) => some (entries.set key (.tables (elements ++ [[]])))
  | some _ => none

/-- Gives a key a value. The keys before the last one are the path of a dotted key. -/
def assign? (value : Value) : List String → Entries → Option Entries
  | [], _ => none
  | [key], entries =>
      match entries.lookup key with
      | none => some (entries.add key value)
      | some _ => none
  | key :: next :: path, entries =>
      match entries.lookup key with
      | none =>
          (assign? value (next :: path) []).map fun inner => entries.add key (.table .dotted inner)
      | some (.table .dotted inner) =>
          (assign? value (next :: path) inner).map fun inner =>
            entries.set key (.table .dotted inner)
      | some (.table .implied inner) =>
          if path.isEmpty then
            none
          else
            (assign? value (next :: path) inner).map fun inner =>
              entries.set key (.table .implied inner)
      | some (.tables elements) =>
          if path.isEmpty then
            none
          else
            (changeLast? (assign? value (next :: path)) elements).map fun elements =>
              entries.set key (.tables elements)
      | some _ => none

def ofAssignments? (assignments : List (List String × Value)) : Option Entries :=
  assignments.foldlM (fun entries assignment => assign? assignment.2 assignment.1 entries) []

end CommitCheck.Toml.Entries
