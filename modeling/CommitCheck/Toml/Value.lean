set_option autoImplicit false

/-! The values of a TOML document. Tables and lists remember how they were written, because that
decides whether later lines may still add to them. -/

namespace CommitCheck.Toml

/-- A floating-point number as it is written: a decimal, or one of the special numbers with its
sign. -/
inductive Float where
  /-- The number `mantissa * 10 ^ exponent`, negated if `negative` holds. -/
  | decimal (negative : Bool) (mantissa : Nat) (exponent : Int)
  | infinite (negative : Bool)
  | notANumber (negative : Bool)
deriving DecidableEq, Repr

structure Date where
  year : Nat
  month : Nat
  day : Nat
deriving DecidableEq, Repr

structure Time where
  hour : Nat
  minute : Nat
  second : Nat
  fraction : List Char := []
deriving DecidableEq, Repr

/-- A moment: a day, a time of day, or both, in which case it may say how many minutes its clock is
ahead of universal time. -/
inductive Moment where
  | date (date : Date)
  | time (time : Time)
  | dateTime (date : Date) (time : Time) (offset : Option Int)
deriving DecidableEq, Repr

inductive TableKind where
  /-- Written in braces; nothing can be added to it. -/
  | inline
  | header
  /-- The parent of a declared table, not declared itself. -/
  | implied
  /-- Made by a dotted key; more dotted keys can add to it. -/
  | dotted
deriving DecidableEq, Repr

inductive Value where
  | string (text : String)
  | integer (number : Int)
  | float (number : Float)
  | boolean (value : Bool)
  | moment (moment : Moment)
  | array (items : List Value)
  /-- A list of tables, each declared by a header in double brackets. -/
  | tables (elements : List (List (String × Value)))
  | table (kind : TableKind) (entries : List (String × Value))

abbrev Entries := List (String × Value)

def Entries.set (entries : Entries) (key : String) (value : Value) : Entries :=
  entries.map fun entry => if entry.1 == key then (key, value) else entry

def Entries.add (entries : Entries) (key : String) (value : Value) : Entries :=
  entries ++ [(key, value)]

end CommitCheck.Toml
