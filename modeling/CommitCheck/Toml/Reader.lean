import CommitCheck.Toml.Moment
import CommitCheck.Toml.Table

set_option autoImplicit false

/-! Reading values and lines. A value nests lists and inline tables, and a dotted key has parts, up
to a limit each. -/

namespace CommitCheck.Toml

/-- How deep values may nest, and how many parts a dotted key may have. -/
def nestingLimit : Nat := 79

/-- Reads a dotted key of at most `parts` parts. Blanks may stand around each part. -/
def readPath? : Nat → List Char → Option (List String × List Char)
  | 0, _ => none
  | parts + 1, cs =>
      match readKey? (skipSpaces cs) with
      | none => none
      | some (key, rest) =>
          match skipSpaces rest with
          | '.' :: rest =>
              (readPath? parts rest).map fun read => (String.ofList key :: read.1, read.2)
          | rest => some ([String.ofList key], rest)

def isScalarChar (c : Char) : Bool :=
  c.isAlphanum || c = '+' || c = '-' || c = '.' || c = '_' || c = ':'

def scalar? (cs : List Char) : Option Value :=
  if cs = "true".toList then some (.boolean true)
  else if cs = "false".toList then some (.boolean false)
  else ((moment? cs).map Value.moment)
    <|> ((float? cs).map Value.float)
    <|> ((integer? cs).map Value.integer)

/-- Reads a value that is written without quotes and brackets. A date may be followed by a blank and
a time of day. -/
def readScalar? (cs : List Char) : Option (Value × List Char) :=
  match date? (cs.takeWhile isScalarChar), cs.dropWhile isScalarChar with
  | some date, ' ' :: rest =>
      match timeOn? date (rest.takeWhile isScalarChar) with
      | some moment => some (.moment moment, rest.dropWhile isScalarChar)
      | none => some (.moment (.date date), ' ' :: rest)
  | _, rest => (scalar? (cs.takeWhile isScalarChar)).map fun value => (value, rest)

/-- Reads the items of a list up to its closing bracket; `count` bounds their number. A comma may
stand after the last item. -/
def readItems? (readItem? : List Char → Option (Value × List Char)) :
    Nat → List Char → Option (List Value × List Char)
  | 0, _ => none
  | count + 1, cs =>
      match skipFiller? false cs with
      | none => none
      | some (']' :: rest) => some ([], rest)
      | some cs =>
          match readItem? cs with
          | none => none
          | some (item, rest) =>
              match skipFiller? false rest with
              | some (',' :: rest) =>
                  (readItems? readItem? count rest).map fun read => (item :: read.1, read.2)
              | some (']' :: rest) => some ([item], rest)
              | _ => none

def readAssignment? (readItem? : List Char → Option (Value × List Char)) (cs : List Char) :
    Option ((List String × Value) × List Char) :=
  match readPath? nestingLimit cs with
  | some (path, '=' :: rest) =>
      (readItem? (skipSpaces rest)).map fun read => ((path, read.1), read.2)
  | _ => none

/-- Reads the assignments of an inline table that is not empty, up to its closing brace; `count`
bounds their number. They stand on one line, and no comma may stand after the last. -/
def readAssignments? (readItem? : List Char → Option (Value × List Char)) :
    Nat → List Char → Option (List (List String × Value) × List Char)
  | 0, _ => none
  | count + 1, cs =>
      match readAssignment? readItem? cs with
      | none => none
      | some (assignment, rest) =>
          match skipSpaces rest with
          | ',' :: rest =>
              (readAssignments? readItem? count rest).map fun read => (assignment :: read.1, read.2)
          | '\x7d' :: rest => some ([assignment], rest)
          | _ => none

def readInlineTable? (readItem? : List Char → Option (Value × List Char)) (cs : List Char) :
    Option (Value × List Char) :=
  match skipSpaces cs with
  | '\x7d' :: rest => some (.table .inline [], rest)
  | inner =>
      match readAssignments? readItem? inner.length inner with
      | none => none
      | some (assignments, rest) =>
          (Entries.ofAssignments? assignments).map fun entries => (.table .inline entries, rest)

/-- Reads a value in which lists and inline tables nest at most `levels` deep. -/
def readValue? : Nat → List Char → Option (Value × List Char)
  | levels, '[' :: rest =>
      match levels with
      | 0 => none
      | levels + 1 =>
          (readItems? (readValue? levels) (rest.length + 1) rest).map fun read =>
            (.array read.1, read.2)
  | levels, '\x7b' :: rest =>
      match levels with
      | 0 => none
      | levels + 1 => readInlineTable? (readValue? levels) rest
  | _, '"' :: rest =>
      (readString? ('"' :: rest)).map fun read => (.string (String.ofList read.1), read.2)
  | _, '\'' :: rest =>
      (readString? ('\'' :: rest)).map fun read => (.string (String.ofList read.1), read.2)
  | _, cs => readScalar? cs

inductive Line where
  | nothing
  /-- `[path]` -/
  | header (path : List String)
  /-- `[[path]]` -/
  | element (path : List String)
  /-- `path = value` -/
  | assignment (path : List String) (value : Value)

/-- Reads a line up to its end; a line may go on where a list or a string does. -/
def readLine? (cs : List Char) : Option (Line × List Char) :=
  match skipSpaces cs with
  | [] => some (.nothing, [])
  | '\n' :: rest => some (.nothing, rest)
  | '\r' :: rest => (readLineBreak? ('\r' :: rest)).map fun rest => (.nothing, rest)
  | '#' :: rest => (readLineEnd? ('#' :: rest)).map fun rest => (.nothing, rest)
  | '[' :: '[' :: rest =>
      match readPath? nestingLimit rest with
      | some (path, ']' :: ']' :: rest) =>
          (readLineEnd? rest).map fun rest => (.element path, rest)
      | _ => none
  | '[' :: rest =>
      match readPath? nestingLimit rest with
      | some (path, ']' :: rest) => (readLineEnd? rest).map fun rest => (.header path, rest)
      | _ => none
  | cs =>
      match readAssignment? (readValue? nestingLimit) cs with
      | some ((path, value), rest) =>
          (readLineEnd? rest).map fun rest => (.assignment path value, rest)
      | none => none

/-- Reads lines until the text is used up; `count` bounds their number. -/
def readLines? : Nat → List Char → Option (List Line)
  | _, [] => some []
  | 0, _ :: _ => none
  | count + 1, c :: cs =>
      match readLine? (c :: cs) with
      | some (line, rest) => (readLines? count rest).map (line :: ·)
      | none => none

end CommitCheck.Toml
