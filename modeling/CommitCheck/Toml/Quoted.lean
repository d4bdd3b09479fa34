import CommitCheck.Toml.Scan

set_option autoImplicit false

/-! Strings. A basic string has escapes, a literal string has none; each comes in a form for one
line and in a form for several, in which line ends are read as line feeds and up to two quotes may
stand before the closing three. Each reader starts after the opening quotes. -/

namespace CommitCheck.Toml

def shortEscape? : Char → Option Char
  | 'b' => some '\x08'
  | 't' => some '\t'
  | 'n' => some '\n'
  | 'f' => some '\x0c'
  | 'r' => some '\r'
  | '"' => some '"'
  | '\\' => some '\\'
  | _ => none

def hexValue? (c : Char) : Option Nat :=
  if c.isDigit then some (c.toNat - '0'.toNat)
  else if 'a' ≤ c && c ≤ 'f' then some (c.toNat - 'a'.toNat + 10)
  else if 'A' ≤ c && c ≤ 'F' then some (c.toNat - 'A'.toNat + 10)
  else none

def hexNumber? (number : Nat) : List Char → Option Nat
  | [] => some number
  | c :: cs => (hexValue? c).bind fun digit => hexNumber? (16 * number + digit) cs

/-- The character with a number, if there is one: surrogates and numbers past the last plane are not
characters. -/
def charOfNumber? (number : Nat) : Option Char :=
  if number.isValidChar then some (Char.ofNat number) else none

def hexEscape? (digits : List Char) : Option Char :=
  (hexNumber? 0 digits).bind charOfNumber?

def basicString? : List Char → Option (List Char × List Char)
  | [] => none
  | '"' :: rest => some ([], rest)
  | '\\' :: 'u' :: a :: b :: c :: d :: rest =>
      (hexEscape? [a, b, c, d]).bind fun char =>
        (basicString? rest).map fun read => (char :: read.1, read.2)
  | '\\' :: 'U' :: a :: b :: c :: d :: e :: f :: g :: h :: rest =>
      (hexEscape? [a, b, c, d, e, f, g, h]).bind fun char =>
        (basicString? rest).map fun read => (char :: read.1, read.2)
  | '\\' :: letter :: rest =>
      (shortEscape? letter).bind fun char =>
        (basicString? rest).map fun read => (char :: read.1, read.2)
  | c :: rest =>
      if isPlain c && c ≠ '\\' then
        (basicString? rest).map fun read => (c :: read.1, read.2)
      else
        none

def literalString? (cs : List Char) : Option (List Char × List Char) :=
  match cs.dropWhile fun c => isPlain c && c ≠ '\'' with
  | '\'' :: rest => some (cs.takeWhile fun c => isPlain c && c ≠ '\'', rest)
  | _ => none

/-- Whether a backslash before this text ends its line: nothing but blanks come before the line end.
-/
def endsLine (cs : List Char) : Bool :=
  (readLineBreak? (skipSpaces cs)).isSome

/-- The content of a basic string on several lines, and what follows its closing quotes. While
`skipping` holds, the reader is behind a backslash that ends a line, and blanks and line ends are
dropped. -/
def longBasicString? (skipping : Bool) : List Char → Option (List Char × List Char)
  | [] => none
  | '"' :: '"' :: '"' :: '"' :: '"' :: rest => some (['"', '"'], rest)
  | '"' :: '"' :: '"' :: '"' :: rest => some (['"'], rest)
  | '"' :: '"' :: '"' :: rest => some ([], rest)
  | '\\' :: 'u' :: a :: b :: c :: d :: rest =>
      (hexEscape? [a, b, c, d]).bind fun char =>
        (longBasicString? false rest).map fun read => (char :: read.1, read.2)
  | '\\' :: 'U' :: a :: b :: c :: d :: e :: f :: g :: h :: rest =>
      (hexEscape? [a, b, c, d, e, f, g, h]).bind fun char =>
        (longBasicString? false rest).map fun read => (char :: read.1, read.2)
  | '\\' :: letter :: rest =>
      match shortEscape? letter with
      | some char => (longBasicString? false rest).map fun read => (char :: read.1, read.2)
      | none => if endsLine (letter :: rest) then longBasicString? true (letter :: rest) else none
  | '\r' :: '\n' :: rest =>
      if skipping then longBasicString? true rest
      else (longBasicString? false rest).map fun read => ('\n' :: read.1, read.2)
  | c :: rest =>
      if skipping && (isSpace c || c = '\n') then
        longBasicString? true rest
      else if c = '\n' || (isPlain c && c ≠ '\\') then
        (longBasicString? false rest).map fun read => (c :: read.1, read.2)
      else
        none

def longLiteralString? : List Char → Option (List Char × List Char)
  | [] => none
  | '\'' :: '\'' :: '\'' :: '\'' :: '\'' :: rest => some (['\'', '\''], rest)
  | '\'' :: '\'' :: '\'' :: '\'' :: rest => some (['\''], rest)
  | '\'' :: '\'' :: '\'' :: rest => some ([], rest)
  | '\r' :: '\n' :: rest =>
      (longLiteralString? rest).map fun read => ('\n' :: read.1, read.2)
  | c :: rest =>
      if c = '\n' || isPlain c then
        (longLiteralString? rest).map fun read => (c :: read.1, read.2)
      else
        none

/-- A line end right after the opening quotes of a string of several lines is not part of it. -/
def skipFirstBreak (cs : List Char) : List Char :=
  (readLineBreak? cs).getD cs

def readString? : List Char → Option (List Char × List Char)
  | '"' :: '"' :: '"' :: rest => longBasicString? false (skipFirstBreak rest)
  | '"' :: rest => basicString? rest
  | '\'' :: '\'' :: '\'' :: rest => longLiteralString? (skipFirstBreak rest)
  | '\'' :: rest => literalString? rest
  | _ => none

def isBareChar (c : Char) : Bool :=
  c.isAlphanum || c = '_' || c = '-'

def readKey? (cs : List Char) : Option (List Char × List Char) :=
  match cs with
  | '"' :: rest => basicString? rest
  | '\'' :: rest => literalString? rest
  | _ =>
      if (cs.takeWhile isBareChar).isEmpty then none
      else some (cs.takeWhile isBareChar, cs.dropWhile isBareChar)

end CommitCheck.Toml
