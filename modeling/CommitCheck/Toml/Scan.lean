set_option autoImplicit false

/-! The characters that separate the parts of a TOML document: blanks, line ends and comments. A
line ends with a line feed, before which a carriage return may stand; a carriage return elsewhere is
an error. -/

namespace CommitCheck.Toml

def isSpace (c : Char) : Bool :=
  c = ' ' || c = '\t'

/-- A character that a comment, a string or a multi-line string may hold as it is: a tab, or any
character that is not a control character. -/
def isPlain (c : Char) : Bool :=
  c = '\t' || (0x20 ≤ c.toNat && c.toNat ≠ 0x7F)

def skipSpaces (cs : List Char) : List Char :=
  cs.dropWhile isSpace

def readLineBreak? : List Char → Option (List Char)
  | '\n' :: rest => some rest
  | '\r' :: '\n' :: rest => some rest
  | _ => none

def skipComment : List Char → List Char
  | '#' :: rest => rest.dropWhile isPlain
  | cs => cs

/-- Reads what may stand after the last value of a line: blanks, a comment, and the end of the line
or of the document. -/
def readLineEnd? (cs : List Char) : Option (List Char) :=
  match skipComment (skipSpaces cs) with
  | [] => some []
  | rest => readLineBreak? rest

/-- Skips what may stand between the items of a list: blanks, line ends, and comments, each of which
has to end with its line. -/
def skipFiller? (inComment : Bool) : List Char → Option (List Char)
  | [] => if inComment then none else some []
  | c :: rest =>
      if c = '\n' then
        skipFiller? false rest
      else if c = '\r' && rest.head? == some '\n' then
        skipFiller? inComment rest
      else if inComment then
        if isPlain c then skipFiller? true rest else none
      else if isSpace c then
        skipFiller? false rest
      else if c = '#' then
        skipFiller? true rest
      else
        some (c :: rest)

end CommitCheck.Toml
