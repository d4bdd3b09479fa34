import CommitCheck.Text.Blank

set_option autoImplicit false

/-! Words and greedy line filling. Words are the maximal runs of characters that are not blank.
A line takes the next word while the line, a space and the word fit into the width, counted in
bytes of UTF-8; a word that is too long stands on a line of its own. -/

namespace CommitCheck.Text

def byteLength (cs : List Char) : Nat :=
  cs.foldr (fun c bytes => c.utf8Size + bytes) 0

/-- The words of a text, `word` being what has been read of the word in progress. -/
def wordsFrom (word : List Char) : List Char → List (List Char)
  | [] => if word.isEmpty then [] else [word]
  | c :: cs =>
      if isBlank c then
        if word.isEmpty then wordsFrom [] cs else word :: wordsFrom [] cs
      else
        wordsFrom (word ++ [c]) cs

def words (cs : List Char) : List (List Char) :=
  wordsFrom [] cs

/-- The text of a line of words, one space between every two of them. -/
def lineText (line : List (List Char)) : List Char :=
  [' '].intercalate line

/-- Goes on with a line that already holds words: it takes the next word if that fits, and is
closed otherwise. -/
def fillFrom (width : Nat) (line : List (List Char)) : List (List Char) → List (List (List Char))
  | [] => [line]
  | word :: rest =>
      if byteLength (lineText line) + 1 + byteLength word > width then
        line :: fillFrom width [word] rest
      else
        fillFrom width (line ++ [word]) rest

def fill (width : Nat) : List (List Char) → List (List (List Char))
  | [] => []
  | word :: rest => fillFrom width [word] rest

def wrap (width : Nat) (cs : List Char) : List (List Char) :=
  (fill width (words cs)).map lineText

def padRight (width : Nat) (cs : List Char) : List Char :=
  cs ++ List.replicate (width - cs.length) ' '

end CommitCheck.Text
