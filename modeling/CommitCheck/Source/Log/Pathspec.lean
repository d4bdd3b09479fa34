import CommitCheck.Path

set_option autoImplicit false

/-! Texts that select paths. Such a text is a path or a pattern of paths; magic in front of it,
which starts with a colon, says how the rest is to be understood. -/

namespace CommitCheck.Log

structure Pathspec where
  fromTop : Bool
  path : Path

namespace Pathspec

def magicWords : List String :=
  ["", "top", "literal", "glob", "icase", "exclude", "attr"]

def isMagicWord (word : List Char) : Bool :=
  magicWords.contains (String.ofList word) ||
    match "attr:".toList.isPrefixOf? word with
    | some attributes => !attributes.isEmpty
    | none => false

/-- The words of magic up to its closing bracket, and what follows it. A backslash takes the meaning
from the character behind it. `word` is what has been read of the word in progress. -/
def wordsFrom (word : List Char) : List Char → Option (List (List Char) × List Char)
  | [] => none
  | ')' :: cs => some ([word], cs)
  | ',' :: cs => (wordsFrom [] cs).map fun (words, rest) => (word :: words, rest)
  | '\\' :: c :: cs => wordsFrom (word ++ ['\\', c]) cs
  | c :: cs => wordsFrom (word ++ [c]) cs

def unusedMagic : List Char :=
  "\"#%&',-;<=>@_`~".toList

/-- Reads magic that consists of single characters: a slash for the top, and marks that exclude. -/
def ofCharacters? : List Char → Option Pathspec
  | [] => some ⟨false, Path.ofText ""⟩
  | c :: cs =>
      if c = '/' then (ofCharacters? cs).map fun spec => { spec with fromTop := true }
      else if c = '!' || c = '^' then ofCharacters? cs
      else if c = ':' then some ⟨false, Path.ofText (String.ofList cs)⟩
      else if unusedMagic.contains c then none
      else some ⟨false, Path.ofText (String.ofList (c :: cs))⟩

/-- Reads a selection of paths. Its words must be known, and a path cannot be taken both literally
and as a pattern. -/
def ofText? : List Char → Option Pathspec
  | ':' :: '(' :: cs => do
      let (words, rest) ← wordsFrom [] cs
      let has (word : String) := words.contains word.toList
      if words.all isMagicWord && !(has "literal" && has "glob") then
        some ⟨has "top", Path.ofText (String.ofList rest)⟩
      else
        none
  | ':' :: cs => ofCharacters? cs
  | cs => some ⟨false, Path.ofText (String.ofList cs)⟩

/-- A character stands in the text that makes it a pattern, without a backslash in front of it. -/
def hasWildcard : List Char → Bool
  | [] => false
  | '\\' :: _ :: cs => hasWildcard cs
  | c :: cs => c = '*' || c = '?' || c = '[' || hasWildcard cs

def isPattern (text : List Char) : Bool :=
  hasWildcard text || [':', '('].isPrefixOf text

end Pathspec

end CommitCheck.Log
