import CommitCheck.Toml.Reader

set_option autoImplicit false

/-! Documents. A document is a list of lines; an assignment belongs to the table of the last header
before it, and to the document itself when there is none. -/

namespace CommitCheck.Toml

def splitLast? : List String → Option (List String × String)
  | [] => none
  | [key] => some ([], key)
  | key :: path => (splitLast? path).map fun parts => (key :: parts.1, parts.2)

structure Draft where
  entries : Entries := []
  current : List String := []

def Draft.add? (draft : Draft) : Line → Option Draft
  | .nothing => some draft
  | .header path => do
      let (parents, key) ← splitLast? path
      let entries ← draft.entries.changeAt? (Entries.declareTable? key) parents
      some ⟨entries, path⟩
  | .element path => do
      let (parents, key) ← splitLast? path
      let entries ← draft.entries.changeAt? (Entries.declareElement? key) parents
      some ⟨entries, path⟩
  | .assignment path value => do
      let entries ← draft.entries.changeAt? (Entries.assign? value path) draft.current
      some { draft with entries := entries }

def entriesOfLines? (lines : List Line) : Option Entries :=
  (lines.foldlM Draft.add? {}).map Draft.entries

def skipByteOrderMark : List Char → List Char
  | '\ufeff' :: rest => rest
  | cs => cs

def entries? (text : List Char) : Option Entries :=
  (readLines? (text.length + 1) (skipByteOrderMark text)).bind entriesOfLines?

end CommitCheck.Toml
