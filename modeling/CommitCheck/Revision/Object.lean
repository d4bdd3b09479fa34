import CommitCheck.History

set_option autoImplicit false

/-! Objects of a history and their hashes. A revision leads to an object: a commit, a tag with a
text of its own, or the tree that all commits have. -/

namespace CommitCheck.Revision

/-- What a revision can lead to. No commit of a history holds files, so all of them have the same
tree, which is empty. -/
inductive Object where
  | commit (position : Nat)
  | tag (number : Nat)
  | tree
deriving DecidableEq, Repr

/-- The kinds of objects. Nothing is of the kind `blob`, since no commit holds files. -/
inductive Kind where
  | commit
  | tree
  | blob
  | tag
deriving DecidableEq, Repr

def Kind.word : Kind → String
  | commit => "commit"
  | tree => "tree"
  | blob => "blob"
  | tag => "tag"

def Kind.number : Kind → Nat
  | commit => 1
  | tree => 2
  | blob => 3
  | tag => 4

def Kind.all : List Kind :=
  [commit, tree, blob, tag]

def emptyTree : String := "4b825dc642cb6eb9a060e54bf8d69288fbee4904"

def hashLength : Nat := 40

def abbreviationLength : Nat := 4

def isHexDigit (c : Char) : Bool :=
  c.isDigit || ('a' ≤ c && c ≤ 'f') || ('A' ≤ c && c ≤ 'F')

def isHash (cs : List Char) : Bool :=
  cs.length == hashLength && cs.all isHexDigit

/-- A hash as it is stored. Its digits can be written in either case. -/
def hashOfDigits (digits : List Char) : String :=
  String.ofList (digits.map Char.toLower)

def objects (history : History) : List (String × Object) :=
  (history.commits.zipIdx.map fun (commit, position) => (commit.sha, .commit position)) ++
    (history.tags.zipIdx.map fun (tag, number) => (tag.sha, .tag number)) ++
    if history.hasTree then [(emptyTree, .tree)] else []

def object? (history : History) (hash : String) : Option Object :=
  (objects history).lookup hash

def hashesStarting (history : History) (digits : List Char) : List String :=
  ((objects history).map Prod.fst).filter fun hash =>
    (hashOfDigits digits).toList.isPrefixOf hash.toList

namespace Object

def hash (history : History) : Object → String
  | .commit position => history.sha position
  | .tag number => (history.tags[number]?.map StoredTag.sha).getD ""
  | .tree => emptyTree

def kind : Object → Kind
  | .commit _ => .commit
  | .tag _ => .tag
  | .tree => .tree

def untagged (history : History) : Object → Object
  | .tag number =>
      match history.tags[number]? with
      | some stored => .commit stored.commit
      | none => .tag number
  | object => object

def commit? (history : History) (object : Object) : Option Nat :=
  match object.untagged history with
  | .commit position => some position
  | _ => none

/-- The object of a kind that an object leads to: a tag to its commit, and a commit to its tree. -/
def peel? (history : History) (object : Object) (kind : Kind) : Option Object :=
  if object.kind = kind then some object
  else
    match kind with
    | .commit => (object.commit? history).map .commit
    | .tree => some .tree
    | _ => none

end Object

end CommitCheck.Revision
