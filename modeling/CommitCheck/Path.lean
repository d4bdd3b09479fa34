set_option autoImplicit false

/-! Paths as they are written: the pieces between the slashes, in order. Nothing is resolved here,
so a path keeps its empty pieces, its dots and its double dots, and is written out as it was read.
-/

namespace CommitCheck

/-- The pieces of a path; an absolute path has an empty first piece and at least one more. -/
structure Path where
  pieces : List String
deriving DecidableEq, Repr

namespace Path

/-- The pieces of a text, `piece` being what has been read of the piece in progress. -/
def split (piece : List Char) : List Char → List String
  | [] => [String.ofList piece]
  | c :: cs =>
      if c = '/' then String.ofList piece :: split [] cs else split (piece ++ [c]) cs

def ofText (text : String) : Path :=
  ⟨split [] text.toList⟩

def text (path : Path) : String :=
  "/".intercalate path.pieces

def ofNames (names : List String) : Path :=
  if names.isEmpty then ⟨["", ""]⟩ else ⟨"" :: names⟩

def isAbsolute (path : Path) : Bool :=
  match path.pieces with
  | "" :: _ :: _ => true
  | _ => false

/-- The pieces to which others can be added: an empty last piece gives way. -/
def stem (path : Path) : List String :=
  if path.pieces.getLast? = some "" then path.pieces.dropLast else path.pieces

def join (directory path : Path) : Path :=
  if path.isAbsolute then path else ⟨directory.stem ++ path.pieces⟩

def child (directory : Path) (name : String) : Path :=
  ⟨directory.stem ++ [name]⟩

def isIdle (piece : String) : Bool :=
  piece == "" || piece == "."

/-- What is left of the pieces of an absolute path, last piece first, after its last proper piece,
after the last but one, and so on. -/
def remainders : List String → List (List String)
  | [] => []
  | piece :: pieces =>
      if isIdle piece then remainders pieces
      else pieces.dropWhile isIdle :: remainders pieces

/-- The paths that come out of an absolute path when its last proper piece is taken off time and
again, the root being the last of them. -/
def parents (path : Path) : List Path :=
  (remainders path.pieces.reverse).map fun pieces => ofNames (pieces.reverse.dropWhile (· == ""))

end Path

end CommitCheck
