import CommitCheck.Text.Search

set_option autoImplicit false

/-! Names of references: which texts are such names, and where a short name is looked for. -/

namespace CommitCheck.Revision

def reserved : List Char :=
  ['~', '^', ':', '\\', '?', '[', '*']

def isPart (part : List Char) : Bool :=
  !part.isEmpty && part.head? != some '.' &&
    part.all (fun c => ' ' < c && !reserved.contains c) &&
    !Text.occursIn ['.', '.'] part && !Text.occursIn ['@', '\x7b'] part &&
    !".lock".toList.isSuffixOf part

/-- A text like those that name the special references: capital letters, with underscores inside. -/
def isSpecial (part : List Char) : Bool :=
  part.all (fun c => c.isUpper || c == '_') && part.head? != some '_' &&
    part.getLast? != some '_'

def partsFrom (part : List Char) : List Char → List (List Char)
  | [] => [part]
  | c :: cs => if c = '/' then part :: partsFrom [] cs else partsFrom (part ++ [c]) cs

/-- The name of a reference: special if it has one part, and not starting like a special one
otherwise. -/
def isName (name : List Char) : Bool :=
  let parts := partsFrom [] name
  parts.all isPart && name.getLast? != some '.' &&
    match parts with
    | [part] => isSpecial part
    | part :: _ => !isSpecial part
    | [] => false

def candidates (name : String) : List String :=
  [name, "refs/" ++ name, "refs/tags/" ++ name, "refs/heads/" ++ name, "refs/remotes/" ++ name,
    "refs/remotes/" ++ name ++ "/HEAD"]

def isShortName (name : String) : Bool :=
  isName ("refs/remotes/" ++ name ++ "/HEAD").toList

end CommitCheck.Revision
