set_option autoImplicit false

/-! JSON values and their indented text: two spaces for each level, a line for each item, and empty
lists and objects closed on the spot. -/

namespace CommitCheck

inductive Json where
  | null
  | bool (value : Bool)
  | string (value : String)
  | array (items : List Json)
  | object (members : List (String × Json))

namespace Json

def hexDigit (n : Nat) : Char :=
  if n < 10 then Char.ofNat ('0'.toNat + n) else Char.ofNat ('a'.toNat + (n - 10))

/-- A character inside a quoted text. Quotes, backslashes and control characters are escaped. -/
def escapeChar (c : Char) : List Char :=
  if c = '"' then ['\\', '"']
  else if c = '\\' then ['\\', '\\']
  else if c = '\n' then ['\\', 'n']
  else if c = '\r' then ['\\', 'r']
  else if c = '\t' then ['\\', 't']
  else if c.toNat = 0x08 then ['\\', 'b']
  else if c.toNat = 0x0C then ['\\', 'f']
  else if c.toNat < 0x20 then
    ['\\', 'u', '0', '0', hexDigit (c.toNat / 16), hexDigit (c.toNat % 16)]
  else [c]

def quote (text : String) : List Char :=
  '"' :: text.toList.flatMap escapeChar ++ ['"']

def newLine (level : Nat) : List Char :=
  '\n' :: List.replicate (2 * level) ' '

mutual

def renderAt (level : Nat) : Json → List Char
  | null => "null".toList
  | bool true => "true".toList
  | bool false => "false".toList
  | string value => quote value
  | array [] => "[]".toList
  | array (item :: items) =>
      '[' :: newLine (level + 1) ++ renderAt (level + 1) item ++ renderItems (level + 1) items ++
        newLine level ++ [']']
  | object [] => ['\x7b', '\x7d']
  | object ((key, value) :: members) =>
      '\x7b' :: newLine (level + 1) ++ quote key ++ [':', ' '] ++ renderAt (level + 1) value ++
        renderMembers (level + 1) members ++ newLine level ++ ['\x7d']

def renderItems (level : Nat) : List Json → List Char
  | [] => []
  | item :: items => ',' :: newLine level ++ renderAt level item ++ renderItems level items

def renderMembers (level : Nat) : List (String × Json) → List Char
  | [] => []
  | (key, value) :: members =>
      ',' :: newLine level ++ quote key ++ [':', ' '] ++ renderAt level value ++
        renderMembers level members

end

def render (value : Json) : String :=
  String.ofList (renderAt 0 value)

end Json

end CommitCheck
