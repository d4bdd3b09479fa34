set_option autoImplicit false

/-! Blank characters: the characters with the Unicode property White_Space, those of them that are
in ASCII, and trimming by both. Core's `Char.isWhitespace` knows four of them. -/

namespace CommitCheck.Text

/-- The ranges of the Unicode property White_Space, first and last code point of each. -/
def blankRanges : List (Nat × Nat) :=
  [(0x09, 0x0D), (0x20, 0x20), (0x85, 0x85), (0xA0, 0xA0), (0x1680, 0x1680), (0x2000, 0x200A),
    (0x2028, 0x2029), (0x202F, 0x202F), (0x205F, 0x205F), (0x3000, 0x3000)]

def isBlank (c : Char) : Bool :=
  blankRanges.any fun range => range.1 ≤ c.toNat && c.toNat ≤ range.2

def trimEnd (cs : List Char) : List Char :=
  (cs.reverse.dropWhile isBlank).reverse

def isSpace (c : Char) : Bool :=
  c == ' ' || ('\t' ≤ c && c ≤ '\r')

def trimSpaceEnd (cs : List Char) : List Char :=
  (cs.reverse.dropWhile isSpace).reverse

/-- A text that is blank throughout; the empty text is one. -/
def allBlank (cs : List Char) : Bool :=
  cs.all isBlank

end CommitCheck.Text
