import CommitCheck.Toml.Quoted
import CommitCheck.Toml.Value

set_option autoImplicit false

/-! Numbers. Digits may be grouped by single underscores between them, a decimal has no leading
zeros, an integer fits into 64 bits with its sign, and a positive number must not be too large for a
binary floating-point number of 64 bits. Each reader takes the whole text of a number. -/

namespace CommitCheck.Toml

/-- The digits of a run in which single underscores may stand between digits. -/
def digitRun? (isDigit : Char → Bool) : List Char → Option (List Char)
  | [] => none
  | [c] => if isDigit c then some [c] else none
  | c :: '_' :: rest =>
      if isDigit c then (digitRun? isDigit rest).map (c :: ·) else none
  | c :: rest =>
      if isDigit c then (digitRun? isDigit rest).map (c :: ·) else none

def numberOfDigits (base : Nat) (digits : List Char) : Nat :=
  digits.foldl (fun number c => base * number + (hexValue? c).getD 0) 0

def splitSign : List Char → Bool × List Char
  | '-' :: rest => (true, rest)
  | '+' :: rest => (false, rest)
  | cs => (false, cs)

def decimalRun? (cs : List Char) : Option (List Char) :=
  (digitRun? Char.isDigit cs).filter fun digits => digits.head? ≠ some '0' || digits.length = 1

def inRange? (number : Int) : Option Int :=
  if -(Int.pow 2 63) ≤ number && number < Int.pow 2 63 then some number else none

/-- An integer: a decimal with or without a sign, or digits of another base after `0x`, `0o` or
`0b`. -/
def integer? : List Char → Option Int
  | '0' :: 'x' :: rest =>
      (digitRun? (fun c => (hexValue? c).isSome) rest).bind fun digits =>
        inRange? (numberOfDigits 16 digits)
  | '0' :: 'o' :: rest =>
      (digitRun? (fun c => '0' ≤ c && c ≤ '7') rest).bind fun digits =>
        inRange? (numberOfDigits 8 digits)
  | '0' :: 'b' :: rest =>
      (digitRun? (fun c => c = '0' || c = '1') rest).bind fun digits =>
        inRange? (numberOfDigits 2 digits)
  | cs =>
      let (negative, unsigned) := splitSign cs
      (decimalRun? unsigned).bind fun digits =>
        let number : Int := numberOfDigits 10 digits
        inRange? (if negative then -number else number)

/-- The least number that is rounded to infinity: halfway from the largest finite number to the
number that would come next. -/
def overflowBound : Nat :=
  (Nat.pow 2 54 - 1) * Nat.pow 2 970

/-- The number `mantissa * 10 ^ exponent` is too large to be rounded to a finite number. The number
of its digits settles all but the closest cases. -/
def overflows (mantissa : Nat) (exponent : Int) : Bool :=
  let magnitude : Int := (Nat.toDigits 10 mantissa).length + exponent
  if mantissa = 0 || magnitude < 300 then
    false
  else if magnitude > 320 then
    true
  else if 0 ≤ exponent then
    overflowBound ≤ mantissa * Nat.pow 10 exponent.toNat
  else
    overflowBound * Nat.pow 10 exponent.natAbs ≤ mantissa

def fraction? : List Char → Option (List Char)
  | [] => some []
  | '.' :: rest => digitRun? Char.isDigit rest
  | _ => none

def exponent? : List Char → Option Int
  | [] => some 0
  | _ :: rest =>
      let (negative, unsigned) := splitSign rest
      (digitRun? Char.isDigit unsigned).map fun digits =>
        let number : Int := numberOfDigits 10 digits
        if negative then -number else number

def isExponentMark (c : Char) : Bool :=
  c = 'e' || c = 'E'

def decimal? (cs : List Char) : Option Float :=
  let (negative, unsigned) := splitSign cs
  let significand := unsigned.takeWhile fun c => !isExponentMark c
  let scale := unsigned.dropWhile fun c => !isExponentMark c
  let whole := significand.takeWhile (· ≠ '.')
  let part := significand.dropWhile (· ≠ '.')
  if part.isEmpty && scale.isEmpty then
    none
  else do
    let wholeDigits ← decimalRun? whole
    let partDigits ← fraction? part
    let shift ← exponent? scale
    let mantissa := numberOfDigits 10 (wholeDigits ++ partDigits)
    let exponent := shift - partDigits.length
    if !negative && overflows mantissa exponent then
      none
    else
      some (.decimal negative mantissa exponent)

def float? (cs : List Char) : Option Float :=
  let (negative, unsigned) := splitSign cs
  if unsigned = "inf".toList then some (.infinite negative)
  else if unsigned = "nan".toList then some (.notANumber negative)
  else decimal? cs

end CommitCheck.Toml
