set_option autoImplicit false

/-! Steps of a revision: what follows the name in it. A tilde goes to a first parent as often as the
number behind it says, a caret goes to the parent with the number behind it, a caret with braces
asks for a kind of object, and a colon for an entry of a tree. -/

namespace CommitCheck.Revision

inductive Step where
  | back (count : Nat)
  /-- Goes to the parent with a number, counted from one. Zero stays at the commit. -/
  | parent (number : Nat)
  /-- Asks for an object of a kind; no kind asks for whatever is there. -/
  | peel (kind : String)
  | entry (path : List Char)
  | outOfRange
  | malformed
deriving DecidableEq, Repr

def numberLimit : Nat := Nat.pow 2 31

def number (digits : List Char) : Nat :=
  digits.foldl (fun value digit => value * 10 + (digit.toNat - '0'.toNat)) 0

def number? (cs : List Char) : Option Nat :=
  let digits := cs.takeWhile Char.isDigit
  if digits.isEmpty then some 1
  else if number digits < numberLimit then some (number digits)
  else none

inductive Within where
  | between
  /-- Digits can come next; the step before has taken them already. -/
  | digits
  | braces (kind : List Char)

/-- The steps in a text that goes on in the given way. An at sign at the end is no step. -/
def stepsFrom : Within → List Char → List Step
  | .braces _, [] => [.malformed]
  | .braces kind, '\x7d' :: cs => .peel (String.ofList kind) :: stepsFrom .between cs
  | .braces kind, c :: cs => stepsFrom (.braces (kind ++ [c])) cs
  | _, [] => []
  | _, ['@'] => []
  | _, ':' :: cs => [.entry cs]
  | _, '~' :: cs =>
      (match number? cs with
        | some count => .back count
        | none => .outOfRange) :: stepsFrom .digits cs
  | _, ['^'] => [.parent 1]
  | _, '^' :: '\x7b' :: cs => stepsFrom (.braces []) cs
  | _, '^' :: cs =>
      (match number? cs with
        | some number => .parent number
        | none => .malformed) :: stepsFrom .digits cs
  | .digits, c :: cs => if c.isDigit then stepsFrom .digits cs else [.malformed]
  | .between, _ :: _ => [.malformed]

def steps (cs : List Char) : List Step :=
  stepsFrom .between cs

/-- The tildes that come next end with a number that is too large. -/
def overflows : List Step → Bool
  | .back _ :: rest => overflows rest
  | .outOfRange :: _ => true
  | _ => false

end CommitCheck.Revision
