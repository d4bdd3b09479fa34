import CommitCheck.Toml.Number

set_option autoImplicit false

/-! Dates and times. Each reader takes the whole text of what it reads. -/

namespace CommitCheck.Toml

def fixedNumber? (low high : Nat) (digits : List Char) : Option Nat :=
  if digits.all Char.isDigit then
    some (numberOfDigits 10 digits) |>.filter fun number => low ≤ number && number ≤ high
  else
    none

def isLeapYear (year : Nat) : Bool :=
  year % 4 = 0 && (year % 100 ≠ 0 || year % 400 = 0)

def daysInMonth (year month : Nat) : Nat :=
  if month = 2 then (if isLeapYear year then 29 else 28)
  else if month = 4 || month = 6 || month = 9 || month = 11 then 30
  else 31

/-- A date, as in `1979-05-27`. -/
def date? : List Char → Option Date
  | [y₁, y₂, y₃, y₄, '-', m₁, m₂, '-', d₁, d₂] => do
      let year ← fixedNumber? 0 9999 [y₁, y₂, y₃, y₄]
      let month ← fixedNumber? 1 12 [m₁, m₂]
      let day ← fixedNumber? 1 (daysInMonth year month) [d₁, d₂]
      some ⟨year, month, day⟩
  | _ => none

def secondFraction? : List Char → Option (List Char)
  | [] => some []
  | '.' :: digits => if digits.isEmpty || !digits.all Char.isDigit then none else some digits
  | _ => none

/-- A time of day, as in `07:32:00.5`. A minute may have a leap second. -/
def time? : List Char → Option Time
  | h₁ :: h₂ :: ':' :: m₁ :: m₂ :: ':' :: s₁ :: s₂ :: rest => do
      let hour ← fixedNumber? 0 23 [h₁, h₂]
      let minute ← fixedNumber? 0 59 [m₁, m₂]
      let second ← fixedNumber? 0 60 [s₁, s₂]
      let fraction ← secondFraction? rest
      some ⟨hour, minute, second, fraction⟩
  | _ => none

/-- An offset from universal time in minutes: `Z`, or hours and minutes after a sign. -/
def offset? : List Char → Option Int
  | ['Z'] => some 0
  | ['z'] => some 0
  | [sign, h₁, h₂, ':', m₁, m₂] => do
      let hours ← fixedNumber? 0 23 [h₁, h₂]
      let minutes ← fixedNumber? 0 59 [m₁, m₂]
      let total : Int := 60 * hours + minutes
      if sign = '+' then some total else if sign = '-' then some (-total) else none
  | _ => none

def startsOffset (c : Char) : Bool :=
  c = 'Z' || c = 'z' || c = '+' || c = '-'

def timeOn? (date : Date) (cs : List Char) : Option Moment := do
  let time ← time? (cs.takeWhile fun c => !startsOffset c)
  match cs.dropWhile fun c => !startsOffset c with
  | [] => some (.dateTime date time none)
  | zone => do
      let offset ← offset? zone
      some (.dateTime date time (some offset))

/-- A moment without a blank in it: a date, a time of day, or a date and a time with a `T` between
them. -/
def moment? (cs : List Char) : Option Moment :=
  match date? (cs.take 10), cs.drop 10 with
  | some date, [] => some (.date date)
  | some date, mark :: rest => if mark = 'T' || mark = 't' then timeOn? date rest else none
  | none, _ => (time? cs).map .time

end CommitCheck.Toml
