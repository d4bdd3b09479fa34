import CommitCheck.Proofs.QuotedStrings

set_option autoImplicit false

/-! The grammar of TOML, apart from any reader of it: how the lines of a document are written, and
which lines may come after which. A reader need not go all the way with the grammar, so what it may
refuse is a parameter. -/

namespace CommitCheck.Toml

/-- How far a reader goes along with the grammar. -/
structure Limits where
  depth : Nat → Prop
  parts : Nat → Prop
  integer : Int → Prop
  float : Float → Prop

def Limits.none : Limits :=
  ⟨fun _ => True, fun _ => True, fun _ => True, fun _ => True⟩

/-- Integers have 64 bits, and a positive number is below the least one that is rounded to infinity.
-/
def Limits.reader : Limits where
  depth levels := levels ≤ nestingLimit
  parts count := count ≤ nestingLimit
  integer number := -2 ^ 63 ≤ number ∧ number < 2 ^ 63
  float number := ∀ mantissa exponent, number = .decimal false mantissa exponent →
    (mantissa : ℚ) * 10 ^ exponent < overflowBound

def Blanks (text : List Char) : Prop :=
  ∀ c ∈ text, isSpace c = true

inductive Break : List Char → Prop where
  | feed : Break ['\n']
  | returned : Break ['\r', '\n']

inductive Comment : List Char → Prop where
  | missing : Comment []
  | words {text : List Char} : (∀ c ∈ text, isPlain c = true) → Comment ('#' :: text)

/-- What may come last in a line, in front of its line feed. -/
inductive Tail : List Char → Prop where
  | fed {blanks comment : List Char} : Blanks blanks → Comment comment → Tail (blanks ++ comment)
  | returned {blanks comment : List Char} : Blanks blanks → Comment comment →
      Tail (blanks ++ (comment ++ ['\r']))

/-- What may stand between the items of a list. -/
inductive Filler : List Char → Prop where
  | blanks {text : List Char} : Blanks text → Filler text
  | line {tail rest : List Char} : Tail tail → Filler rest → Filler (tail ++ '\n' :: rest)

/-! ### Numbers -/

/-- Digits with single underscores between some of them. -/
inductive Digits (isDigit : Char → Bool) : List Char → List Char → Prop where
  | last {c : Char} : isDigit c = true → Digits isDigit [c] [c]
  | next {c : Char} {text digits : List Char} : isDigit c = true → Digits isDigit text digits →
      Digits isDigit (c :: text) (c :: digits)
  | grouped {c : Char} {text digits : List Char} : isDigit c = true → Digits isDigit text digits →
      Digits isDigit (c :: '_' :: text) (c :: digits)

inductive Sign : List Char → Bool → Prop where
  | missing : Sign [] false
  | plus : Sign ['+'] false
  | minus : Sign ['-'] true

def signed (negative : Bool) (number : Nat) : Int :=
  if negative then -number else number

structure Whole (text digits : List Char) : Prop where
  run : Digits Char.isDigit text digits
  leading : digits.head? ≠ some '0' ∨ digits.length = 1

inductive Based : Char → Nat → (Char → Bool) → Prop where
  | hexadecimal : Based 'x' 16 fun c => (hexValue? c).isSome
  | octal : Based 'o' 8 fun c => '0' ≤ c && c ≤ '7'
  | binary : Based 'b' 2 fun c => c = '0' || c = '1'

inductive IntegerText : List Char → Int → Prop where
  | decimal {sign text digits : List Char} {negative : Bool} : Sign sign negative →
      Whole text digits → IntegerText (sign ++ text) (signed negative (numberOfDigits 10 digits))
  | based {letter : Char} {base : Nat} {isDigit : Char → Bool} {text digits : List Char} :
      Based letter base isDigit → Digits isDigit text digits →
      IntegerText ('0' :: letter :: text) (numberOfDigits base digits)

inductive FractionText : List Char → List Char → Prop where
  | missing : FractionText [] []
  | digits {text digits : List Char} : Digits Char.isDigit text digits →
      FractionText ('.' :: text) digits

inductive ExponentText : List Char → Int → Prop where
  | missing : ExponentText [] 0
  | digits {mark : Char} {sign text digits : List Char} {negative : Bool} : mark = 'e' ∨ mark = 'E' →
      Sign sign negative → Digits Char.isDigit text digits →
      ExponentText (mark :: (sign ++ text)) (signed negative (numberOfDigits 10 digits))

inductive FloatText : List Char → Float → Prop where
  | decimal {sign whole part scale wholeDigits partDigits : List Char} {negative : Bool}
      {shift : Int} : Sign sign negative → Whole whole wholeDigits → FractionText part partDigits →
      ExponentText scale shift → part ≠ [] ∨ scale ≠ [] →
      FloatText (sign ++ (whole ++ part ++ scale))
        (.decimal negative (numberOfDigits 10 (wholeDigits ++ partDigits))
          (shift - partDigits.length))
  | infinite {sign : List Char} {negative : Bool} : Sign sign negative →
      FloatText (sign ++ "inf".toList) (.infinite negative)
  | notANumber {sign : List Char} {negative : Bool} : Sign sign negative →
      FloatText (sign ++ "nan".toList) (.notANumber negative)

structure Numeral (count : Nat) (text : List Char) (number : Nat) : Prop where
  length : text.length = count
  digits : ∀ c ∈ text, c.isDigit = true
  value : numberOfDigits 10 text = number

inductive DateText : List Char → Date → Prop where
  | mk {year month day : List Char} {date : Date} : Numeral 4 year date.year →
      Numeral 2 month date.month → Numeral 2 day date.day → 1 ≤ date.month → date.month ≤ 12 →
      1 ≤ date.day → date.day ≤ daysInMonth date.year date.month →
      DateText (year ++ '-' :: (month ++ '-' :: day)) date

inductive TimeText : List Char → Time → Prop where
  | mk {hour minute second fraction : List Char} {time : Time} : Numeral 2 hour time.hour →
      Numeral 2 minute time.minute → Numeral 2 second time.second → time.hour ≤ 23 →
      time.minute ≤ 59 → time.second ≤ 60 → (∀ c ∈ time.fraction, c.isDigit = true) →
      fraction = (if time.fraction = [] then [] else '.' :: time.fraction) →
      TimeText (hour ++ ':' :: (minute ++ ':' :: (second ++ fraction))) time

inductive ZoneText : List Char → Option Int → Prop where
  | missing : ZoneText [] none
  | universal {mark : Char} : mark = 'Z' ∨ mark = 'z' → ZoneText [mark] (some 0)
  | offset {sign : Char} {hours minutes : List Char} {hour minute : Nat} {negative : Bool} :
      Sign [sign] negative → Numeral 2 hours hour → Numeral 2 minutes minute → hour ≤ 23 →
      minute ≤ 59 →
      ZoneText (sign :: (hours ++ ':' :: minutes)) (some (signed negative (60 * hour + minute)))

inductive MomentText : List Char → Moment → Prop where
  | date {text : List Char} {date : Date} : DateText text date → MomentText text (.date date)
  | time {text : List Char} {time : Time} : TimeText text time → MomentText text (.time time)
  | dateTime {day clock zone : List Char} {mark : Char} {date : Date} {time : Time}
      {offset? : Option Int} : DateText day date → mark = 'T' ∨ mark = 't' ∨ mark = ' ' →
      TimeText clock time → ZoneText zone offset? →
      MomentText (day ++ mark :: (clock ++ zone)) (.dateTime date time offset?)

def LiteralText (text : List Char) : Prop :=
  ∀ c ∈ text, isPlain c = true ∧ c ≠ '\''

/-- The text of a string of several lines: at most two quotes may stand anywhere between its units
and at its end. -/
inductive LongText (quote : Char) (Unit : List Char → Prop) : List Char → Prop where
  | last {count : Nat} : count ≤ 2 → LongText quote Unit (List.replicate count quote)
  | next {count : Nat} {unit text : List Char} : count ≤ 2 → Unit unit → LongText quote Unit text →
      LongText quote Unit (List.replicate count quote ++ (unit ++ text))

inductive BasicUnit : List Char → Prop where
  | spelled {c : Char} {spelling : List Char} : Spelled c spelling → BasicUnit spelling
  | broken {lineBreak : List Char} : Break lineBreak → BasicUnit lineBreak
  | continued {blanks lineBreak : List Char} : Blanks blanks → Break lineBreak →
      BasicUnit ('\\' :: (blanks ++ lineBreak))

inductive LiteralUnit : List Char → Prop where
  | plain {c : Char} : isPlain c = true → c ≠ '\'' → LiteralUnit [c]
  | broken {lineBreak : List Char} : Break lineBreak → LiteralUnit lineBreak

inductive KeyText : String → List Char → Prop where
  | bare {text : List Char} : text ≠ [] → (∀ c ∈ text, isBareChar c = true) →
      KeyText (String.ofList text) text
  | basic {text content : List Char} : BasicText text content →
      KeyText (String.ofList content) ('"' :: (text ++ ['"']))
  | literal {text : List Char} : LiteralText text →
      KeyText (String.ofList text) ('\'' :: (text ++ ['\'']))

inductive PathText : List String → List Char → Prop where
  | last {key : String} {before text after : List Char} : Blanks before → KeyText key text →
      Blanks after → PathText [key] (before ++ (text ++ after))
  | next {key : String} {path : List String} {before text after rest : List Char} : Blanks before →
      KeyText key text → Blanks after → PathText path rest →
      PathText (key :: path) (before ++ (text ++ (after ++ '.' :: rest)))

/-! ### Documents -/

inductive Form where
  | nothing
  | header (path : List String)
  | element (path : List String)
  | assignment (path : List String)
deriving DecidableEq

/-- The table that the lines after a line belong to. -/
def Form.current (current : List String) : Form → List String
  | .header path | .element path => path
  | .nothing | .assignment _ => current

/-- The path that a line is about, from the front of the document on. -/
def Form.target? (current : List String) : Form → Option (List String)
  | .header path | .element path => some path
  | .assignment path => some (current ++ path)
  | .nothing => none

inductive Role where
  | value
  | declared
  /-- A table that a table with a header is in. -/
  | implied
  | dotted
  /-- A list of tables, which stands for the last of them. -/
  | list
deriving DecidableEq

abbrev Outline := List String → Option Role

namespace Outline

def empty : Outline := fun _ => none

def put (outline : Outline) (path : List String) (role : Role) : Outline := fun other =>
  if other = path then some role else outline other

/-- Those of the paths at which there is nothing have the role. -/
def fill (outline : Outline) (paths : List (List String)) (role : Role) : Outline := fun path =>
  (outline path).or (if path ∈ paths then some role else none)

def clear (outline : Outline) (path : List String) : Outline := fun other =>
  if path <+: other ∧ other ≠ path then none else outline other

/-- The tables between a table and what a path leads to from it. -/
def between (table path : List String) : List (List String) :=
  path.dropLast.inits.tail.map (table ++ ·)

/-- The line gives nothing twice. A header may pass through any table that is not a value, while a
dotted key has to keep to tables of dotted keys. -/
def Admits (outline : Outline) (current : List String) : Form → Prop
  | .nothing => True
  | .header path => path ≠ [] ∧ (∀ table ∈ between [] path, outline table ≠ some .value) ∧
      (outline path = none ∨ outline path = some .implied)
  | .element path => path ≠ [] ∧ (∀ table ∈ between [] path, outline table ≠ some .value) ∧
      (outline path = none ∨ outline path = some .list)
  | .assignment path => path ≠ [] ∧
      (∀ table ∈ between current path, outline table = none ∨ outline table = some .dotted) ∧
      outline (current ++ path) = none

instance (outline : Outline) (current : List String) : (form : Form) →
    Decidable (outline.Admits current form)
  | .nothing => inferInstanceAs (Decidable True)
  | .header _ | .element _ | .assignment _ => inferInstanceAs (Decidable (_ ∧ _ ∧ _))

def after (outline : Outline) (current : List String) : Form → Outline
  | .nothing => outline
  | .header path => (outline.fill (between [] path) .implied).put path .declared
  | .element path => ((outline.clear path).fill (between [] path) .implied).put path .list
  | .assignment path => (outline.fill (between current path) .dotted).put (current ++ path) .value

end Outline

/-- Each line may come where it does. -/
def Consistent : Outline → List String → List Form → Prop
  | _, _, [] => True
  | outline, current, form :: forms =>
      outline.Admits current form ∧
        Consistent (outline.after current form) (form.current current) forms

instance : (outline : Outline) → (current : List String) → (forms : List Form) →
    Decidable (Consistent outline current forms)
  | _, _, [] => inferInstanceAs (Decidable True)
  | outline, current, form :: forms =>
      have := instDecidableConsistent (outline.after current form) (form.current current) forms
      inferInstanceAs (Decidable (_ ∧ _))

section

variable (limits : Limits)

/-- A value in which no other is. -/
inductive Atom : List Char → Prop where
  | boolean (value : Bool) : Atom (if value then "true".toList else "false".toList)
  | integer {text : List Char} {number : Int} : IntegerText text number → limits.integer number →
      Atom text
  | float {text : List Char} {number : Float} : FloatText text number → limits.float number →
      Atom text
  | moment {text : List Char} {moment : Moment} : MomentText text moment → Atom text
  | basic {text content : List Char} : BasicText text content → Atom ('"' :: (text ++ ['"']))
  | literal {text : List Char} : LiteralText text → Atom ('\'' :: (text ++ ['\'']))
  | longBasic {text : List Char} : LongText '"' BasicUnit text →
      Atom ('"' :: '"' :: '"' :: (text ++ ['"', '"', '"']))
  | longLiteral {text : List Char} : LongText '\'' LiteralUnit text →
      Atom ('\'' :: '\'' :: '\'' :: (text ++ ['\'', '\'', '\'']))

inductive ItemsText (Item : List Char → Prop) : List Char → Prop where
  | none {filler : List Char} : Filler filler → ItemsText Item filler
  | last {before item after : List Char} : Filler before → Item item → Filler after →
      ItemsText Item (before ++ (item ++ after))
  | next {before item after items : List Char} : Filler before → Item item → Filler after →
      ItemsText Item items → ItemsText Item (before ++ (item ++ (after ++ ',' :: items)))

inductive AssignmentText (Item : List Char → Prop) : List String → List Char → Prop where
  | mk {path : List String} {key blanks item : List Char} : PathText path key →
      limits.parts path.length → Blanks blanks → Item item →
      AssignmentText Item path (key ++ '=' :: (blanks ++ item))

inductive AssignmentsText (Item : List Char → Prop) : List (List String) → List Char → Prop where
  | last {path : List String} {text after : List Char} : AssignmentText limits Item path text →
      Blanks after → AssignmentsText Item [path] (text ++ after)
  | next {path : List String} {paths : List (List String)} {text after rest : List Char} :
      AssignmentText limits Item path text → Blanks after → AssignmentsText Item paths rest →
      AssignmentsText Item (path :: paths) (text ++ (after ++ ',' :: rest))

inductive Nested (Item : List Char → Prop) : List Char → Prop where
  | atom {text : List Char} : Atom limits text → Nested Item text
  | list {items : List Char} : ItemsText Item items → Nested Item ('[' :: (items ++ [']']))
  | emptyTable {blanks : List Char} : Blanks blanks → Nested Item ('\x7b' :: (blanks ++ ['\x7d']))
  | table {paths : List (List String)} {text : List Char} : AssignmentsText limits Item paths text →
      Consistent .empty [] (paths.map .assignment) → Nested Item ('\x7b' :: (text ++ ['\x7d']))

/-- A value in which lists and inline tables nest at most a number of levels deep. -/
def ValueText : Nat → List Char → Prop
  | 0 => Atom limits
  | levels + 1 => Nested limits (ValueText levels)

/-- A line without the line feed at its end. -/
inductive LineText : Form → List Char → Prop where
  | nothing {tail : List Char} : Tail tail → LineText .nothing tail
  | header {path : List String} {blanks key tail : List Char} : Blanks blanks → PathText path key →
      limits.parts path.length → Tail tail →
      LineText (.header path) (blanks ++ '[' :: (key ++ ']' :: tail))
  | element {path : List String} {blanks key tail : List Char} : Blanks blanks →
      PathText path key → limits.parts path.length → Tail tail →
      LineText (.element path) (blanks ++ '[' :: '[' :: (key ++ ']' :: ']' :: tail))
  | assignment {path : List String} {levels : Nat} {text tail : List Char} :
      AssignmentText limits (ValueText limits levels) path text → limits.depth levels → Tail tail →
      LineText (.assignment path) (text ++ tail)

end

theorem blanks_of_all {text : List Char} (blank : text.all isSpace = true) : Blanks text :=
  List.all_eq_true.mp blank

theorem digits_of_all {isDigit : Char → Bool} {text : List Char} (filled : text ≠ [])
    (digits : text.all isDigit = true) : Digits isDigit text text := by
  induction text with
  | nil => exact absurd rfl filled
  | cons c text ih =>
      rw [List.all_cons, Bool.and_eq_true] at digits
      cases text with
      | nil => exact .last digits.1
      | cons next text => exact .next digits.1 (ih (List.cons_ne_nil _ _) digits.2)

theorem integerText_of_all {text : List Char} (filled : text ≠ [])
    (digits : text.all Char.isDigit = true) (leading : text.head? ≠ some '0') :
    IntegerText text (numberOfDigits 10 text) :=
  .decimal .missing ⟨digits_of_all filled digits, .inl leading⟩

theorem keyText_of_all {text : List Char} (filled : text ≠ [])
    (bare : text.all isBareChar = true) : KeyText (String.ofList text) text :=
  .bare filled (List.all_eq_true.mp bare)

theorem pathText_of_all {text after : List Char} (filled : text ≠ [])
    (bare : text.all isBareChar = true) (blank : after.all isSpace = true) :
    PathText [String.ofList text] (text ++ after) :=
  .last (List.forall_mem_nil _) (keyText_of_all filled bare) (blanks_of_all blank)

theorem blanks_space : Blanks [' '] :=
  blanks_of_all rfl

section

variable {limits : Limits} {path : List String} {key item : List Char}

theorem assignmentText_spaced {Item : List Char → Prop} (keyWritten : PathText path key)
    (few : limits.parts path.length) (itemWritten : Item item) :
    AssignmentText limits Item path (key ++ '=' :: ' ' :: item) :=
  .mk keyWritten few blanks_space itemWritten

theorem lineText_spaced {levels : Nat}
    (keyWritten : PathText path key) (few : limits.parts path.length)
    (itemWritten : ValueText limits levels item) (deep : limits.depth levels) :
    LineText limits (.assignment path) (key ++ '=' :: ' ' :: item) := by
  have line := LineText.assignment (assignmentText_spaced keyWritten few itemWritten) deep
    (.fed (List.forall_mem_nil _) .missing)
  rw [List.append_nil, List.append_nil] at line
  exact line

end

end CommitCheck.Toml
