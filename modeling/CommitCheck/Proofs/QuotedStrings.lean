import CommitCheck.Toml.Reader
import Mathlib

set_option autoImplicit false

/-! Writing strings and lists of strings, and reading them back. A character of a basic string may be
written in several ways. Whichever of them is taken for each character, the reader gives back the
string and leaves what follows it. -/

namespace CommitCheck.Toml

/-- The ways to write a character of a basic string. -/
inductive Spelled : Char → List Char → Prop where
  | plain {c : Char} : isPlain c = true → c ≠ '"' → c ≠ '\\' → Spelled c [c]
  | short {letter c : Char} : shortEscape? letter = some c → Spelled c ['\\', letter]
  | long {a b d e c : Char} : hexEscape? [a, b, d, e] = some c →
      Spelled c ['\\', 'u', a, b, d, e]
  | longer {a b d e f g h i c : Char} : hexEscape? [a, b, d, e, f, g, h, i] = some c →
      Spelled c ['\\', 'U', a, b, d, e, f, g, h, i]

theorem Spelled.ne_nil {c : Char} {spelling : List Char} (spelled : Spelled c spelling) :
    spelling ≠ [] := by
  cases spelled <;> exact List.cons_ne_nil _ _

theorem Spelled.head?_ne_quote {c : Char} {spelling : List Char} (spelled : Spelled c spelling) :
    spelling.head? ≠ some '"' := by
  intro quote
  cases spelled with
  | plain _ unquoted _ => exact unquoted (Option.some.inj quote)
  | short => cases quote
  | long => cases quote
  | longer => cases quote

theorem basicString?_spelled {c : Char} {spelling : List Char} (spelled : Spelled c spelling)
    (rest : List Char) :
    basicString? (spelling ++ rest) =
      (basicString? rest).map fun read => (c :: read.1, read.2) := by
  cases spelled with
  | plain plain unquoted unescaped =>
      rw [List.singleton_append, basicString?.eq_def]
      split <;> simp_all
  | @short letter c known =>
      unfold shortEscape? at known
      split at known <;> cases known <;> rfl
  | long known =>
      change Option.bind (hexEscape? _) _ = _
      rw [known]
      rfl
  | longer known =>
      change Option.bind (hexEscape? _) _ = _
      rw [known]
      rfl

inductive BasicText : List Char → List Char → Prop where
  | nil : BasicText [] []
  | cons {c : Char} {spelling text content : List Char} : Spelled c spelling →
      BasicText text content → BasicText (spelling ++ text) (c :: content)

theorem basicString?_basicText {text content : List Char} (written : BasicText text content)
    (rest : List Char) : basicString? (text ++ '"' :: rest) = some (content, rest) := by
  induction written with
  | nil => rfl
  | cons spelled _ ih =>
      rw [List.append_assoc, basicString?_spelled spelled, ih]
      rfl

theorem BasicText.nil_or_cons {text content : List Char} (written : BasicText text content) :
    text = [] ∨ ∃ c cs, text = c :: cs ∧ c ≠ '"' := by
  cases written with
  | nil => exact Or.inl rfl
  | @cons _ spelling text _ spelled _ =>
      obtain ⟨c, cs, rfl⟩ := List.exists_cons_of_ne_nil spelled.ne_nil
      refine Or.inr ⟨c, cs ++ text, rfl, ?_⟩
      rintro rfl
      exact spelled.head?_ne_quote rfl

theorem readString?_basicText {text content rest : List Char} (written : BasicText text content)
    (apart : rest.head? ≠ some '"') :
    readString? ('"' :: (text ++ '"' :: rest)) = some (content, rest) := by
  have read := basicString?_basicText written rest
  rw [← read]
  rcases written.nil_or_cons with rfl | ⟨c, cs, rfl, unquoted⟩
  · unfold readString?
    split <;> simp_all
  · unfold readString?
    split <;> simp_all

/-- A way to write each character. -/
structure Escaping where
  spell : Char → List Char
  spelled : ∀ c, Spelled c (spell c)

namespace Escaping

theorem hexEscape?_control : ∀ number < 0x80,
    hexEscape? ['0', '0', Nat.digitChar (number / 16), Nat.digitChar (number % 16)] =
      some (Char.ofNat number) := by
  decide

def standard : Escaping where
  spell c :=
    if c = '"' ∨ c = '\\' then ['\\', c]
    else if isPlain c then [c]
    else ['\\', 'u', '0', '0', Nat.digitChar (c.toNat / 16), Nat.digitChar (c.toNat % 16)]
  spelled c := by
    split
    · next special =>
        apply Spelled.short
        rcases special with rfl | rfl <;> rfl
    · next ordinary =>
        rw [not_or] at ordinary
        split
        · next plain => exact .plain plain ordinary.1 ordinary.2
        · next control =>
            have number : c.toNat < 0x80 := by
              unfold isPlain at control
              simp only [Bool.or_eq_true, Bool.and_eq_true, decide_eq_true_eq] at control
              omega
            apply Spelled.long
            rw [hexEscape?_control c.toNat number, Char.ofNat_toNat]

variable (escaping : Escaping)

def content (text : String) : List Char :=
  text.toList.flatMap escaping.spell

def quoted (text : String) : List Char :=
  '"' :: escaping.content text ++ ['"']

theorem basicText_content (text : String) : BasicText (escaping.content text) text.toList := by
  unfold content
  induction text.toList with
  | nil => exact .nil
  | cons c cs ih => exact .cons (escaping.spelled c) ih

theorem readString?_quoted (text : String) {rest : List Char} (apart : rest.head? ≠ some '"') :
    readString? (escaping.quoted text ++ rest) = some (text.toList, rest) := by
  have read := readString?_basicText (escaping.basicText_content text) apart
  unfold quoted
  rw [List.append_assoc, List.singleton_append, List.cons_append]
  exact read

theorem readValue?_quoted (levels : Nat) (text : String) {rest : List Char}
    (apart : rest.head? ≠ some '"') :
    readValue? levels (escaping.quoted text ++ rest) = some (.string text, rest) := by
  have read : readValue? levels (escaping.quoted text ++ rest) =
      (readString? (escaping.quoted text ++ rest)).map fun read =>
        (.string (String.ofList read.1), read.2) := by
    cases levels <;> rfl
  rw [read, escaping.readString?_quoted text apart, Option.map_some, String.ofList_toList]

/-! ### Lists -/

def items : List String → List Char
  | [] => [']']
  | [text] => escaping.quoted text ++ [']']
  | text :: others => escaping.quoted text ++ ',' :: ' ' :: items others

def list (texts : List String) : List Char :=
  '[' :: escaping.items texts

theorem length_items (texts : List String) : texts.length < (escaping.items texts).length := by
  induction texts with
  | nil => exact Nat.zero_lt_one
  | cons text others ih =>
      cases others with
      | nil =>
          unfold items quoted
          simp only [List.length_append, List.length_cons]
          omega
      | cons next others =>
          unfold items
          simp only [List.length_append, List.length_cons] at ih ⊢
          omega

theorem readItems?_space (readItem? : List Char → Option (Value × List Char)) (count : Nat)
    (cs : List Char) : readItems? readItem? count (' ' :: cs) = readItems? readItem? count cs := by
  cases count <;> rfl

theorem readItems?_quoted (levels count : Nat) (text : String) {rest : List Char}
    (apart : rest.head? ≠ some '"') :
    readItems? (readValue? levels) (count + 1) (escaping.quoted text ++ rest) =
      match skipFiller? false rest with
      | some (',' :: rest) =>
          (readItems? (readValue? levels) count rest).map fun read =>
            (.string text :: read.1, read.2)
      | some (']' :: rest) => some ([.string text], rest)
      | _ => none := by
  have read := escaping.readValue?_quoted levels text apart
  have opened : escaping.quoted text ++ rest =
      '"' :: (escaping.content text ++ ['"'] ++ rest) := rfl
  rw [opened] at read ⊢
  have unfilled (cs : List Char) : skipFiller? false ('"' :: cs) = some ('"' :: cs) := rfl
  rw [readItems?, unfilled]
  split
  · next nothing => cases nothing
  · next ended => cases ended
  · next same =>
      cases same
      rewrite [read]
      rfl

theorem readItems?_items (levels : Nat) {texts : List String} {count : Nat}
    (enough : texts.length < count) (rest : List Char) :
    readItems? (readValue? levels) count (escaping.items texts ++ rest) =
      some (texts.map .string, rest) := by
  induction texts generalizing count with
  | nil =>
      cases count with
      | zero => cases enough
      | succ count => rfl
  | cons text others ih =>
      cases count with
      | zero => cases enough
      | succ count =>
          have fewer : others.length < count := Nat.lt_of_succ_lt_succ enough
          cases others with
          | nil =>
              unfold items
              rw [List.append_assoc, readItems?_quoted escaping levels count text (by simp)]
              rfl
          | cons next others =>
              unfold items
              rw [List.append_assoc, readItems?_quoted escaping levels count text (by simp)]
              change Option.map _ (readItems? _ count (' ' :: (escaping.items _ ++ rest))) = _
              rw [readItems?_space, ih fewer]
              rfl

/-- A list of strings that is written is read back. -/
theorem readValue?_list (texts : List String) (rest : List Char) :
    readValue? nestingLimit (escaping.list texts ++ rest) =
      some (.array (texts.map .string), rest) := by
  have enough : texts.length < (escaping.items texts ++ rest).length + 1 := by
    have shorter := escaping.length_items texts
    rw [List.length_append]
    omega
  have read := escaping.readItems?_items (nestingLimit - 1) enough rest
  exact congrArg (Option.map fun read => (Value.array read.1, read.2)) read

end Escaping

end CommitCheck.Toml
