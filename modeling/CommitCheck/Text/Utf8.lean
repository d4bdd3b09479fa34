set_option autoImplicit false

/-! Characters as bytes. Decoding runs once over the bytes. It gives a character for every complete
sequence, and nothing for every run of bytes that starts a sequence and is not continued by one of
the bytes that could follow. A text is the strict reading, which needs a character everywhere, or
the lenient one, which puts the replacement character in the other places. Both give back what has
been encoded. -/

namespace CommitCheck.Text

structure Unfinished where
  value : Nat
  missing : Nat
  low : Nat
  high : Nat
deriving DecidableEq, Repr

/-- The sequence that a byte begins. The bounds of the second byte keep out overlong sequences,
surrogates and what lies beyond the last code point. -/
def begun? (byte : Nat) : Option Unfinished :=
  if 0xC2 ≤ byte ∧ byte ≤ 0xDF then some ⟨byte - 0xC0, 1, 0x80, 0xBF⟩
  else if byte = 0xE0 then some ⟨0, 2, 0xA0, 0xBF⟩
  else if byte = 0xED then some ⟨0xD, 2, 0x80, 0x9F⟩
  else if 0xE1 ≤ byte ∧ byte ≤ 0xEF then some ⟨byte - 0xE0, 2, 0x80, 0xBF⟩
  else if byte = 0xF0 then some ⟨0, 3, 0x90, 0xBF⟩
  else if 0xF1 ≤ byte ∧ byte ≤ 0xF3 then some ⟨byte - 0xF0, 3, 0x80, 0xBF⟩
  else if byte = 0xF4 then some ⟨4, 3, 0x80, 0x8F⟩
  else none

/-- What a byte is outside of a sequence: the beginning of one, or a reading of its own. -/
def readAlone (byte : Nat) : Option Char ⊕ Unfinished :=
  if byte < 0x80 then .inl (some (Char.ofNat byte))
  else
    match begun? byte with
    | some sequence => .inr sequence
    | none => .inl none

/-- The readings of bytes, in the given sequence if there is one. -/
def readings : Option Unfinished → List UInt8 → List (Option Char)
  | none, [] => []
  | some _, [] => [none]
  | none, byte :: bytes =>
      match readAlone byte.toNat with
      | .inl reading => reading :: readings none bytes
      | .inr sequence => readings (some sequence) bytes
  | some sequence, byte :: bytes =>
      if sequence.low ≤ byte.toNat ∧ byte.toNat ≤ sequence.high then
        let value := sequence.value * 64 + byte.toNat % 64
        if sequence.missing ≤ 1 then
          some (Char.ofNat value) :: readings none bytes
        else
          readings (some ⟨value, sequence.missing - 1, 0x80, 0xBF⟩) bytes
      else
        match readAlone byte.toNat with
        | .inl reading => none :: reading :: readings none bytes
        | .inr other => none :: readings (some other) bytes

def decode? (bytes : List UInt8) : Option String :=
  ((readings none bytes).mapM id).map String.ofList

/-- The text of any bytes, with a replacement character wherever they are not UTF-8. -/
def decodeLenient (bytes : List UInt8) : String :=
  String.ofList ((readings none bytes).map fun reading => reading.getD '\uFFFD')

/-- The bytes of a character: one to four of them, the first of which tells their number. -/
def encodeChar (c : Char) : List UInt8 :=
  let n := c.toNat
  if n < 0x80 then [n.toUInt8]
  else if n < 0x800 then [(0xC0 + n / 64).toUInt8, (0x80 + n % 64).toUInt8]
  else if n < 0x10000 then
    [(0xE0 + n / 4096).toUInt8, (0x80 + n / 64 % 64).toUInt8, (0x80 + n % 64).toUInt8]
  else
    [(0xF0 + n / 262144).toUInt8, (0x80 + n / 4096 % 64).toUInt8, (0x80 + n / 64 % 64).toUInt8,
      (0x80 + n % 64).toUInt8]

def encode (text : String) : List UInt8 :=
  text.toList.flatMap encodeChar

theorem readings_last {value low high byte : Nat} (rest : List UInt8) (small : byte < 256)
    (above : low ≤ byte) (below : byte ≤ high) :
    readings (some ⟨value, 1, low, high⟩) (byte.toUInt8 :: rest) =
      some (Char.ofNat (value * 64 + byte % 64)) :: readings none rest := by
  have exact : byte.toUInt8.toNat = byte := by simp; omega
  simp [readings, exact, above, below]

theorem readings_more {value missing low high byte : Nat} (rest : List UInt8) (small : byte < 256)
    (above : low ≤ byte) (below : byte ≤ high) (more : 1 < missing) :
    readings (some ⟨value, missing, low, high⟩) (byte.toUInt8 :: rest) =
      readings (some ⟨value * 64 + byte % 64, missing - 1, 0x80, 0xBF⟩) rest := by
  have exact : byte.toUInt8.toNat = byte := by simp; omega
  have not_last : ¬missing ≤ 1 := by omega
  simp [readings, exact, above, below, not_last]

theorem readings_begun {byte : Nat} {sequence : Unfinished} (rest : List UInt8)
    (small : byte < 256) (large : 0x80 ≤ byte) (begun : begun? byte = some sequence) :
    readings none (byte.toUInt8 :: rest) = readings (some sequence) rest := by
  have exact : byte.toUInt8.toNat = byte := by simp; omega
  have not_ascii : ¬byte < 0x80 := by omega
  simp [readings, readAlone, exact, not_ascii, begun]

theorem begun?_two {n : Nat} (above : 0x80 ≤ n) (below : n < 0x800) :
    begun? (0xC0 + n / 64) = some ⟨n / 64, 1, 0x80, 0xBF⟩ := by
  have range : 0xC2 ≤ 0xC0 + n / 64 ∧ 0xC0 + n / 64 ≤ 0xDF := by omega
  simp [begun?, range]

theorem begun?_three {n : Nat} (above : 0x800 ≤ n) (below : n < 0x10000)
    (valid : n < 0xD800 ∨ 0xDFFF < n) :
    ∃ low high, begun? (0xE0 + n / 4096) = some ⟨n / 4096, 2, low, high⟩ ∧
      low ≤ 0x80 + n / 64 % 64 ∧ 0x80 + n / 64 % 64 ≤ high := by
  by_cases first : n / 4096 = 0
  · exact ⟨0xA0, 0xBF, by simp [begun?, first], by omega, by omega⟩
  · by_cases surrogate : n / 4096 = 0xD
    · exact ⟨0x80, 0x9F, by simp [begun?, surrogate], by omega, by omega⟩
    · have not_two : ¬0xE0 + n / 4096 ≤ 0xDF := by omega
      have not_last : ¬0xE0 + n / 4096 = 0xED := by omega
      have range : 0xE1 ≤ 0xE0 + n / 4096 ∧ 0xE0 + n / 4096 ≤ 0xEF := by omega
      exact ⟨0x80, 0xBF, by simp [begun?, first, not_two, not_last, range], by omega, by omega⟩

theorem begun?_four {n : Nat} (above : 0x10000 ≤ n) (below : n < 0x110000) :
    ∃ low high, begun? (0xF0 + n / 262144) = some ⟨n / 262144, 3, low, high⟩ ∧
      low ≤ 0x80 + n / 4096 % 64 ∧ 0x80 + n / 4096 % 64 ≤ high := by
  by_cases first : n / 262144 = 0
  · exact ⟨0x90, 0xBF, by simp [begun?, first], by omega, by omega⟩
  · by_cases last : n / 262144 = 4
    · exact ⟨0x80, 0x8F, by simp [begun?, last], by omega, by omega⟩
    · have range : 0xF1 ≤ 0xF0 + n / 262144 ∧ 0xF0 + n / 262144 ≤ 0xF3 := by omega
      have not_two : ¬0xF0 + n / 262144 ≤ 0xDF := by omega
      have not_three : ¬0xF0 + n / 262144 ≤ 0xEF := by omega
      have not_low : ¬0xF0 + n / 262144 = 0xE0 := by omega
      have not_high : ¬0xF0 + n / 262144 = 0xED := by omega
      exact ⟨0x80, 0xBF, by simp [begun?, first, not_two, not_three, not_low, not_high, range],
        by omega, by omega⟩

theorem readings_encodeChar (c : Char) (rest : List UInt8) :
    readings none (encodeChar c ++ rest) = some c :: readings none rest := by
  have back : Char.ofNat c.toNat = c := Char.ofNat_toNat c
  have valid : c.toNat < 0xD800 ∨ 0xDFFF < c.toNat ∧ c.toNat < 0x110000 := c.valid
  simp only [encodeChar]
  generalize c.toNat = n at back valid
  by_cases one : n < 0x80
  · have exact : n.toUInt8.toNat = n := by simp; omega
    simp [one, readings, readAlone, exact, back]
  · by_cases two : n < 0x800
    · have value : n / 64 * 64 + (0x80 + n % 64) % 64 = n := by omega
      rw [if_neg one, if_pos two, List.cons_append, List.cons_append, List.nil_append,
        readings_begun _ (by omega) (by omega) (begun?_two (by omega) two),
        readings_last _ (by omega) (by omega) (by omega), value, back]
    · by_cases three : n < 0x10000
      · have value :
            (n / 4096 * 64 + (0x80 + n / 64 % 64) % 64) * 64 + (0x80 + n % 64) % 64 = n := by
          omega
        obtain ⟨low, high, begun, above, below⟩ :=
          begun?_three (Nat.le_of_not_lt two) three (by omega)
        rw [if_neg one, if_neg two, if_pos three, List.cons_append, List.cons_append,
          List.cons_append, List.nil_append, readings_begun _ (by omega) (by omega) begun,
          readings_more _ (by omega) above below (by omega),
          readings_last _ (by omega) (by omega) (by omega), value, back]
      · have value : ((n / 262144 * 64 + (0x80 + n / 4096 % 64) % 64) * 64 +
            (0x80 + n / 64 % 64) % 64) * 64 + (0x80 + n % 64) % 64 = n := by omega
        obtain ⟨low, high, begun, above, below⟩ := begun?_four (Nat.le_of_not_lt three) (by omega)
        rw [if_neg one, if_neg two, if_neg three, List.cons_append, List.cons_append,
          List.cons_append, List.cons_append, List.nil_append,
          readings_begun _ (by omega) (by omega) begun,
          readings_more _ (by omega) above below (by omega),
          readings_more _ (by omega) (by omega) (by omega) (by omega),
          readings_last _ (by omega) (by omega) (by omega), value, back]

theorem readings_flatMap_encodeChar (cs : List Char) :
    readings none (cs.flatMap encodeChar) = cs.map some := by
  induction cs with
  | nil => rfl
  | cons c cs ih => rw [List.flatMap_cons, readings_encodeChar, ih, List.map_cons]

theorem decode?_encode (text : String) : decode? (encode text) = some text := by
  have all (cs : List Char) : (cs.map some).mapM id = some cs := by
    induction cs with
    | nil => rfl
    | cons c cs ih => simp [ih]
  simp [decode?, encode, readings_flatMap_encodeChar, all]

theorem decodeLenient_encode (text : String) : decodeLenient (encode text) = text := by
  have same : ((fun reading : Option Char => reading.getD '\uFFFD') ∘ some) = id := rfl
  simp [decodeLenient, encode, readings_flatMap_encodeChar, same]

end CommitCheck.Text
