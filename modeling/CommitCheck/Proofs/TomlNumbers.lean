import CommitCheck.Proofs.TomlGrammar

set_option autoImplicit false

/-! Numbers are read as what they are written for. -/

namespace CommitCheck.Toml

/-- Behind blanks the text is at its end, or something stands there that ends a value. -/
inductive Closes : List Char → Prop where
  | ended : Closes []
  | mark {c : Char} {rest : List Char} : c ∈ [',', ']', '\x7d', '#', '\n', '\r'] →
      Closes (c :: rest)
  | space {c : Char} {rest : List Char} : isSpace c = true → Closes rest → Closes (c :: rest)

theorem isScalarChar_of_isSpace {c : Char} (space : isSpace c = true) : isScalarChar c = false := by
  unfold isSpace at space
  rcases Bool.or_eq_true_iff.mp space with blank | tab
  · rw [of_decide_eq_true blank]
    decide
  · rw [of_decide_eq_true tab]
    decide

theorem Closes.isScalarChar_head {c : Char} {rest : List Char} (closes : Closes (c :: rest)) :
    isScalarChar c = false := by
  cases closes with
  | mark known =>
      simp only [List.mem_cons, List.not_mem_nil, or_false] at known
      rcases known with rfl | rfl | rfl | rfl | rfl | rfl <;> decide
  | space space _ => exact isScalarChar_of_isSpace space

theorem Closes.takeWhile {rest : List Char} (closes : Closes rest) :
    rest.takeWhile isScalarChar = [] := by
  cases rest with
  | nil => rfl
  | cons c rest =>
      rw [List.takeWhile_cons_of_neg]
      rw [closes.isScalarChar_head]
      exact Bool.false_ne_true

theorem takeWhile_append_of_forall {p : Char → Bool} {text : List Char}
    (all : ∀ c ∈ text, p c = true) (rest : List Char) (stop : rest.takeWhile p = []) :
    (text ++ rest).takeWhile p = text ∧ (text ++ rest).dropWhile p = rest := by
  have kept : rest.dropWhile p = rest := by
    have whole := List.takeWhile_append_dropWhile (p := p) (l := rest)
    rw [stop, List.nil_append] at whole
    exact whole
  rw [List.takeWhile_append_of_pos all, List.dropWhile_append_of_pos all, stop, kept,
    List.append_nil]
  exact ⟨rfl, rfl⟩

theorem Digits.mem {p : Char → Bool} {text digits : List Char} (written : Digits p text digits) :
    ∀ c ∈ text, p c = true ∨ c = '_' := by
  induction written with
  | last digit => simp [digit]
  | next digit _ ih => simpa using ⟨Or.inl digit, ih⟩
  | grouped digit _ ih => simpa using ⟨Or.inl digit, ih⟩

theorem Digits.exists_cons {p : Char → Bool} {text digits : List Char}
    (written : Digits p text digits) :
    ∃ c others rest, text = c :: others ∧ digits = c :: rest ∧ p c = true := by
  cases written with
  | last digit => exact ⟨_, _, _, rfl, rfl, digit⟩
  | next digit _ => exact ⟨_, _, _, rfl, rfl, digit⟩
  | grouped digit _ => exact ⟨_, _, _, rfl, rfl, digit⟩

theorem digitRun?_digits {p : Char → Bool} {text digits : List Char}
    (written : Digits p text digits) (underscore : p '_' = false) :
    digitRun? p text = some digits := by
  induction written with
  | last digit => simp [digitRun?, digit]
  | @next c text digits digit others ih =>
      obtain ⟨d, rest, _, rfl, _, first⟩ := others.exists_cons
      have apart : d ≠ '_' := by
        rintro rfl
        rw [underscore] at first
        cases first
      rw [digitRun?.eq_4 p c (d :: rest) (by simp) (by simpa using apart), if_pos digit, ih]
      rfl
  | grouped digit _ ih => simp [digitRun?, digit, ih]

theorem digitRun?_decimal {text digits : List Char}
    (written : Digits Char.isDigit text digits) : digitRun? Char.isDigit text = some digits :=
  digitRun?_digits written (by decide)

theorem decimalRun?_whole {text digits : List Char} (written : Whole text digits) :
    decimalRun? text = some digits := by
  unfold decimalRun?
  rw [digitRun?_decimal written.run, Option.filter_some_pos]
  simpa using written.leading

theorem Based.underscore {letter : Char} {base : Nat} {p : Char → Bool}
    (based : Based letter base p) : p '_' = false := by
  cases based <;> decide

theorem splitSign_append {sign text : List Char} {negative : Bool} (signed : Sign sign negative)
    (digit : ∃ c others, text = c :: others ∧ c.isDigit = true) :
    splitSign (sign ++ text) = (negative, text) := by
  obtain ⟨c, others, rfl, digit⟩ := digit
  cases signed with
  | missing =>
      unfold splitSign
      split
      · next same =>
          obtain rfl := (List.cons.inj same).1
          cases digit
      · next same =>
          obtain rfl := (List.cons.inj same).1
          cases digit
      · rfl
  | plus => rfl
  | minus => rfl

theorem Whole.exists_digit {text digits : List Char} (written : Whole text digits) :
    ∃ c others, text = c :: others ∧ c.isDigit = true := by
  obtain ⟨c, others, _, whole, _, digit⟩ := written.run.exists_cons
  exact ⟨c, others, whole, digit⟩

theorem isScalarChar_of_digit {c : Char} (digit : c.isDigit = true) : isScalarChar c = true := by
  simp [isScalarChar, Char.isAlphanum, digit]

theorem isDigit_of_octal {c : Char} (octal : ('0' ≤ c && c ≤ '7') = true) : c.isDigit = true := by
  obtain ⟨low, high⟩ := Bool.and_eq_true_iff.mp octal
  unfold Char.isDigit
  simp only [Bool.and_eq_true, decide_eq_true_eq]
  exact ⟨of_decide_eq_true low, Char.le_trans (of_decide_eq_true high) (by decide)⟩

theorem isScalarChar_of_hexadecimal {c : Char} (digit : (hexValue? c).isSome = true) :
    isScalarChar c = true := by
  have letter : c.isDigit = true ∨ ('a' ≤ c ∧ c ≤ 'f') ∨ ('A' ≤ c ∧ c ≤ 'F') := by
    unfold hexValue? at digit
    split at digit
    · next decimal => exact .inl decimal
    · split at digit
      · next small => exact .inr (.inl (by simpa using small))
      · split at digit
        · next large => exact .inr (.inr (by simpa using large))
        · cases digit
  have alphanumeric : c.isAlphanum = true := by
    unfold Char.isAlphanum Char.isAlpha Char.isUpper Char.isLower
    rcases letter with decimal | small | large
    · simp [decimal]
    · simp only [Char.le_def, UInt32.le_iff_toNat_le] at small
      simp [UInt32.le_iff_toNat_le] at small ⊢
      omega
    · simp only [Char.le_def, UInt32.le_iff_toNat_le] at large
      simp [UInt32.le_iff_toNat_le] at large ⊢
      omega
  simp [isScalarChar, alphanumeric]

theorem Based.isScalarChar {letter c : Char} {base : Nat} {p : Char → Bool}
    (based : Based letter base p) (digit : p c = true) : isScalarChar c = true := by
  cases based with
  | hexadecimal => exact isScalarChar_of_hexadecimal digit
  | octal => exact isScalarChar_of_digit (isDigit_of_octal digit)
  | binary =>
      rcases Bool.or_eq_true_iff.mp digit with zero | one
      · rw [of_decide_eq_true zero]
        decide
      · rw [of_decide_eq_true one]
        decide

def Unmarked (text : List Char) : Prop :=
  List.IsChain (fun c next => next = '-' → c.isDigit = false) text

theorem unmarked_of_tail {text : List Char} (free : '-' ∉ text.tail) : Unmarked text := by
  induction text with
  | nil => exact .nil
  | cons c text ih =>
      cases text with
      | nil => exact .singleton c
      | cons next text =>
          rw [List.tail_cons, List.mem_cons, not_or] at free
          exact .cons_cons (fun minus => absurd minus.symm free.1) (ih free.2)

theorem not_unmarked_of_date? {text : List Char} {date : Date} (read : date? text = some date)
    (rest : List Char) : ¬Unmarked (text ++ rest) := by
  intro unmarked
  unfold date? at read
  split at read
  · next y₁ y₂ y₃ y₄ m₁ m₂ d₁ d₂ =>
      obtain ⟨year, digits, _⟩ := Option.bind_eq_some_iff.mp read
      unfold fixedNumber? at digits
      split at digits
      · next all =>
          have digit : y₄.isDigit = true := List.all_eq_true.mp all y₄ (by simp)
          have free := (List.isChain_cons_cons.mp
            (List.isChain_cons_cons.mp (List.isChain_cons_cons.mp (List.isChain_cons_cons.mp
              unmarked).2).2).2).1 rfl
          rw [digit] at free
          cases free
      · cases digits
  · cases read

theorem colon_of_time? {text : List Char} {time : Time} (read : time? text = some time) :
    ':' ∈ text := by
  unfold time? at read
  split at read
  · simp
  · cases read

theorem date?_of_unmarked {text : List Char} (unmarked : Unmarked text) : date? text = none := by
  rw [Option.eq_none_iff_forall_ne_some]
  intro date read
  exact not_unmarked_of_date? read [] (by rwa [List.append_nil])

theorem moment?_of_unmarked {text : List Char} (unmarked : Unmarked text) (free : ':' ∉ text) :
    moment? text = none := by
  have noDate : date? (text.take 10) = none := by
    rw [Option.eq_none_iff_forall_ne_some]
    intro date read
    exact not_unmarked_of_date? read (text.drop 10) (by rwa [List.take_append_drop])
  have noTime : time? text = none := by
    rw [Option.eq_none_iff_forall_ne_some]
    intro time read
    exact free (colon_of_time? read)
  unfold moment?
  rw [noDate, noTime]
  rfl

/-! ### Integers -/

theorem Digits.not_mem {p : Char → Bool} {text digits : List Char}
    (written : Digits p text digits) {c : Char} (other : p c = false) (apart : c ≠ '_') :
    c ∉ text := by
  intro member
  rcases written.mem c member with digit | underscore
  · rw [other] at digit
    cases digit
  · exact apart underscore

theorem Based.not_minus {letter : Char} {base : Nat} {p : Char → Bool}
    (based : Based letter base p) : p '-' = false ∧ p ':' = false := by
  cases based <;> decide

theorem Based.letter {letter : Char} {base : Nat} {p : Char → Bool} (based : Based letter base p) :
    letter = 'x' ∨ letter = 'o' ∨ letter = 'b' := by
  cases based <;> decide

theorem Sign.mem {sign : List Char} {negative : Bool} (signed : Sign sign negative) :
    ∀ c ∈ sign, c = '+' ∨ c = '-' := by
  cases signed <;> simp

theorem Sign.exists_cons {sign text : List Char} {negative : Bool} (signed : Sign sign negative)
    (digit : ∃ c others, text = c :: others ∧ c.isDigit = true) :
    ∃ c others, sign ++ text = c :: others ∧ (c.isDigit = true ∨ c = '+' ∨ c = '-') := by
  obtain ⟨c, others, rfl, digit⟩ := digit
  cases signed with
  | missing => exact ⟨c, others, rfl, .inl digit⟩
  | plus => exact ⟨_, _, rfl, .inr (.inl rfl)⟩
  | minus => exact ⟨_, _, rfl, .inr (.inr rfl)⟩

theorem Sign.unmarked {sign text : List Char} {negative : Bool} (signed : Sign sign negative)
    (free : '-' ∉ text) : Unmarked (sign ++ text) := by
  apply unmarked_of_tail
  cases signed with
  | missing => exact fun member => free (List.mem_of_mem_tail member)
  | plus => exact free
  | minus => exact free

/-- What the readers of words and moments need to know about a number. -/
structure Numeric (text : List Char) : Prop where
  start : ∃ c others, text = c :: others ∧ (c.isDigit = true ∨ c = '+' ∨ c = '-')
  scalar : ∀ c ∈ text, isScalarChar c = true
  unmarked : Unmarked text
  colonless : ':' ∉ text

theorem numeric_of_integerText {text : List Char} {number : Int}
    (written : IntegerText text number) : Numeric text := by
  cases written with
  | @decimal sign text digits negative signed whole =>
      have free {c : Char} (other : c.isDigit = false) (apart : c ≠ '_') : c ∉ text :=
        whole.run.not_mem other apart
      refine ⟨signed.exists_cons whole.exists_digit, ?_,
        signed.unmarked (free (by decide) (by decide)), ?_⟩
      · intro c member
        rcases List.mem_append.mp member with sign | digit
        · rcases signed.mem c sign with rfl | rfl <;> decide
        · rcases whole.run.mem c digit with decimal | rfl
          · exact isScalarChar_of_digit decimal
          · decide
      · intro member
        rcases List.mem_append.mp member with sign | digit
        · rcases signed.mem _ sign with same | same <;> cases same
        · exact free (by decide) (by decide) digit
  | @based letter base isDigit text digits based written =>
      have colon : letter ≠ ':' ∧ letter ≠ '-' ∧ isScalarChar letter = true := by
        rcases based.letter with rfl | rfl | rfl <;> decide
      refine ⟨⟨'0', _, rfl, .inl rfl⟩, ?_, ?_, ?_⟩
      · rw [List.forall_mem_cons, List.forall_mem_cons]
        refine ⟨by decide, colon.2.2, ?_⟩
        intro c member
        rcases written.mem c member with digit | rfl
        · exact based.isScalarChar digit
        · decide
      · apply unmarked_of_tail
        rw [List.tail_cons, List.mem_cons, not_or]
        exact ⟨Ne.symm colon.2.1, written.not_mem based.not_minus.1 (by decide)⟩
      · rw [List.mem_cons, List.mem_cons, not_or, not_or]
        exact ⟨by decide, Ne.symm colon.1, written.not_mem based.not_minus.2 (by decide)⟩

theorem Numeric.exists_scalar {text : List Char} (numeric : Numeric text) :
    ∃ c others, text = c :: others ∧ isScalarChar c = true := by
  obtain ⟨c, others, rfl, -⟩ := numeric.start
  exact ⟨c, others, rfl, numeric.scalar c List.mem_cons_self⟩

theorem Numeric.ne_word {text word : List Char} (numeric : Numeric text)
    (worded : ∀ c ∈ word.head?, c.isDigit = false ∧ c ≠ '+' ∧ c ≠ '-') : text ≠ word := by
  rintro rfl
  obtain ⟨c, others, rfl, start⟩ := numeric.start
  obtain ⟨digit, plus, minus⟩ := worded c rfl
  rcases start with start | start | start
  · rw [digit] at start
    cases start
  · exact plus start
  · exact minus start

theorem scalar?_of_numeric {text : List Char} (numeric : Numeric text) :
    scalar? text = ((float? text).map Value.float <|> (integer? text).map Value.integer) := by
  unfold scalar?
  rw [if_neg (numeric.ne_word (by simp)), if_neg (numeric.ne_word (by simp)),
    moment?_of_unmarked numeric.unmarked numeric.colonless]
  rfl

theorem inRange?_of_fits {number : Int} (fits : Limits.reader.integer number) :
    inRange? number = some number := by
  obtain ⟨low, high⟩ := fits
  have bound : Int.pow 2 63 = 2 ^ 63 := rfl
  unfold inRange?
  rw [bound, if_pos]
  simpa using And.intro low high

theorem digitRun?_letter {letter : Char} {text : List Char} (apart : letter ≠ '_')
    (undigit : letter.isDigit = false) : digitRun? Char.isDigit ('0' :: letter :: text) = none := by
  have stuck : digitRun? Char.isDigit (letter :: text) = none := by
    unfold digitRun?
    split <;> simp_all
  rw [digitRun?.eq_4 _ _ _ (by simp) (by simpa using apart), stuck]
  rfl

theorem decimal?_based {letter : Char} {text : List Char}
    (known : letter = 'x' ∨ letter = 'o' ∨ letter = 'b') :
    decimal? ('0' :: letter :: text) = none := by
  have apart : letter ≠ '_' ∧ letter.isDigit = false ∧ isExponentMark letter = false ∧
      letter ≠ '.' := by
    rcases known with rfl | rfl | rfl <;> decide
  obtain ⟨underscore, undigit, mark, point⟩ := apart
  have unsigned : splitSign ('0' :: letter :: text) = (false, '0' :: letter :: text) := rfl
  unfold decimal?
  rw [unsigned]
  dsimp only
  rw [List.takeWhile_cons_of_pos (by decide), List.takeWhile_cons_of_pos (by simp [mark]),
    List.takeWhile_cons_of_pos (by decide), List.takeWhile_cons_of_pos (by simp [point])]
  unfold decimalRun?
  rw [digitRun?_letter underscore undigit]
  split <;> rfl

theorem Digits.mantissa {text digits : List Char} (written : Digits Char.isDigit text digits) :
    ∀ c ∈ text, isExponentMark c = false ∧ c ≠ '.' := by
  intro c member
  rcases written.mem c member with digit | rfl
  · constructor
    · unfold isExponentMark
      rw [Bool.or_eq_false_iff]
      constructor <;> refine decide_eq_false ?_ <;> rintro rfl <;> cases digit
    · rintro rfl
      cases digit
  · decide

theorem FractionText.shape {text digits : List Char} (written : FractionText text digits) :
    text.takeWhile (· ≠ '.') = [] ∧ text.dropWhile (· ≠ '.') = text ∧
      (∀ c ∈ text, isExponentMark c = false) ∧ fraction? text = some digits := by
  cases written with
  | missing => exact ⟨rfl, rfl, List.forall_mem_nil _, rfl⟩
  | digits run =>
      refine ⟨rfl, rfl, ?_, digitRun?_decimal run⟩
      rw [List.forall_mem_cons]
      exact ⟨by decide, fun c member => (run.mantissa c member).1⟩

theorem Digits.exists_digit {text digits : List Char} (written : Digits Char.isDigit text digits) :
    ∃ c others, text = c :: others ∧ c.isDigit = true := by
  obtain ⟨c, others, _, whole, _, digit⟩ := written.exists_cons
  exact ⟨c, others, whole, digit⟩

theorem ExponentText.shape {text : List Char} {shift : Int} (written : ExponentText text shift) :
    text.takeWhile (fun c => !isExponentMark c) = [] ∧ exponent? text = some shift := by
  cases written with
  | missing => exact ⟨rfl, rfl⟩
  | @digits mark sign text digits negative known signed run =>
      refine ⟨?_, ?_⟩
      · rcases known with rfl | rfl <;> rfl
      · unfold exponent?
        dsimp only
        rw [splitSign_append signed run.exists_digit, digitRun?_decimal run]
        rfl

theorem decimal?_parts {sign whole part scale wholeDigits partDigits : List Char} {negative : Bool}
    {shift : Int} (signed : Sign sign negative) (wholeWritten : Whole whole wholeDigits)
    (partWritten : FractionText part partDigits) (scaleWritten : ExponentText scale shift) :
    decimal? (sign ++ (whole ++ part ++ scale)) =
      if part.isEmpty && scale.isEmpty then none
      else if !negative && overflows (numberOfDigits 10 (wholeDigits ++ partDigits))
        (shift - partDigits.length) then none
      else some (.decimal negative (numberOfDigits 10 (wholeDigits ++ partDigits))
        (shift - partDigits.length)) := by
  obtain ⟨noWhole, allPart, partUnmarked, partRead⟩ := partWritten.shape
  obtain ⟨unmarked, scaleRead⟩ := scaleWritten.shape
  have mantissa := wholeWritten.run.mantissa
  have start : ∃ c others, whole ++ part ++ scale = c :: others ∧ c.isDigit = true := by
    obtain ⟨c, others, rfl, digit⟩ := wholeWritten.exists_digit
    exact ⟨c, _, rfl, digit⟩
  have unscaled : ∀ c ∈ whole ++ part, (!isExponentMark c) = true := by
    intro c member
    rcases List.mem_append.mp member with inWhole | inPart
    · rw [(mantissa c inWhole).1]
      rfl
    · rw [partUnmarked c inPart]
      rfl
  have undotted : ∀ c ∈ whole, decide (c ≠ '.') = true :=
    fun c member => decide_eq_true (mantissa c member).2
  obtain ⟨significand, scaled⟩ := takeWhile_append_of_forall unscaled scale unmarked
  obtain ⟨front, behind⟩ := takeWhile_append_of_forall undotted part noWhole
  unfold decimal?
  rw [splitSign_append signed start]
  dsimp only
  rw [significand, scaled, front, behind, decimalRun?_whole wholeWritten, partRead, scaleRead]
  rfl

theorem unsigned_ne_word {text : List Char} (word : String)
    (digit : ∃ c others, text = c :: others ∧ c.isDigit = true)
    (worded : ∀ c ∈ word.toList.head?, c.isDigit = false) : text ≠ word.toList := by
  rintro rfl
  obtain ⟨c, others, whole, digit⟩ := digit
  rw [whole] at worded
  rw [worded c rfl] at digit
  cases digit

theorem float?_of_digits {sign text : List Char} {negative : Bool} (signed : Sign sign negative)
    (digit : ∃ c others, text = c :: others ∧ c.isDigit = true) :
    float? (sign ++ text) = decimal? (sign ++ text) := by
  unfold float?
  rw [splitSign_append signed digit]
  dsimp only
  rw [if_neg (unsigned_ne_word "inf" digit (by simp)),
    if_neg (unsigned_ne_word "nan" digit (by simp))]

theorem float?_of_integerText {text : List Char} {number : Int}
    (written : IntegerText text number) : float? text = none := by
  cases written with
  | @decimal sign text digits negative signed whole =>
      have parts := decimal?_parts signed whole .missing .missing
      rw [List.append_nil, List.append_nil] at parts
      rw [float?_of_digits signed whole.exists_digit, parts]
      rfl
  | based based written =>
      rw [← List.nil_append ('0' :: _), float?_of_digits .missing ⟨_, _, rfl, rfl⟩]
      exact decimal?_based based.letter

theorem integer?_of_integerText {text : List Char} {number : Int}
    (written : IntegerText text number) (fits : Limits.reader.integer number) :
    integer? text = some number := by
  cases written with
  | @decimal sign text digits negative signed whole =>
      have unbased {letter : Char} (undigit : letter.isDigit = false) (apart : letter ≠ '_')
          (rest : List Char) : sign ++ text = '0' :: letter :: rest → False := by
        intro same
        apply whole.run.not_mem undigit apart
        cases signed with
        | missing =>
            rw [List.nil_append] at same
            rw [same]
            exact List.mem_cons_of_mem _ List.mem_cons_self
        | plus => cases same
        | minus => cases same
      rw [integer?.eq_4 _ (unbased (by decide) (by decide)) (unbased (by decide) (by decide))
        (unbased (by decide) (by decide)), splitSign_append signed whole.exists_digit]
      dsimp only
      rw [decimalRun?_whole whole, Option.bind_some]
      exact inRange?_of_fits fits
  | based based written =>
      have run := digitRun?_digits written based.underscore
      cases based with
      | hexadecimal =>
          rw [integer?.eq_1, run, Option.bind_some, inRange?_of_fits fits]
      | octal =>
          rw [integer?.eq_2, run, Option.bind_some, inRange?_of_fits fits]
      | binary =>
          rw [integer?.eq_3, run, Option.bind_some, inRange?_of_fits fits]

theorem scalar?_of_integerText {text : List Char} {number : Int}
    (written : IntegerText text number) (fits : Limits.reader.integer number) :
    scalar? text = some (.integer number) := by
  rw [scalar?_of_numeric (numeric_of_integerText written), float?_of_integerText written,
    integer?_of_integerText written fits]
  rfl

/-! ### Floating-point numbers -/

theorem overflowBound_eq : overflowBound = (2 ^ 54 - 1) * (2 ^ 10) ^ 97 := by
  have exponent : 970 = 10 * 97 := rfl
  unfold overflowBound
  rw [Nat.pow_eq, Nat.pow_eq, exponent, Nat.pow_mul]

theorem le_overflowBound : 10 ^ 299 ≤ overflowBound := by
  have exponent : 299 = 8 + 3 * 97 := rfl
  have power : (10 ^ 3) ^ 97 ≤ (2 ^ 10) ^ 97 := Nat.pow_le_pow_left (by norm_num) 97
  rw [overflowBound_eq, exponent, Nat.pow_add, Nat.pow_mul]
  exact Nat.mul_le_mul (by norm_num) power

theorem overflowBound_le : overflowBound ≤ 10 ^ 320 := by
  have exponent : 320 = 5 * 64 := rfl
  have power : (2 ^ 16) ^ 64 ≤ (10 ^ 5) ^ 64 := Nat.pow_le_pow_left (by norm_num) 64
  have most : (2 ^ 54 - 1) * (2 ^ 10) ^ 97 ≤ 2 ^ 54 * (2 ^ 10) ^ 97 :=
    Nat.mul_le_mul_right _ (Nat.sub_le _ 1)
  have same : 2 ^ 54 * (2 ^ 10) ^ 97 = (2 ^ 16) ^ 64 := by
    rw [← Nat.pow_mul, ← Nat.pow_add, ← Nat.pow_mul]
  rw [overflowBound_eq, exponent, Nat.pow_mul]
  exact most.trans (same.le.trans power)

/-- A number overflows exactly if it is not below the bound. -/
theorem overflows_eq_false_iff {mantissa : Nat} {exponent : Int} :
    overflows mantissa exponent = false ↔ (mantissa : ℚ) * 10 ^ exponent < overflowBound := by
  have ten : (0 : ℚ) < 10 := by norm_num
  have least : (10 : ℚ) ^ (299 : ℤ) ≤ overflowBound := by exact_mod_cast le_overflowBound
  have most : (overflowBound : ℚ) ≤ 10 ^ (320 : ℤ) := by exact_mod_cast overflowBound_le
  have positive : (0 : ℚ) < overflowBound := lt_of_lt_of_le (zpow_pos ten _) least
  have scaled (count : ℤ) : (10 : ℚ) ^ count * 10 ^ exponent = 10 ^ (count + exponent) :=
    (zpow_add₀ ten.ne' count exponent).symm
  unfold overflows
  dsimp only
  by_cases zero : mantissa = 0
  · subst zero
    rw [decide_eq_true rfl, Bool.true_or, if_pos rfl, Nat.cast_zero, zero_mul]
    exact iff_of_true rfl positive
  obtain ⟨count, counted⟩ : ∃ count, (Nat.toDigits 10 mantissa).length = count + 1 :=
    Nat.exists_eq_succ_of_ne_zero Nat.length_toDigits_pos.ne'
  have upper : mantissa < 10 ^ (count + 1) :=
    (Nat.length_toDigits_le_iff (by norm_num) (Nat.succ_pos count)).mp counted.le
  have lower : 10 ^ count ≤ mantissa := by
    cases count with
    | zero => exact Nat.one_le_iff_ne_zero.mpr zero
    | succ count =>
        rw [← Nat.not_lt, ← Nat.length_toDigits_le_iff (by norm_num) (Nat.succ_pos count), counted]
        omega
  have below : (mantissa : ℚ) * 10 ^ exponent < 10 ^ ((count + 1 : ℕ) + exponent) := by
    rw [← scaled]
    exact mul_lt_mul_of_pos_right (by exact_mod_cast upper) (zpow_pos ten _)
  have above : (10 : ℚ) ^ ((count : ℕ) + exponent) ≤ mantissa * 10 ^ exponent := by
    rw [← scaled]
    exact mul_le_mul_of_nonneg_right (by exact_mod_cast lower) (zpow_pos ten _).le
  rw [counted]
  by_cases small : ((count + 1 : ℕ) : ℤ) + exponent < 300
  · rw [if_pos (by rw [decide_eq_true small, Bool.or_true])]
    refine iff_of_true rfl (lt_of_lt_of_le below (le_trans ?_ least))
    exact zpow_le_zpow_right₀ (by norm_num) (by omega)
  · rw [if_neg (by rw [decide_eq_false zero, decide_eq_false small]; exact Bool.false_ne_true)]
    by_cases large : ((count + 1 : ℕ) : ℤ) + exponent > 320
    · rw [if_pos large]
      refine iff_of_false (by simp) (not_lt.mpr (le_trans most (le_trans ?_ above)))
      exact zpow_le_zpow_right₀ (by norm_num) (by push_cast at large; omega)
    · rw [if_neg large]
      split
      · next whole =>
          obtain ⟨power, rfl⟩ := Int.eq_ofNat_of_zero_le whole
          rw [decide_eq_false_iff_not, Nat.not_le, Int.toNat_natCast, zpow_natCast, Nat.pow_eq,
            ← Nat.cast_lt (α := ℚ), Nat.cast_mul, Nat.cast_pow, Nat.cast_ofNat]
      · next broken =>
          obtain ⟨power, rfl⟩ : ∃ power : ℕ, exponent = -(power : ℤ) := ⟨exponent.natAbs, by omega⟩
          rw [decide_eq_false_iff_not, Nat.not_le, Int.natAbs_neg, Int.natAbs_natCast, zpow_neg,
            zpow_natCast, ← div_eq_mul_inv, div_lt_iff₀ (pow_pos ten power), Nat.pow_eq,
            ← Nat.cast_lt (α := ℚ), Nat.cast_mul, Nat.cast_pow, Nat.cast_ofNat]

theorem FractionText.mem {text digits : List Char} (written : FractionText text digits) :
    ∀ c ∈ text, c.isDigit = true ∨ c = '_' ∨ c = '.' := by
  cases written with
  | missing => exact List.forall_mem_nil _
  | digits run =>
      rw [List.forall_mem_cons]
      exact ⟨.inr (.inr rfl), fun c member => (run.mem c member).imp_right .inl⟩

theorem numeric_of_significand {c : Char} (known : c.isDigit = true ∨ c = '_' ∨ c = '.') :
    isScalarChar c = true ∧ c ≠ '-' ∧ c ≠ ':' := by
  rcases known with digit | rfl | rfl
  · refine ⟨isScalarChar_of_digit digit, ?_, ?_⟩ <;> rintro rfl <;> cases digit
  · decide
  · decide

theorem ExponentText.numeric {text : List Char} {shift : Int} (written : ExponentText text shift) :
    (∀ c ∈ text, isScalarChar c = true ∧ c ≠ ':') ∧ Unmarked text ∧ text.head? ≠ some '-' := by
  cases written with
  | missing => exact ⟨List.forall_mem_nil _, .nil, by simp⟩
  | @digits mark sign text digits negative known signed run =>
      have undigit : mark.isDigit = false ∧ isScalarChar mark = true ∧ mark ≠ ':' ∧ mark ≠ '-' := by
        rcases known with rfl | rfl <;> decide
      refine ⟨?_, ?_, fun same => undigit.2.2.2 (Option.some.inj same)⟩
      · rw [List.forall_mem_cons]
        refine ⟨undigit.2.1 |> fun scalar => ⟨scalar, undigit.2.2.1⟩, ?_⟩
        intro c member
        rcases List.mem_append.mp member with inSign | digit
        · rcases signed.mem c inSign with rfl | rfl <;> decide
        · have known := numeric_of_significand ((run.mem c digit).imp_right .inl)
          exact ⟨known.1, known.2.2⟩
      · have behind := signed.unmarked (run.not_mem (c := '-') (by decide) (by decide))
        exact List.isChain_cons.mpr ⟨fun _ _ _ => undigit.1, behind⟩

theorem numeric_of_parts {sign whole part scale wholeDigits partDigits : List Char}
    {negative : Bool} {shift : Int} (signed : Sign sign negative)
    (wholeWritten : Whole whole wholeDigits) (partWritten : FractionText part partDigits)
    (scaleWritten : ExponentText scale shift) : Numeric (sign ++ (whole ++ part ++ scale)) := by
  obtain ⟨scaleChars, scaleUnmarked, scaleHead⟩ := scaleWritten.numeric
  have significand : ∀ c ∈ whole ++ part, isScalarChar c = true ∧ c ≠ '-' ∧ c ≠ ':' := by
    intro c member
    apply numeric_of_significand
    rcases List.mem_append.mp member with inWhole | inPart
    · exact (wholeWritten.run.mem c inWhole).imp_right .inl
    · exact partWritten.mem c inPart
  have start : ∃ c others, whole ++ part ++ scale = c :: others ∧ c.isDigit = true := by
    obtain ⟨c, others, rfl, digit⟩ := wholeWritten.exists_digit
    exact ⟨c, _, rfl, digit⟩
  have chars : ∀ c ∈ sign ++ (whole ++ part ++ scale), isScalarChar c = true ∧ c ≠ ':' := by
    intro c member
    rcases List.mem_append.mp member with inSign | member
    · rcases signed.mem c inSign with rfl | rfl <;> decide
    · rcases List.mem_append.mp member with front | behind
      · exact ⟨(significand c front).1, (significand c front).2.2⟩
      · exact scaleChars c behind
  refine ⟨signed.exists_cons start, fun c member => (chars c member).1, ?_,
    fun member => (chars ':' member).2 rfl⟩
  rw [← List.append_assoc]
  refine List.isChain_append.mpr ⟨signed.unmarked fun member => (significand '-' member).2.1 rfl,
    scaleUnmarked, ?_⟩
  rintro last _ next first rfl
  exact absurd first scaleHead

theorem FloatText.scalar {text : List Char} {number : Float} (written : FloatText text number) :
    (∃ c others, text = c :: others ∧ isScalarChar c = true) ∧
      (∀ c ∈ text, isScalarChar c = true) ∧ date? text = none := by
  cases written with
  | decimal signed whole part scale =>
      have numeric := numeric_of_parts signed whole part scale
      exact ⟨numeric.exists_scalar, numeric.scalar, date?_of_unmarked numeric.unmarked⟩
  | infinite signed => cases signed <;> exact ⟨⟨_, _, rfl, rfl⟩, by simp; decide, rfl⟩
  | notANumber signed => cases signed <;> exact ⟨⟨_, _, rfl, rfl⟩, by simp; decide, rfl⟩

theorem scalar?_of_floatText {text : List Char} {number : Float} (written : FloatText text number)
    (fits : Limits.reader.float number) : scalar? text = some (.float number) := by
  cases written with
  | @decimal sign whole part scale wholeDigits partDigits negative shift signed wholeWritten
      partWritten scaleWritten broken =>
      have start : ∃ c others, whole ++ part ++ scale = c :: others ∧ c.isDigit = true := by
        obtain ⟨c, others, rfl, digit⟩ := wholeWritten.exists_digit
        exact ⟨c, _, rfl, digit⟩
      have finite : (!negative && overflows (numberOfDigits 10 (wholeDigits ++ partDigits))
          (shift - partDigits.length)) = false := by
        cases negative with
        | true => rfl
        | false => exact overflows_eq_false_iff.mpr (fits _ _ rfl)
      have present : ¬(part.isEmpty && scale.isEmpty) = true := by
        rw [Bool.and_eq_true, List.isEmpty_iff, List.isEmpty_iff]
        exact fun missing => broken.elim (· missing.1) (· missing.2)
      rw [scalar?_of_numeric (numeric_of_parts signed wholeWritten partWritten scaleWritten),
        float?_of_digits signed start,
        decimal?_parts signed wholeWritten partWritten scaleWritten, if_neg present,
        finite]
      rfl
  | infinite signed => cases signed <;> rfl
  | notANumber signed => cases signed <;> rfl

end CommitCheck.Toml
