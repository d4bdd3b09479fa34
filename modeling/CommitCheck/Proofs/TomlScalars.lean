import CommitCheck.Proofs.TomlNumbers

set_option autoImplicit false

/-! Dates and times are read as what they are written for, and so is every value without quotes and
brackets if something stands behind it that ends a value. -/

namespace CommitCheck.Toml

theorem fixedNumber?_numeral {count low high number : Nat} {text : List Char}
    (written : Numeral count text number) (least : low ≤ number) (most : number ≤ high) :
    fixedNumber? low high text = some number := by
  unfold fixedNumber?
  rw [if_pos (List.all_eq_true.mpr written.digits), written.value, Option.filter_some_pos]
  simpa using And.intro least most

theorem Numeral.two {text : List Char} {number : Nat} (written : Numeral 2 text number) :
    ∃ a b, text = [a, b] :=
  List.length_eq_two.mp written.length

theorem Numeral.four {text : List Char} {number : Nat} (written : Numeral 4 text number) :
    ∃ a b c d, text = [a, b, c, d] := by
  match text, written.length with
  | [a, b, c, d], _ => exact ⟨a, b, c, d, rfl⟩

theorem digitValue_le {c : Char} (digit : c.isDigit = true) : (hexValue? c).getD 0 ≤ 9 := by
  unfold hexValue?
  rw [if_pos digit, Option.getD_some]
  unfold Char.isDigit at digit
  have most : c.toNat ≤ 57 := UInt32.le_iff_toNat_le.mp
    (of_decide_eq_true (Bool.and_eq_true_iff.mp digit).2)
  have zero : '0'.toNat = 48 := rfl
  omega

theorem Numeral.le_9999 {text : List Char} {number : Nat} (written : Numeral 4 text number) :
    number ≤ 9999 := by
  obtain ⟨a, b, c, d, rfl⟩ := written.four
  have digits := written.digits
  simp only [List.mem_cons, List.not_mem_nil, or_false, forall_eq_or_imp, forall_eq] at digits
  have first := digitValue_le digits.1
  have second := digitValue_le digits.2.1
  have third := digitValue_le digits.2.2.1
  have fourth := digitValue_le digits.2.2.2
  rw [← written.value]
  unfold numberOfDigits
  simp only [List.foldl_cons, List.foldl_nil]
  omega

theorem date?_of_dateText {text : List Char} {date : Date} (written : DateText text date) :
    date? text = some date := by
  cases written with
  | mk year month day january december first last =>
      obtain ⟨y₁, y₂, y₃, y₄, rfl⟩ := year.four
      obtain ⟨m₁, m₂, rfl⟩ := month.two
      obtain ⟨d₁, d₂, rfl⟩ := day.two
      have bound : date.year ≤ 9999 := year.le_9999
      change Option.bind (fixedNumber? 0 9999 [y₁, y₂, y₃, y₄]) _ = _
      rw [fixedNumber?_numeral year (Nat.zero_le _) bound]
      change Option.bind (fixedNumber? 1 12 [m₁, m₂]) _ = _
      rw [fixedNumber?_numeral month january december]
      change Option.bind (fixedNumber? 1 (daysInMonth date.year date.month) [d₁, d₂]) _ = _
      rw [fixedNumber?_numeral day first last]
      rfl

theorem time?_of_timeText {text : List Char} {time : Time} (written : TimeText text time) :
    time? text = some time := by
  cases written with
  | @mk hour minute second fraction time hourWritten minuteWritten secondWritten lastHour
      lastMinute lastSecond digits same =>
      obtain ⟨h₁, h₂, rfl⟩ := hourWritten.two
      obtain ⟨m₁, m₂, rfl⟩ := minuteWritten.two
      obtain ⟨s₁, s₂, rfl⟩ := secondWritten.two
      have part : secondFraction? fraction = some time.fraction := by
        rw [same]
        split
        · next none => rw [none]; rfl
        · next filled =>
            rw [secondFraction?.eq_2, if_neg]
            rw [Bool.or_eq_true, not_or, List.isEmpty_iff, Bool.not_eq_true', Bool.not_eq_false]
            exact ⟨filled, List.all_eq_true.mpr digits⟩
      change Option.bind (fixedNumber? 0 23 [h₁, h₂]) _ = _
      rw [fixedNumber?_numeral hourWritten (Nat.zero_le _) lastHour]
      change Option.bind (fixedNumber? 0 59 [m₁, m₂]) _ = _
      rw [fixedNumber?_numeral minuteWritten (Nat.zero_le _) lastMinute]
      change Option.bind (fixedNumber? 0 60 [s₁, s₂]) _ = _
      rw [fixedNumber?_numeral secondWritten (Nat.zero_le _) lastSecond]
      change Option.bind (secondFraction? fraction) _ = _
      rw [part]
      rfl

theorem digit_chars {c : Char} (digit : c.isDigit = true) :
    isScalarChar c = true ∧ startsOffset c = false := by
  refine ⟨isScalarChar_of_digit digit, ?_⟩
  unfold startsOffset
  simp only [Bool.or_eq_false_iff, decide_eq_false_iff_not]
  refine ⟨⟨⟨?_, ?_⟩, ?_⟩, ?_⟩ <;> rintro rfl <;> cases digit

theorem Numeral.chars {count number : Nat} {text : List Char} (written : Numeral count text number) :
    ∀ c ∈ text, isScalarChar c = true ∧ startsOffset c = false :=
  fun c member => digit_chars (written.digits c member)

theorem TimeText.chars {text : List Char} {time : Time} (written : TimeText text time) :
    ∀ c ∈ text, isScalarChar c = true ∧ startsOffset c = false := by
  cases written with
  | @mk hour minute second fraction _ hourWritten minuteWritten secondWritten _ _ _ digits same =>
      have colon : isScalarChar ':' = true ∧ startsOffset ':' = false := by decide
      have fractionChars : ∀ c ∈ fraction, isScalarChar c = true ∧ startsOffset c = false := by
        rw [same]
        split
        · exact List.forall_mem_nil _
        · rw [List.forall_mem_cons]
          exact ⟨by decide, fun c member => digit_chars (digits c member)⟩
      intro c member
      simp only [List.mem_append, List.mem_cons] at member
      rcases member with member | rfl | member | rfl | member | member
      · exact hourWritten.chars c member
      · exact colon
      · exact minuteWritten.chars c member
      · exact colon
      · exact secondWritten.chars c member
      · exact fractionChars c member

theorem TimeText.exists_digit {text : List Char} {time : Time} (written : TimeText text time) :
    ∃ c others, text = c :: others ∧ c.isDigit = true := by
  cases written with
  | mk hour =>
      obtain ⟨a, b, rfl⟩ := hour.two
      exact ⟨a, _, rfl, hour.digits a List.mem_cons_self⟩

theorem Sign.marks {sign : Char} {negative : Bool} (signed : Sign [sign] negative) :
    startsOffset sign = true ∧ isScalarChar sign = true := by
  cases signed <;> decide

theorem ZoneText.chars {text : List Char} {offset? : Option Int} (written : ZoneText text offset?) :
    text.takeWhile (fun c => !startsOffset c) = [] ∧ ∀ c ∈ text, isScalarChar c = true := by
  cases written with
  | missing => exact ⟨rfl, List.forall_mem_nil _⟩
  | universal known =>
      rw [List.forall_mem_singleton]
      rcases known with rfl | rfl <;> decide
  | offset signed hours minutes =>
      obtain ⟨marked, scalar⟩ := signed.marks
      rw [List.takeWhile_cons_of_neg (by rw [marked]; exact Bool.false_ne_true)]
      refine ⟨rfl, ?_⟩
      intro c member
      rw [List.mem_cons, List.mem_append, List.mem_cons] at member
      rcases member with rfl | member | rfl | member
      · exact scalar
      · exact (hours.chars c member).1
      · decide
      · exact (minutes.chars c member).1

theorem offset?_of_signed {sign : Char} {hours minutes : List Char} {hour minute : Nat}
    {negative : Bool} (signed : Sign [sign] negative) (hoursWritten : Numeral 2 hours hour)
    (minutesWritten : Numeral 2 minutes minute) (lastHour : hour ≤ 23) (lastMinute : minute ≤ 59) :
    offset? (sign :: (hours ++ ':' :: minutes)) =
      some (Toml.signed negative (60 * hour + minute)) := by
  obtain ⟨h₁, h₂, rfl⟩ := hoursWritten.two
  obtain ⟨m₁, m₂, rfl⟩ := minutesWritten.two
  rw [List.cons_append, List.cons_append, List.nil_append, offset?.eq_3,
    fixedNumber?_numeral hoursWritten (Nat.zero_le _) lastHour,
    fixedNumber?_numeral minutesWritten (Nat.zero_le _) lastMinute]
  cases signed <;> rfl

theorem timeOn?_of_written {clock zone : List Char} (date : Date) {time : Time}
    {offset? : Option Int} (clockWritten : TimeText clock time) (zoneWritten : ZoneText zone offset?) :
    timeOn? date (clock ++ zone) = some (.dateTime date time offset?) := by
  have unmarked : ∀ c ∈ clock, (!startsOffset c) = true := by
    intro c member
    rw [(clockWritten.chars c member).2]
    rfl
  obtain ⟨front, behind⟩ := takeWhile_append_of_forall unmarked zone zoneWritten.chars.1
  unfold timeOn?
  rw [front, behind, time?_of_timeText clockWritten]
  cases zoneWritten with
  | missing => rfl
  | universal known => rcases known with rfl | rfl <;> rfl
  | offset signed hours minutes lastHour lastMinute =>
      change Option.bind (Toml.offset? _) _ = _
      rw [offset?_of_signed signed hours minutes lastHour lastMinute]
      rfl

/-! ### Scalars -/

theorem DateText.shape {text : List Char} {date : Date} (written : DateText text date) :
    text.length = 10 ∧ (∀ c ∈ text, isScalarChar c = true) ∧
      ∃ c others, text = c :: others ∧ c.isDigit = true := by
  cases written with
  | mk year month day =>
      refine ⟨?_, ?_, ?_⟩
      · simp only [List.length_append, List.length_cons, year.length, month.length, day.length]
      · intro c member
        rw [List.mem_append, List.mem_cons, List.mem_append, List.mem_cons] at member
        rcases member with member | rfl | member | rfl | member
        · exact (year.chars c member).1
        · decide
        · exact (month.chars c member).1
        · decide
        · exact (day.chars c member).1
      · obtain ⟨a, b, c, d, rfl⟩ := year.four
        exact ⟨a, _, rfl, year.digits a List.mem_cons_self⟩

theorem length_of_date? {text : List Char} {date : Date} (read : date? text = some date) :
    text.length = 10 := by
  unfold date? at read
  split at read
  · rfl
  · cases read

theorem readScalar?_of_scalar {text rest : List Char} (chars : ∀ c ∈ text, isScalarChar c = true)
    (undated : date? text = none) (closes : Closes rest) :
    readScalar? (text ++ rest) = (scalar? text).map fun value => (value, rest) := by
  obtain ⟨front, behind⟩ := takeWhile_append_of_forall chars rest closes.takeWhile
  unfold readScalar?
  rw [front, behind, undated]

theorem scalar?_of_digit {text : List Char}
    (digit : ∃ c others, text = c :: others ∧ c.isDigit = true) {moment : Moment}
    (read : moment? text = some moment) : scalar? text = some (.moment moment) := by
  unfold scalar?
  rw [if_neg (unsigned_ne_word "true" digit (by simp)),
    if_neg (unsigned_ne_word "false" digit (by simp)), read]
  rfl

theorem moment?_of_dateText {text : List Char} {date : Date} (written : DateText text date) :
    moment? text = some (.date date) := by
  have front : text.take 10 = text := List.take_of_length_le written.shape.1.le
  have behind : text.drop 10 = [] := List.drop_of_length_le written.shape.1.le
  unfold moment?
  rw [front, behind, date?_of_dateText written]

theorem readScalar?_of_dateText_space {text : List Char} {date : Date}
    (written : DateText text date) (rest : List Char) :
    readScalar? (text ++ ' ' :: rest) =
      match timeOn? date (rest.takeWhile isScalarChar) with
      | some moment => some (.moment moment, rest.dropWhile isScalarChar)
      | none => some (.moment (.date date), ' ' :: rest) := by
  obtain ⟨front, behind⟩ := takeWhile_append_of_forall written.shape.2.1 (' ' :: rest) rfl
  unfold readScalar?
  rw [front, behind, date?_of_dateText written]
  rfl

theorem readScalar?_of_dateText {text rest : List Char} {date : Date} (written : DateText text date)
    (closes : Closes rest) :
    readScalar? (text ++ rest) = some (.moment (.date date), rest) := by
  obtain ⟨_, chars, digit⟩ := written.shape
  obtain ⟨front, behind⟩ := takeWhile_append_of_forall chars rest closes.takeWhile
  have single := scalar?_of_digit digit (moment?_of_dateText written)
  have alone (unspaced : ∀ others, rest ≠ ' ' :: others) :
      readScalar? (text ++ rest) = some (.moment (.date date), rest) := by
    unfold readScalar?
    rw [front, behind]
    split
    · exact absurd rfl (unspaced _)
    · rw [single]
      rfl
  cases closes with
  | ended => exact alone fun others same => by cases same
  | mark known =>
      apply alone
      rintro others same
      cases same
      revert known
      decide
  | @space c rest blank closes =>
      rcases Bool.or_eq_true_iff.mp blank with same | same <;> cases of_decide_eq_true same
      · rw [readScalar?_of_dateText_space written, closes.takeWhile]
        rfl
      · exact alone fun others same => by cases same

theorem readScalar?_of_timeText {text rest : List Char} {time : Time} (clock : TimeText text time)
    (closes : Closes rest) : readScalar? (text ++ rest) = some (.moment (.time time), rest) := by
  have free : '-' ∉ text := by
    intro member
    cases (clock.chars '-' member).2
  have undated (count : Nat) : date? (text.take count) = none :=
    date?_of_unmarked (unmarked_of_tail fun member =>
      free (List.mem_of_mem_take (List.mem_of_mem_tail member)))
  have wholeUndated : date? text = none := by
    rw [← List.take_length (l := text)]
    exact undated _
  have read : moment? text = some (.time time) := by
    unfold moment?
    rw [undated 10, time?_of_timeText clock]
    rfl
  rw [readScalar?_of_scalar (fun c member => (clock.chars c member).1) wholeUndated closes,
    scalar?_of_digit clock.exists_digit read]
  rfl

section

variable {day clock zone rest : List Char} {date : Date} {time : Time} {offset? : Option Int}

theorem clock_chars (clockWritten : TimeText clock time) (zoneWritten : ZoneText zone offset?) :
    ∀ c ∈ clock ++ zone, isScalarChar c = true := by
  intro c member
  rcases List.mem_append.mp member with front | behind
  · exact (clockWritten.chars c front).1
  · exact zoneWritten.chars.2 c behind

theorem readScalar?_of_lettered {mark : Char} (dayWritten : DateText day date)
    (lettered : mark = 'T' ∨ mark = 't') (clockWritten : TimeText clock time)
    (zoneWritten : ZoneText zone offset?) (closes : Closes rest) :
    readScalar? (day ++ mark :: (clock ++ zone) ++ rest) =
      some (.moment (.dateTime date time offset?), rest) := by
  obtain ⟨length, dayChars, digit⟩ := dayWritten.shape
  have marked : isScalarChar mark = true := by rcases lettered with rfl | rfl <;> decide
  have chars : ∀ c ∈ day ++ mark :: (clock ++ zone), isScalarChar c = true := by
    intro c member
    rw [List.mem_append, List.mem_cons] at member
    rcases member with member | rfl | member
    · exact dayChars c member
    · exact marked
    · exact clock_chars clockWritten zoneWritten c member
  have undated : date? (day ++ mark :: (clock ++ zone)) = none := by
    rw [Option.eq_none_iff_forall_ne_some]
    intro other read
    have whole := length_of_date? read
    rw [List.length_append, List.length_cons] at whole
    omega
  have front : (day ++ mark :: (clock ++ zone)).take 10 = day := List.take_left' length
  have behind : (day ++ mark :: (clock ++ zone)).drop 10 = mark :: (clock ++ zone) :=
    List.drop_left' length
  have read : moment? (day ++ mark :: (clock ++ zone)) = some (.dateTime date time offset?) := by
    unfold moment?
    rw [front, behind, date?_of_dateText dayWritten]
    dsimp only
    rw [if_pos (by simpa using lettered), timeOn?_of_written date clockWritten zoneWritten]
  have start : ∃ c others, day ++ mark :: (clock ++ zone) = c :: others ∧ c.isDigit = true := by
    obtain ⟨c, others, rfl, digit⟩ := digit
    exact ⟨c, _, rfl, digit⟩
  rw [readScalar?_of_scalar chars undated closes, scalar?_of_digit start read]
  rfl

theorem readScalar?_of_spaced (dayWritten : DateText day date) (clockWritten : TimeText clock time)
    (zoneWritten : ZoneText zone offset?) (closes : Closes rest) :
    readScalar? (day ++ ' ' :: (clock ++ zone) ++ rest) =
      some (.moment (.dateTime date time offset?), rest) := by
  obtain ⟨front, behind⟩ :=
    takeWhile_append_of_forall (clock_chars clockWritten zoneWritten) rest closes.takeWhile
  rw [List.append_assoc, List.cons_append, readScalar?_of_dateText_space dayWritten, front, behind,
    timeOn?_of_written date clockWritten zoneWritten]

end

theorem readScalar?_of_momentText {text rest : List Char} {moment : Moment}
    (written : MomentText text moment) (closes : Closes rest) :
    readScalar? (text ++ rest) = some (.moment moment, rest) := by
  cases written with
  | date day => exact readScalar?_of_dateText day closes
  | time clock => exact readScalar?_of_timeText clock closes
  | dateTime day known clock zone =>
      rcases or_assoc.mpr known with lettered | rfl
      · exact readScalar?_of_lettered day lettered clock zone closes
      · exact readScalar?_of_spaced day clock zone closes

theorem MomentText.exists_scalar {text : List Char} {moment : Moment}
    (written : MomentText text moment) :
    ∃ c others, text = c :: others ∧ isScalarChar c = true := by
  have start : ∃ c others, text = c :: others ∧ c.isDigit = true := by
    cases written with
    | date date => exact date.shape.2.2
    | time clock => exact clock.exists_digit
    | dateTime day =>
        obtain ⟨c, others, rfl, digit⟩ := day.shape.2.2
        exact ⟨c, _, rfl, digit⟩
  obtain ⟨c, others, rfl, digit⟩ := start
  exact ⟨c, others, rfl, isScalarChar_of_digit digit⟩

end CommitCheck.Toml
