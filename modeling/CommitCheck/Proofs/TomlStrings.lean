import CommitCheck.Proofs.TomlScalars

set_option autoImplicit false

/-! Strings in quotes are read up to their closing quotes, whatever units they are made of. -/

namespace CommitCheck.Toml

theorem literalString?_literalText {text : List Char} (written : LiteralText text)
    (rest : List Char) : literalString? (text ++ '\'' :: rest) = some (text, rest) := by
  have chars : ∀ c ∈ text, (isPlain c && decide (c ≠ '\'')) = true := by
    intro c member
    rw [Bool.and_eq_true, decide_eq_true_iff]
    exact written c member
  obtain ⟨front, behind⟩ := takeWhile_append_of_forall chars ('\'' :: rest) rfl
  unfold literalString?
  rw [behind, front]
  rfl

theorem readString?_literalText {text rest : List Char} (written : LiteralText text)
    (apart : rest.head? ≠ some '\'') :
    readString? ('\'' :: (text ++ '\'' :: rest)) = some (text, rest) := by
  have read := literalString?_literalText written rest
  rw [← read]
  cases text with
  | nil =>
      unfold readString?
      split <;> simp_all
  | cons c text =>
      have unquoted := (written c List.mem_cons_self).2
      unfold readString?
      split <;> simp_all

/-- A string of several lines is read if its reader goes over its units, over quotes that are not
the closing ones, and over these. -/
theorem LongText.reads {quote : Char} {Unit : List Char → Prop} {text rest : List Char}
    (written : LongText quote Unit text) (Reads : List Char → Prop)
    (closing : ∀ count ≤ 2, Reads (List.replicate count quote ++ quote :: quote :: quote :: rest))
    (single : ∀ text, ¬[quote, quote] <+: text → Reads text → Reads (quote :: text))
    (unit : ∀ unit text, Unit unit → Reads text → Reads (unit ++ text))
    (unquoted : ∀ unit, Unit unit → ∃ c cs, unit = c :: cs ∧ c ≠ quote) :
    Reads (text ++ quote :: quote :: quote :: rest) := by
  induction written with
  | last few => exact closing _ few
  | @next count text more few written _ ih =>
      obtain ⟨c, cs, rfl, apart⟩ := unquoted _ written
      have behind := unit _ _ written ih
      have first : ¬[quote, quote] <+: c :: cs ++ (more ++ quote :: quote :: quote :: rest) :=
        fun starts => apart (List.cons_prefix_cons.mp starts).1.symm
      have second : ¬[quote, quote] <+:
          quote :: (c :: cs ++ (more ++ quote :: quote :: quote :: rest)) :=
        fun starts => apart
          (List.cons_prefix_cons.mp (List.cons_prefix_cons.mp starts).2).1.symm
      rw [List.append_assoc, List.append_assoc]
      match count, few with
      | 0, _ => exact behind
      | 1, _ => exact single _ first behind
      | 2, _ => exact single _ second (single _ first behind)

/-- The reader of basic strings of several lines goes on behind the text, wherever it is. -/
def TakesBasic (text rest : List Char) : Prop :=
  ∀ skipping, ∃ content, longBasicString? skipping text = some (content, rest)

theorem longBasicString?_char {skipping : Bool} {c : Char} {text : List Char}
    (unescaped : c ≠ '\\') (unreturned : c ≠ '\r') (single : c = '"' → ¬['"', '"'] <+: text) :
    longBasicString? skipping (c :: text) =
      if skipping && (isSpace c || c = '\n') then longBasicString? true text
      else if c = '\n' || (isPlain c && c ≠ '\\') then
        (longBasicString? false text).map fun read => (c :: read.1, read.2)
      else none := by
  apply longBasicString?.eq_9
  · rintro _ same rfl
    exact single same (List.prefix_append ['"', '"'] _)
  · rintro _ same rfl
    exact single same (List.prefix_append ['"', '"'] _)
  · rintro _ same rfl
    exact single same (List.prefix_append ['"', '"'] _)
  · exact fun _ _ _ _ _ same => absurd same unescaped
  · exact fun _ _ _ _ _ _ _ _ _ same => absurd same unescaped
  · exact fun _ _ same => absurd same unescaped
  · exact fun _ same => absurd same unreturned

theorem takesBasic_char {c : Char} {text rest : List Char} (known : c = '\n' ∨ isPlain c = true)
    (unescaped : c ≠ '\\') (single : c = '"' → ¬['"', '"'] <+: text)
    (further : TakesBasic text rest) : TakesBasic (c :: text) rest := by
  intro skipping
  have unreturned : c ≠ '\r' := by
    rintro rfl
    rcases known with same | plain
    · cases same
    · cases plain
  have kept : (decide (c = '\n') || (isPlain c && decide (c ≠ '\\'))) = true := by
    rw [Bool.or_eq_true, Bool.and_eq_true, decide_eq_true_iff, decide_eq_true_iff]
    exact known.imp_right fun plain => ⟨plain, unescaped⟩
  rw [longBasicString?_char unescaped unreturned single]
  split
  · exact further true
  · obtain ⟨content, read⟩ := further false
    rw [read]
    exact ⟨_, rfl⟩

theorem takesBasic_spelled {c : Char} {spelling text rest : List Char}
    (spelled : Spelled c spelling) (further : TakesBasic text rest) :
    TakesBasic (spelling ++ text) rest := by
  cases spelled with
  | plain plain unquoted unescaped =>
      exact takesBasic_char (.inr plain) unescaped (fun same => absurd same unquoted) further
  | @short letter c known =>
      intro skipping
      obtain ⟨content, read⟩ := further false
      refine ⟨c :: content, ?_⟩
      rw [List.cons_append, List.cons_append, List.nil_append, longBasicString?.eq_7, known]
      · dsimp only
        rw [read]
        rfl
      · rintro _ _ _ _ _ rfl _
        cases known
      · rintro _ _ _ _ _ _ _ _ _ rfl _
        cases known
  | long known =>
      intro skipping
      obtain ⟨content, read⟩ := further false
      refine ⟨c :: content, ?_⟩
      simp only [List.cons_append, List.nil_append]
      rw [longBasicString?.eq_5, known, read]
      rfl
  | longer known =>
      intro skipping
      obtain ⟨content, read⟩ := further false
      refine ⟨c :: content, ?_⟩
      simp only [List.cons_append, List.nil_append]
      rw [longBasicString?.eq_6, known, read]
      rfl

theorem takesBasic_break {lineBreak text rest : List Char} (broken : Break lineBreak)
    (further : TakesBasic text rest) : TakesBasic (lineBreak ++ text) rest := by
  cases broken with
  | feed => exact takesBasic_char (.inl rfl) (by decide) (fun same => by cases same) further
  | returned =>
      intro skipping
      rw [List.cons_append, List.singleton_append, longBasicString?.eq_8]
      split
      · exact further true
      · obtain ⟨content, read⟩ := further false
        rw [read]
        exact ⟨_, rfl⟩

theorem skipSpaces_blanks {blanks : List Char} (blank : Blanks blanks) (text : List Char) :
    skipSpaces (blanks ++ text) = skipSpaces text :=
  List.dropWhile_append_of_pos blank

theorem skipSpaces_visible {c : Char} (visible : isSpace c = false) (text : List Char) :
    skipSpaces (c :: text) = c :: text :=
  List.dropWhile_cons_of_neg (by rw [visible]; exact Bool.false_ne_true)

theorem eq_of_isSpace {c : Char} (space : isSpace c = true) : c = ' ' ∨ c = '\t' :=
  (Bool.or_eq_true_iff.mp space).imp of_decide_eq_true of_decide_eq_true

theorem takesBasic_blanks {blanks text rest : List Char} (blank : Blanks blanks)
    (further : TakesBasic text rest) : TakesBasic (blanks ++ text) rest := by
  induction blanks with
  | nil => exact further
  | cons c blanks ih =>
      obtain ⟨space, others⟩ := List.forall_mem_cons.mp blank
      rcases eq_of_isSpace space with rfl | rfl
      · exact takesBasic_char (.inr rfl) (by decide) (fun same => by cases same) (ih others)
      · exact takesBasic_char (.inr rfl) (by decide) (fun same => by cases same) (ih others)

theorem Break.exists_cons {lineBreak : List Char} (broken : Break lineBreak) (text : List Char) :
    ∃ c cs, lineBreak ++ text = c :: cs ∧ (c = '\n' ∨ c = '\r') ∧
      readLineBreak? (lineBreak ++ text) = some text := by
  cases broken with
  | feed => exact ⟨_, _, rfl, .inl rfl, rfl⟩
  | returned => exact ⟨_, _, rfl, .inr rfl, rfl⟩

theorem takesBasic_continued {blanks lineBreak text rest : List Char} (blank : Blanks blanks)
    (broken : Break lineBreak) (further : TakesBasic text rest) :
    TakesBasic ('\\' :: (blanks ++ lineBreak) ++ text) rest := by
  intro skipping
  obtain ⟨content, read⟩ := takesBasic_blanks blank (takesBasic_break broken further) true
  obtain ⟨mark, others, marked, feed, ended⟩ := broken.exists_cons text
  have visible : isSpace mark = false := by rcases feed with rfl | rfl <;> decide
  have endsLine : endsLine (blanks ++ (lineBreak ++ text)) = true := by
    unfold endsLine
    rw [skipSpaces_blanks blank, marked, skipSpaces_visible visible, ← marked, ended]
    rfl
  obtain ⟨letter, more, whole, unescaped⟩ : ∃ letter more,
      blanks ++ (lineBreak ++ text) = letter :: more ∧
        letter ∈ [' ', '\t', '\n', '\r'] := by
    cases blanks with
    | nil =>
        refine ⟨mark, others, marked, ?_⟩
        rcases feed with rfl | rfl <;> decide
    | cons c blanks =>
        refine ⟨c, _, rfl, ?_⟩
        rcases eq_of_isSpace (blank c List.mem_cons_self) with rfl | rfl <;> decide
  have unknown : shortEscape? letter = none ∧ letter ≠ 'u' ∧ letter ≠ 'U' := by
    revert unescaped
    simp only [List.mem_cons, List.not_mem_nil, or_false]
    rintro (rfl | rfl | rfl | rfl) <;> decide
  rw [whole] at endsLine read
  refine ⟨content, ?_⟩
  rw [List.cons_append, List.append_assoc, whole, longBasicString?.eq_7, unknown.1]
  · dsimp only
    rw [if_pos endsLine, read]
  · exact fun _ _ _ _ _ same => absurd same unknown.2.1
  · exact fun _ _ _ _ _ _ _ _ _ same => absurd same unknown.2.2

theorem takesBasic_unit {unit text rest : List Char} (written : BasicUnit unit)
    (further : TakesBasic text rest) : TakesBasic (unit ++ text) rest := by
  cases written with
  | spelled spelled => exact takesBasic_spelled spelled further
  | broken broken => exact takesBasic_break broken further
  | continued blank broken => exact takesBasic_continued blank broken further

theorem BasicUnit.exists_cons {unit : List Char} (written : BasicUnit unit) :
    ∃ c cs, unit = c :: cs ∧ c ≠ '"' := by
  cases written with
  | spelled spelled =>
      obtain ⟨c, cs, rfl⟩ := List.exists_cons_of_ne_nil spelled.ne_nil
      exact ⟨c, cs, rfl, fun same => spelled.head?_ne_quote (congrArg some same)⟩
  | broken broken => cases broken <;> exact ⟨_, _, rfl, by decide⟩
  | continued => exact ⟨_, _, rfl, by decide⟩

theorem takesBasic_closing {rest : List Char} (apart : rest.head? ≠ some '"') :
    ∀ count ≤ 2, TakesBasic (List.replicate count '"' ++ '"' :: '"' :: '"' :: rest) rest := by
  have unquoted (others : List Char) : rest = '"' :: others → False := by
    rintro rfl
    exact apart rfl
  intro count few skipping
  match count, few with
  | 0, _ => exact ⟨_, longBasicString?.eq_4 _ _ (fun others => unquoted _) unquoted⟩
  | 1, _ => exact ⟨_, longBasicString?.eq_3 _ _ unquoted⟩
  | 2, _ => exact ⟨_, longBasicString?.eq_2 _ _⟩

theorem takesBasic_longText {text rest : List Char} (written : LongText '"' BasicUnit text)
    (apart : rest.head? ≠ some '"') :
    TakesBasic (text ++ '"' :: '"' :: '"' :: rest) rest :=
  written.reads (fun text => TakesBasic text rest) (takesBasic_closing apart)
    (fun _ single => takesBasic_char (.inr rfl) (by decide) fun _ => single)
    (fun _ _ => takesBasic_unit) fun _ => BasicUnit.exists_cons

theorem takesBasic_of_break {lineBreak text rest : List Char} (broken : Break lineBreak)
    (taken : TakesBasic (lineBreak ++ text) rest) : TakesBasic text rest := by
  intro skipping
  obtain ⟨content, read⟩ := taken skipping
  have stepped : longBasicString? skipping (lineBreak ++ text) =
      if skipping then longBasicString? true text
      else (longBasicString? false text).map fun read => ('\n' :: read.1, read.2) := by
    cases broken with
    | feed =>
        rw [List.singleton_append, longBasicString?_char (by decide) (by decide)
          fun same => by cases same]
        cases skipping <;> rfl
    | returned => exact longBasicString?.eq_8 skipping text
  rw [stepped] at read
  cases skipping with
  | true => exact ⟨content, read⟩
  | false =>
      obtain ⟨⟨others, _⟩, further, same⟩ := Option.map_eq_some_iff.mp read
      cases same
      exact ⟨others, further⟩

theorem skipFirstBreak_cases (text : List Char) :
    skipFirstBreak text = text ∨
      ∃ lineBreak, Break lineBreak ∧ text = lineBreak ++ skipFirstBreak text := by
  unfold skipFirstBreak readLineBreak?
  split
  · exact .inr ⟨_, .feed, rfl⟩
  · exact .inr ⟨_, .returned, rfl⟩
  · exact .inl rfl

theorem exists_readString?_longBasic {text rest : List Char}
    (written : LongText '"' BasicUnit text) (apart : rest.head? ≠ some '"') :
    ∃ content, readString? ('"' :: '"' :: '"' :: (text ++ '"' :: '"' :: '"' :: rest)) =
      some (content, rest) := by
  have taken := takesBasic_longText written apart
  rcases skipFirstBreak_cases (text ++ '"' :: '"' :: '"' :: rest) with same | ⟨_, broken, whole⟩
  · rw [readString?.eq_1, same]
    exact taken false
  · rw [readString?.eq_1]
    rw [whole] at taken
    exact takesBasic_of_break broken taken false

def TakesLiteral (text rest : List Char) : Prop :=
  ∃ content, longLiteralString? text = some (content, rest)

theorem longLiteralString?_char {c : Char} {text : List Char} (unreturned : c ≠ '\r')
    (single : c = '\'' → ¬['\'', '\''] <+: text) :
    longLiteralString? (c :: text) =
      if c = '\n' || isPlain c then
        (longLiteralString? text).map fun read => (c :: read.1, read.2)
      else none := by
  apply longLiteralString?.eq_6
  · rintro _ same rfl
    exact single same (List.prefix_append ['\'', '\''] _)
  · rintro _ same rfl
    exact single same (List.prefix_append ['\'', '\''] _)
  · rintro _ same rfl
    exact single same (List.prefix_append ['\'', '\''] _)
  · exact fun _ same => absurd same unreturned

theorem takesLiteral_char {c : Char} {text rest : List Char} (known : c = '\n' ∨ isPlain c = true)
    (single : c = '\'' → ¬['\'', '\''] <+: text) (further : TakesLiteral text rest) :
    TakesLiteral (c :: text) rest := by
  obtain ⟨content, read⟩ := further
  refine ⟨c :: content, ?_⟩
  have unreturned : c ≠ '\r' := by
    rintro rfl
    rcases known with same | plain
    · cases same
    · cases plain
  have kept : (decide (c = '\n') || isPlain c) = true := by
    rw [Bool.or_eq_true, decide_eq_true_iff]
    exact known
  rw [longLiteralString?_char unreturned single, if_pos kept, read]
  rfl

theorem longLiteralString?_break {lineBreak : List Char} (broken : Break lineBreak)
    (text : List Char) : longLiteralString? (lineBreak ++ text) =
      (longLiteralString? text).map fun read => ('\n' :: read.1, read.2) := by
  cases broken with
  | feed => exact longLiteralString?_char (by decide) fun same => by cases same
  | returned => exact longLiteralString?.eq_5 text

theorem takesLiteral_unit {unit text rest : List Char} (written : LiteralUnit unit)
    (further : TakesLiteral text rest) : TakesLiteral (unit ++ text) rest := by
  cases written with
  | plain plain unquoted =>
      exact takesLiteral_char (.inr plain) (fun same => absurd same unquoted) further
  | broken broken =>
      obtain ⟨content, read⟩ := further
      refine ⟨'\n' :: content, ?_⟩
      rw [longLiteralString?_break broken, read]
      rfl

theorem LiteralUnit.exists_cons {unit : List Char} (written : LiteralUnit unit) :
    ∃ c cs, unit = c :: cs ∧ c ≠ '\'' := by
  cases written with
  | plain _ unquoted => exact ⟨_, _, rfl, unquoted⟩
  | broken broken => cases broken <;> exact ⟨_, _, rfl, by decide⟩

theorem takesLiteral_closing {rest : List Char} (apart : rest.head? ≠ some '\'') :
    ∀ count ≤ 2,
      TakesLiteral (List.replicate count '\'' ++ '\'' :: '\'' :: '\'' :: rest) rest := by
  have unquoted (others : List Char) : rest = '\'' :: others → False := by
    rintro rfl
    exact apart rfl
  intro count few
  match count, few with
  | 0, _ => exact ⟨_, longLiteralString?.eq_4 _ (fun others => unquoted _) unquoted⟩
  | 1, _ => exact ⟨_, longLiteralString?.eq_3 _ unquoted⟩
  | 2, _ => exact ⟨_, longLiteralString?.eq_2 _⟩

theorem exists_readString?_longLiteral {text rest : List Char}
    (written : LongText '\'' LiteralUnit text) (apart : rest.head? ≠ some '\'') :
    ∃ content, readString? ('\'' :: '\'' :: '\'' :: (text ++ '\'' :: '\'' :: '\'' :: rest)) =
      some (content, rest) := by
  have taken : TakesLiteral (text ++ '\'' :: '\'' :: '\'' :: rest) rest :=
    written.reads (fun text => TakesLiteral text rest) (takesLiteral_closing apart)
      (fun _ single => takesLiteral_char (.inr rfl) fun _ => single)
      (fun _ _ => takesLiteral_unit) fun _ => LiteralUnit.exists_cons
  rcases skipFirstBreak_cases (text ++ '\'' :: '\'' :: '\'' :: rest) with same | ⟨_, broken, whole⟩
  · rw [readString?.eq_3, same]
    exact taken
  · rw [readString?.eq_3]
    rw [whole] at taken
    obtain ⟨content, read⟩ := taken
    rw [longLiteralString?_break broken] at read
    obtain ⟨⟨others, _⟩, further, same⟩ := Option.map_eq_some_iff.mp read
    cases same
    exact ⟨others, further⟩

end CommitCheck.Toml
