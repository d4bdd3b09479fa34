import CommitCheck.Proofs.TomlOutlines
import CommitCheck.Proofs.TomlStrings

set_option autoImplicit false

/-! What is written by the grammar is read, within the limits of the reader. -/

namespace CommitCheck.Toml

theorem isSpace_of_isBareChar {c : Char} (bare : isBareChar c = true) : isSpace c = false := by
  rw [← Bool.not_eq_true]
  intro space
  rcases eq_of_isSpace space with rfl | rfl <;> cases bare

theorem isBareChar_of_isSpace {c : Char} (space : isSpace c = true) : isBareChar c = false := by
  rcases eq_of_isSpace space with rfl | rfl <;> rfl

theorem KeyText.exists_cons {key : String} {text : List Char} (written : KeyText key text) :
    ∃ c cs, text = c :: cs ∧ (isBareChar c = true ∨ c = '"' ∨ c = '\'') := by
  cases written with
  | bare filled chars =>
      obtain ⟨c, cs, rfl⟩ := List.exists_cons_of_ne_nil filled
      exact ⟨c, cs, rfl, .inl (chars c List.mem_cons_self)⟩
  | basic => exact ⟨_, _, rfl, .inr (.inl rfl)⟩
  | literal => exact ⟨_, _, rfl, .inr (.inr rfl)⟩

theorem readKey?_keyText {key : String} {text : List Char} (written : KeyText key text)
    (rest : List Char) (apart : ∀ c ∈ rest.head?, isBareChar c = false) :
    ∃ content, readKey? (text ++ rest) = some (content, rest) ∧ String.ofList content = key := by
  cases written with
  | @bare text filled chars =>
      have stop : rest.takeWhile isBareChar = [] := by
        cases rest with
        | nil => rfl
        | cons c rest =>
            rw [List.takeWhile_cons_of_neg]
            rw [apart c rfl]
            exact Bool.false_ne_true
      obtain ⟨front, behind⟩ := takeWhile_append_of_forall chars rest stop
      obtain ⟨c, cs, rfl⟩ := List.exists_cons_of_ne_nil filled
      have bare := chars c List.mem_cons_self
      have read : readKey? (c :: cs ++ rest) =
          if ((c :: cs ++ rest).takeWhile isBareChar).isEmpty then none
          else some ((c :: cs ++ rest).takeWhile isBareChar,
            (c :: cs ++ rest).dropWhile isBareChar) := by
        apply readKey?.eq_3
        · rintro _ same
          cases (List.cons.inj same).1
          cases bare
        · rintro _ same
          cases (List.cons.inj same).1
          cases bare
      refine ⟨c :: cs, ?_, rfl⟩
      rw [read, front, behind]
      rfl
  | basic basic =>
      refine ⟨_, ?_, rfl⟩
      rw [List.cons_append, List.append_assoc, readKey?.eq_1]
      exact basicString?_basicText basic rest
  | literal literal =>
      refine ⟨_, ?_, rfl⟩
      rw [List.cons_append, List.append_assoc, readKey?.eq_2]
      exact literalString?_literalText literal rest

theorem KeyText.skipSpaces {key : String} {text : List Char} (written : KeyText key text)
    (rest : List Char) : Toml.skipSpaces (text ++ rest) = text ++ rest := by
  obtain ⟨c, cs, rfl, start⟩ := written.exists_cons
  apply skipSpaces_visible
  rcases start with bare | rfl | rfl
  · exact isSpace_of_isBareChar bare
  · rfl
  · rfl

theorem readPath?_pathText {path : List String} {text : List Char} (written : PathText path text)
    {parts : Nat} (few : path.length ≤ parts) {c : Char} (visible : isSpace c = false)
    (undotted : c ≠ '.') (ends : isBareChar c = false) (rest : List Char) :
    readPath? parts (text ++ c :: rest) = some (path, c :: rest) := by
  have apart {after more : List Char} {next : Char} (blank : Blanks after)
      (ends : isBareChar next = false) :
      ∀ first ∈ (after ++ next :: more).head?, isBareChar first = false := by
    intro first start
    cases after with
    | nil =>
        cases start
        exact ends
    | cons space after =>
        cases start
        exact isBareChar_of_isSpace (blank _ List.mem_cons_self)
  induction written generalizing parts with
  | @last key before text after blankBefore written blankAfter =>
      cases parts with
      | zero => cases few
      | succ parts =>
          obtain ⟨content, read, rfl⟩ :=
            readKey?_keyText written (after ++ c :: rest) (apart blankAfter ends)
          rw [readPath?, List.append_assoc, List.append_assoc, skipSpaces_blanks blankBefore,
            written.skipSpaces, read]
          dsimp only
          rw [skipSpaces_blanks blankAfter, skipSpaces_visible visible]
          split
          · next same => exact absurd (List.cons.inj same).1 undotted
          · rfl
  | @next key path before text after more blankBefore written blankAfter _ ih =>
      cases parts with
      | zero => cases few
      | succ parts =>
          obtain ⟨content, read, rfl⟩ :=
            readKey?_keyText written (after ++ '.' :: (more ++ c :: rest))
              (apart blankAfter rfl)
          have further := ih (Nat.le_of_succ_le_succ few)
          rw [readPath?]
          simp only [List.append_assoc, List.cons_append]
          rw [skipSpaces_blanks blankBefore, written.skipSpaces, read]
          dsimp only
          rw [skipSpaces_blanks blankAfter, skipSpaces_visible rfl]
          change Option.map _ (readPath? parts (more ++ c :: rest)) = _
          rw [further]
          rfl

theorem closes_blanks {blanks rest : List Char} (blank : Blanks blanks) (closes : Closes rest) :
    Closes (blanks ++ rest) := by
  induction blanks with
  | nil => exact closes
  | cons c blanks ih =>
      obtain ⟨space, others⟩ := List.forall_mem_cons.mp blank
      exact .space space (ih others)

theorem Tail.closes {tail : List Char} (written : Tail tail) (rest : List Char) :
    Closes (tail ++ '\n' :: rest) := by
  cases written with
  | fed blank comment =>
      rw [List.append_assoc]
      refine closes_blanks blank ?_
      cases comment <;> exact .mark (by decide)
  | returned blank comment =>
      rw [List.append_assoc]
      refine closes_blanks blank ?_
      cases comment <;> exact .mark (by decide)

theorem Filler.closes {filler : List Char} (written : Filler filler) {c : Char}
    (known : c = ',' ∨ c = ']') (rest : List Char) : Closes (filler ++ c :: rest) := by
  cases written with
  | blanks blank =>
      refine closes_blanks blank ?_
      rcases known with rfl | rfl <;> exact .mark (by decide)
  | line tail _ =>
      rw [List.append_assoc]
      exact tail.closes _

theorem skipComment_words {words : List Char} (plain : ∀ c ∈ words, isPlain c = true)
    {rest : List Char} (stop : rest.dropWhile isPlain = rest) :
    skipComment ('#' :: (words ++ rest)) = rest := by
  change (words ++ rest).dropWhile isPlain = rest
  rw [List.dropWhile_append_of_pos plain, stop]

theorem readLineEnd?_tail {tail : List Char} (written : Tail tail) (rest : List Char) :
    readLineEnd? (tail ++ '\n' :: rest) = some rest := by
  unfold readLineEnd?
  cases written with
  | fed blank comment =>
      rw [List.append_assoc, skipSpaces_blanks blank]
      cases comment with
      | missing => rfl
      | words plain =>
          rw [List.cons_append, skipSpaces_visible rfl, skipComment_words plain rfl]
          rfl
  | returned blank comment =>
      rw [List.append_assoc, skipSpaces_blanks blank, List.append_assoc]
      cases comment with
      | missing => rfl
      | words plain =>
          rw [List.cons_append, skipSpaces_visible rfl, skipComment_words plain rfl]
          rfl

theorem skipFiller?_blanks {blanks : List Char} (blank : Blanks blanks) (rest : List Char) :
    skipFiller? false (blanks ++ rest) = skipFiller? false rest := by
  induction blanks with
  | nil => rfl
  | cons c blanks ih =>
      obtain ⟨space, others⟩ := List.forall_mem_cons.mp blank
      rw [← ih others]
      rcases eq_of_isSpace space with rfl | rfl <;> rfl

theorem skipFiller?_words {words : List Char} (plain : ∀ c ∈ words, isPlain c = true)
    (rest : List Char) : skipFiller? true (words ++ rest) = skipFiller? true rest := by
  induction words with
  | nil => rfl
  | cons c words ih =>
      obtain ⟨kept, others⟩ := List.forall_mem_cons.mp plain
      have apart : c ≠ '\n' ∧ c ≠ '\r' := by
        constructor <;> rintro rfl <;> cases kept
      rw [← ih others, List.cons_append, skipFiller?, if_neg apart.1, if_neg (by simp [apart.2]),
        if_pos rfl, if_pos kept]

theorem skipFiller?_tail {tail : List Char} (written : Tail tail) (rest : List Char) :
    skipFiller? false (tail ++ '\n' :: rest) = skipFiller? false rest := by
  cases written with
  | fed blank comment =>
      rw [List.append_assoc, skipFiller?_blanks blank]
      cases comment with
      | missing => rfl
      | words plain => exact skipFiller?_words plain ('\n' :: rest)
  | returned blank comment =>
      rw [List.append_assoc, skipFiller?_blanks blank, List.append_assoc]
      cases comment with
      | missing => rfl
      | words plain => exact skipFiller?_words plain ('\r' :: '\n' :: rest)

theorem skipFiller?_filler {filler : List Char} (written : Filler filler) {c : Char}
    (visible : isSpace c = false) (other : c ∉ ['\n', '\r', '#']) (rest : List Char) :
    skipFiller? false (filler ++ c :: rest) = some (c :: rest) := by
  simp only [List.mem_cons, List.not_mem_nil, or_false, not_or] at other
  have stop : skipFiller? false (c :: rest) = some (c :: rest) := by
    simp [skipFiller?, other, visible]
  induction written with
  | blanks blank => rw [skipFiller?_blanks blank, stop]
  | line tail _ ih => rw [List.append_assoc, List.cons_append, skipFiller?_tail tail, ih]

/-- The reader takes the text off the front of a longer one, and what it makes of it is a value that
later lines cannot add to. -/
structure Readable (read? : List Char → Option (Value × List Char)) (text : List Char) : Prop where
  start : ∃ c cs, text = c :: cs ∧ isSpace c = false ∧ c ∉ ['\n', '\r', '#', ']']
  read : ∀ rest, Closes rest →
    ∃ value, value.Closed ∧ read? (text ++ rest) = some (value, rest)

section

variable {Item : List Char → Prop} {readItem? : List Char → Option (Value × List Char)}

theorem readItems?_item {before item after : List Char} (reads : Readable readItem? item)
    (fillerBefore : Filler before) (fillerAfter : Filler after) {c : Char}
    (known : c = ',' ∨ c = ']') (count : Nat) (rest : List Char) :
    ∃ value, readItems? readItem? (count + 1) (before ++ (item ++ (after ++ c :: rest))) =
      if c = ',' then
        (readItems? readItem? count rest).map fun read => (value :: read.1, read.2)
      else some ([value], rest) := by
  obtain ⟨value, -, read⟩ := reads.read _ (fillerAfter.closes known rest)
  obtain ⟨first, others, rfl, visible, apart⟩ := reads.start
  have ends : isSpace c = false ∧ c ∉ ['\n', '\r', '#'] := by
    rcases known with rfl | rfl <;> decide
  refine ⟨value, ?_⟩
  rw [readItems?, List.cons_append, skipFiller?_filler fillerBefore visible
    (fun member => apart (by revert member; simp; tauto))]
  split
  · next impossible => cases impossible
  · next same =>
      cases same
      exact absurd (by simp) apart
  · next same =>
      cases same
      rw [← List.cons_append, read]
      dsimp only
      rw [skipFiller?_filler fillerAfter ends.1 ends.2]
      rcases known with rfl | rfl <;> rfl

theorem exists_readItems? (reads : ∀ item, Item item → Readable readItem? item)
    {items : List Char} (written : ItemsText Item items) {count : Nat}
    (enough : items.length < count) (rest : List Char) :
    ∃ values, readItems? readItem? count (items ++ ']' :: rest) = some (values, rest) := by
  obtain ⟨count, rfl⟩ := Nat.exists_eq_succ_of_ne_zero (Nat.ne_zero_of_lt enough)
  induction written generalizing count with
  | none filler =>
      refine ⟨[], ?_⟩
      rw [readItems?, skipFiller?_filler filler rfl (by decide)]
      rfl
  | last before item after =>
      obtain ⟨value, read⟩ := readItems?_item (reads _ item) before after (.inr rfl) count rest
      refine ⟨[value], ?_⟩
      simp only [List.append_assoc]
      exact read
  | @next _ _ _ items before item after _ ih =>
      have fewer : items.length < count := by
        simp only [List.length_append, List.length_cons] at enough
        omega
      obtain ⟨count, rfl⟩ := Nat.exists_eq_succ_of_ne_zero (Nat.ne_zero_of_lt fewer)
      obtain ⟨values, further⟩ := ih count fewer
      obtain ⟨value, read⟩ := readItems?_item (reads _ item) before after (.inl rfl) _ _
      refine ⟨value :: values, ?_⟩
      simp only [List.append_assoc, List.cons_append]
      rw [read, if_pos rfl, further]
      rfl

theorem PathText.trim {path : List String} {text : List Char} (written : PathText path text) :
    ∃ c cs, PathText path (c :: cs) ∧ (isBareChar c = true ∨ c = '"' ∨ c = '\'') ∧
      ∀ rest, skipSpaces (text ++ rest) = c :: cs ++ rest := by
  have unpadded : Blanks [] := List.forall_mem_nil _
  cases written with
  | @last _ blanks text after before key blank =>
      have trimmed := PathText.last unpadded key blank
      obtain ⟨c, cs, rfl, start⟩ := key.exists_cons
      refine ⟨c, cs ++ after, trimmed, start, ?_⟩
      intro rest
      rw [List.append_assoc, skipSpaces_blanks before, List.append_assoc, key.skipSpaces]
      simp only [List.append_assoc, List.cons_append]
  | @next _ _ blanks text after more before key blank further =>
      have trimmed := PathText.next unpadded key blank further
      obtain ⟨c, cs, rfl, start⟩ := key.exists_cons
      refine ⟨c, cs ++ (after ++ '.' :: more), trimmed, start, ?_⟩
      intro rest
      rw [List.append_assoc, skipSpaces_blanks before, List.append_assoc, key.skipSpaces]
      simp only [List.append_assoc, List.cons_append]

theorem AssignmentText.trim {path : List String} {text : List Char}
    (written : AssignmentText .reader Item path text) :
    ∃ c cs, AssignmentText .reader Item path (c :: cs) ∧
      (isBareChar c = true ∨ c = '"' ∨ c = '\'') ∧
      ∀ rest, skipSpaces (text ++ rest) = c :: cs ++ rest := by
  cases written with
  | @mk key blanks item keyWritten few blank itemWritten =>
      obtain ⟨c, cs, trimmed, start, skipped⟩ := keyWritten.trim
      refine ⟨c, cs ++ '=' :: (blanks ++ item), .mk trimmed few blank itemWritten, start, ?_⟩
      intro rest
      rw [List.append_assoc, skipped]
      simp only [List.append_assoc, List.cons_append]

theorem exists_readAssignment? (reads : ∀ item, Item item → Readable readItem? item)
    {path : List String} {text : List Char} (written : AssignmentText .reader Item path text)
    (rest : List Char) (closes : Closes rest) :
    ∃ value, value.Closed ∧ readAssignment? readItem? (text ++ rest) = some ((path, value), rest) := by
  cases written with
  | @mk key blanks item keyWritten few blank itemWritten =>
      obtain ⟨value, closed, read⟩ := (reads _ itemWritten).read rest closes
      obtain ⟨first, others, rfl, visible, -⟩ := (reads item itemWritten).start
      refine ⟨value, closed, ?_⟩
      unfold readAssignment?
      rw [List.append_assoc, List.cons_append,
        readPath?_pathText keyWritten few rfl (by decide) rfl, List.append_assoc]
      change Option.map _ (readItem? (skipSpaces (blanks ++ (first :: others ++ rest)))) = _
      rw [skipSpaces_blanks blank, List.cons_append, skipSpaces_visible visible,
        ← List.cons_append, read]
      rfl

theorem exists_readAssignments? (reads : ∀ item, Item item → Readable readItem? item)
    {paths : List (List String)} {text : List Char}
    (written : AssignmentsText .reader Item paths text) {count : Nat} (enough : text.length < count)
    (rest : List Char) :
    ∃ assignments : List (List String × Value), assignments.map Prod.fst = paths ∧
      (∀ assignment ∈ assignments, assignment.2.Closed) ∧
      readAssignments? readItem? count (text ++ '\x7d' :: rest) = some (assignments, rest) := by
  obtain ⟨count, rfl⟩ := Nat.exists_eq_succ_of_ne_zero (Nat.ne_zero_of_lt enough)
  induction written generalizing count with
  | @last path text after written blank =>
      obtain ⟨value, closed, read⟩ := exists_readAssignment? reads written (after ++ '\x7d' :: rest)
        (closes_blanks blank (.mark (by decide)))
      refine ⟨[(path, value)], rfl, by simpa using closed, ?_⟩
      rw [readAssignments?, List.append_assoc, read]
      dsimp only
      rw [skipSpaces_blanks blank, skipSpaces_visible rfl]
      rfl
  | @next path paths text after more written blank _ ih =>
      have fewer : more.length < count := by
        simp only [List.length_append, List.length_cons] at enough
        omega
      obtain ⟨count, rfl⟩ := Nat.exists_eq_succ_of_ne_zero (Nat.ne_zero_of_lt fewer)
      obtain ⟨value, closed, read⟩ := exists_readAssignment? reads written
        (after ++ ',' :: (more ++ '\x7d' :: rest)) (closes_blanks blank (.mark (by decide)))
      obtain ⟨assignments, same, others, further⟩ := ih count fewer
      refine ⟨(path, value) :: assignments, by rw [List.map_cons, same],
        List.forall_mem_cons.mpr ⟨closed, others⟩, ?_⟩
      rw [readAssignments?, List.append_assoc, List.append_assoc, List.cons_append, read]
      dsimp only
      rw [skipSpaces_blanks blank, skipSpaces_visible rfl]
      change Option.map _ (readAssignments? readItem? (count + 1) (more ++ '\x7d' :: rest)) = _
      rw [further]
      rfl

theorem AssignmentsText.trim {paths : List (List String)} {text : List Char}
    (written : AssignmentsText .reader Item paths text) :
    ∃ c cs, AssignmentsText .reader Item paths (c :: cs) ∧
      (isBareChar c = true ∨ c = '"' ∨ c = '\'') ∧
      ∀ rest, skipSpaces (text ++ rest) = c :: cs ++ rest := by
  cases written with
  | @last _ _ after written blank =>
      obtain ⟨c, cs, trimmed, start, skipped⟩ := written.trim
      refine ⟨c, cs ++ after, .last trimmed blank, start, ?_⟩
      intro rest
      rw [List.append_assoc, skipped]
      simp only [List.append_assoc, List.cons_append]
  | @next _ _ _ after more written blank further =>
      obtain ⟨c, cs, trimmed, start, skipped⟩ := written.trim
      refine ⟨c, cs ++ (after ++ ',' :: more), .next trimmed blank further, start, ?_⟩
      intro rest
      rw [List.append_assoc, skipped]
      simp only [List.append_assoc, List.cons_append]

theorem exists_readInlineTable? (reads : ∀ item, Item item → Readable readItem? item)
    {paths : List (List String)} {text : List Char}
    (written : AssignmentsText .reader Item paths text)
    (consistent : Consistent .empty [] (paths.map .assignment)) (rest : List Char) :
    ∃ entries, readInlineTable? readItem? (text ++ '\x7d' :: rest) =
      some (.table .inline entries, rest) := by
  obtain ⟨c, cs, trimmed, start, skipped⟩ := written.trim
  have unclosed : c ≠ '\x7d' := by
    rintro rfl
    rcases start with bare | same | same
    · cases bare
    · cases same
    · cases same
  have bounded : (c :: cs).length < (c :: cs ++ '\x7d' :: rest).length := by simp
  obtain ⟨assignments, rfl, closed, read⟩ := exists_readAssignments? reads trimmed bounded rest
  obtain ⟨entries, assigned⟩ := Entries.exists_ofAssignments? closed (by
    rw [List.map_map] at consistent
    exact consistent)
  refine ⟨entries, ?_⟩
  unfold readInlineTable?
  rw [skipped]
  split
  · next same => exact absurd (List.cons.inj same).1 unclosed
  · rw [read]
    dsimp only
    rw [assigned]
    rfl

end

/-! ### Values -/

theorem readValue?_scalar (levels : Nat) {c : Char} {cs : List Char}
    (scalar : isScalarChar c = true) : readValue? levels (c :: cs) = readScalar? (c :: cs) := by
  have apart : c ≠ '[' ∧ c ≠ '\x7b' ∧ c ≠ '"' ∧ c ≠ '\'' := by
    refine ⟨?_, ?_, ?_, ?_⟩ <;> rintro rfl <;> cases scalar
  obtain ⟨bracket, brace, quote, apostrophe⟩ := apart
  unfold readValue?
  split <;> simp_all

theorem readable_scalar (levels : Nat) {text : List Char} (value : Value)
    (start : ∃ c cs, text = c :: cs ∧ isScalarChar c = true) (closed : value.Closed)
    (read : ∀ rest, Closes rest → readScalar? (text ++ rest) = some (value, rest)) :
    Readable (readValue? levels) text := by
  obtain ⟨c, cs, rfl, scalar⟩ := start
  refine ⟨⟨c, cs, rfl, ?_, ?_⟩, fun rest closes => ⟨value, closed, ?_⟩⟩
  · rw [← Bool.not_eq_true]
    intro space
    rw [isScalarChar_of_isSpace space] at scalar
    cases scalar
  · simp only [List.mem_cons, List.not_mem_nil, or_false]
    rintro (rfl | rfl | rfl | rfl) <;> cases scalar
  · rw [← read rest closes]
    exact readValue?_scalar levels scalar

theorem Closes.head?_ne {rest : List Char} (closes : Closes rest) {c : Char}
    (quote : c = '"' ∨ c = '\'') : rest.head? ≠ some c := by
  cases closes with
  | ended => exact fun impossible => by cases impossible
  | mark known =>
      intro same
      cases same
      revert known
      rcases quote with rfl | rfl <;> decide
  | space space =>
      intro same
      cases same
      rcases quote with rfl | rfl <;> cases space

theorem readValue?_quote (levels : Nat) {c : Char} (quote : c = '"' ∨ c = '\'') (cs : List Char) :
    readValue? levels (c :: cs) =
      (readString? (c :: cs)).map fun read => (.string (String.ofList read.1), read.2) := by
  rcases quote with rfl | rfl <;> cases levels <;> rfl

theorem readable_string (levels : Nat) {c : Char} {text : List Char} (quote : c = '"' ∨ c = '\'')
    (read : ∀ rest, rest.head? ≠ some c →
      ∃ content, readString? (c :: (text ++ rest)) = some (content, rest)) :
    Readable (readValue? levels) (c :: text) := by
  refine ⟨⟨c, text, rfl, ?_, ?_⟩, fun rest closes => ?_⟩
  · rcases quote with rfl | rfl <;> rfl
  · rcases quote with rfl | rfl <;> decide
  · obtain ⟨content, read⟩ := read rest (closes.head?_ne quote)
    refine ⟨.string (String.ofList content), ⟨rfl, rfl⟩, ?_⟩
    rw [List.cons_append, readValue?_quote levels quote, read]
    rfl

theorem readable_atom (levels : Nat) {text : List Char} (written : Atom .reader text) :
    Readable (readValue? levels) text := by
  cases written with
  | boolean value =>
      cases value with
      | true =>
          exact readable_scalar levels (.boolean true) ⟨'t', "rue".toList, rfl, rfl⟩
            ⟨rfl, rfl⟩ fun rest closes => readScalar?_of_scalar (by simp; decide) rfl closes
      | false =>
          exact readable_scalar levels (.boolean false) ⟨'f', "alse".toList, rfl, rfl⟩
            ⟨rfl, rfl⟩ fun rest closes => readScalar?_of_scalar (by simp; decide) rfl closes
  | @integer text number written fits =>
      have numeric := numeric_of_integerText written
      refine readable_scalar levels (.integer number) numeric.exists_scalar ⟨rfl, rfl⟩
        fun rest closes => ?_
      rw [readScalar?_of_scalar numeric.scalar (date?_of_unmarked numeric.unmarked) closes,
        scalar?_of_integerText written fits]
      rfl
  | @float text number written fits =>
      obtain ⟨start, chars, undated⟩ := written.scalar
      refine readable_scalar levels (.float number) start ⟨rfl, rfl⟩ fun rest closes => ?_
      rw [readScalar?_of_scalar chars undated closes, scalar?_of_floatText written fits]
      rfl
  | @moment text moment written =>
      exact readable_scalar levels (.moment moment) written.exists_scalar ⟨rfl, rfl⟩
        fun rest closes => readScalar?_of_momentText written closes
  | @basic text content written =>
      refine readable_string levels (.inl rfl) fun rest apart => ⟨content, ?_⟩
      rw [List.append_assoc]
      exact readString?_basicText written apart
  | @literal text written =>
      refine readable_string levels (.inr rfl) fun rest apart => ⟨text, ?_⟩
      rw [List.append_assoc]
      exact readString?_literalText written apart
  | longBasic written =>
      refine readable_string levels (.inl rfl) fun rest apart => ?_
      simp only [List.cons_append, List.append_assoc, List.nil_append]
      exact exists_readString?_longBasic written apart
  | longLiteral written =>
      refine readable_string levels (.inr rfl) fun rest apart => ?_
      simp only [List.cons_append, List.append_assoc, List.nil_append]
      exact exists_readString?_longLiteral written apart

theorem readable_value {levels bound : Nat} {text : List Char}
    (written : ValueText .reader levels text) (deep : levels ≤ bound) :
    Readable (readValue? bound) text := by
  induction levels generalizing bound text with
  | zero => exact readable_atom bound written
  | succ levels ih =>
      obtain ⟨bound, rfl⟩ := Nat.exists_eq_succ_of_ne_zero (Nat.ne_zero_of_lt deep)
      have reads (item : List Char) (written : ValueText .reader levels item) :
          Readable (readValue? bound) item := ih written (Nat.le_of_succ_le_succ deep)
      cases written with
      | atom written => exact readable_atom (bound + 1) written
      | @list items written =>
          refine ⟨⟨'[', _, rfl, rfl, by decide⟩, fun rest closes => ?_⟩
          have bounded : items.length < (items ++ ']' :: rest).length + 1 := by simp
          obtain ⟨values, read⟩ := exists_readItems? reads written bounded rest
          refine ⟨.array values, ⟨rfl, rfl⟩, ?_⟩
          rw [List.cons_append, List.append_assoc, List.singleton_append]
          change Option.map _ (readItems? (readValue? bound) _ (items ++ ']' :: rest)) = _
          rw [read]
          rfl
      | @emptyTable blanks blank =>
          refine ⟨⟨'\x7b', _, rfl, rfl, by decide⟩, fun rest closes =>
            ⟨.table .inline [], ⟨rfl, rfl⟩, ?_⟩⟩
          rw [List.cons_append, List.append_assoc, List.singleton_append]
          change readInlineTable? (readValue? bound) (blanks ++ '\x7d' :: rest) = _
          unfold readInlineTable?
          rw [skipSpaces_blanks blank, skipSpaces_visible rfl]
          rfl
      | @table paths text written consistent =>
          refine ⟨⟨'\x7b', _, rfl, rfl, by decide⟩, fun rest closes => ?_⟩
          obtain ⟨entries, read⟩ := exists_readInlineTable? reads written consistent rest
          refine ⟨.table .inline entries, ⟨rfl, rfl⟩, ?_⟩
          rw [List.cons_append, List.append_assoc, List.singleton_append]
          exact read

/-! ### Lines -/

theorem readLine?_tail {tail : List Char} (written : Tail tail) (rest : List Char) :
    readLine? (tail ++ '\n' :: rest) = some (.nothing, rest) := by
  unfold readLine?
  cases written with
  | fed blank comment =>
      rw [List.append_assoc, skipSpaces_blanks blank]
      cases comment with
      | missing => rfl
      | words plain =>
          have ended := readLineEnd?_tail (.fed (List.forall_mem_nil _) (.words plain)) rest
          change Option.map _ (readLineEnd? ([] ++ ('#' :: _) ++ '\n' :: rest)) = _
          rw [ended]
          rfl
  | returned blank comment =>
      rw [List.append_assoc, skipSpaces_blanks blank]
      cases comment with
      | missing => rfl
      | words plain =>
          have ended := readLineEnd?_tail (.returned (List.forall_mem_nil _) (.words plain)) rest
          change Option.map _ (readLineEnd? ([] ++ ('#' :: _ ++ ['\r']) ++ '\n' :: rest)) = _
          rw [ended]
          rfl

theorem PathText.head?_ne {path : List String} {text : List Char} (written : PathText path text)
    (rest : List Char) : (text ++ rest).head? ≠ some '[' := by
  have started {blanks text more : List Char} {key : String} (blank : Blanks blanks)
      (written : KeyText key text) : (blanks ++ (text ++ more)).head? ≠ some '[' := by
    cases blanks with
    | nil =>
        obtain ⟨c, cs, rfl, start⟩ := written.exists_cons
        intro same
        cases same
        rcases start with bare | same | same
        · cases bare
        · cases same
        · cases same
    | cons c blanks =>
        intro same
        cases same
        cases blank '[' List.mem_cons_self
  cases written with
  | last before key after =>
      rw [List.append_assoc, List.append_assoc]
      exact started before key
  | next before key after further =>
      rw [List.append_assoc, List.append_assoc]
      exact started before key

theorem readLine?_element {cs tail rest : List Char} {path : List String}
    (opened : skipSpaces cs = '[' :: '[' :: tail)
    (read : readPath? nestingLimit tail = some (path, ']' :: ']' :: rest)) :
    readLine? cs = (readLineEnd? rest).map fun rest => (.element path, rest) := by
  unfold readLine?
  rw [opened]
  simp only [read]

theorem readLine?_header {cs tail rest : List Char} {path : List String}
    (opened : skipSpaces cs = '[' :: tail) (apart : tail.head? ≠ some '[')
    (read : readPath? nestingLimit tail = some (path, ']' :: rest)) :
    readLine? cs = (readLineEnd? rest).map fun rest => (.header path, rest) := by
  unfold readLine?
  rw [opened]
  split
  case h_6 _ same =>
    cases same
    simp only [read]
  case h_5 same =>
    cases same
    exact absurd rfl apart
  all_goals simp_all

theorem readLine?_assignment {cs rest : List Char} {path : List String} {value : Value}
    (read : readAssignment? (readValue? nestingLimit) (skipSpaces cs) =
      some ((path, value), rest)) :
    readLine? cs = (readLineEnd? rest).map fun rest => (.assignment path value, rest) := by
  unfold readLine?
  split
  case h_7 => rw [read]
  all_goals
    next same =>
      rw [same] at read
      cases read

/-- A line that is written is read as one that is about the same. -/
theorem exists_readLine? {form : Form} {text : List Char} (written : LineText .reader form text)
    (rest : List Char) :
    ∃ line, readLine? (text ++ '\n' :: rest) = some (line, rest) ∧ line.form = form ∧
      ∀ path value, line = .assignment path value → value.Closed := by
  have ended {tail : List Char} (written : Tail tail) (line : Line) :
      (readLineEnd? (tail ++ '\n' :: rest)).map (fun rest => (line, rest)) = some (line, rest) := by
    rw [readLineEnd?_tail written]
    rfl
  cases written with
  | nothing tail => exact ⟨_, readLine?_tail tail rest, rfl, fun _ _ same => by cases same⟩
  | @header path blanks key tail blank keyWritten few tailWritten =>
      refine ⟨.header path, ?_, rfl, fun _ _ same => by cases same⟩
      rw [← ended tailWritten]
      refine @readLine?_header _ (key ++ ']' :: (tail ++ '\n' :: rest)) _ _ ?_ ?_ ?_
      · simp only [List.append_assoc, List.cons_append]
        rw [skipSpaces_blanks blank, skipSpaces_visible rfl]
      · exact keyWritten.head?_ne _
      · exact readPath?_pathText keyWritten few rfl (by decide) rfl _
  | @element path blanks key tail blank keyWritten few tailWritten =>
      refine ⟨.element path, ?_, rfl, fun _ _ same => by cases same⟩
      rw [← ended tailWritten]
      refine @readLine?_element _ (key ++ ']' :: ']' :: (tail ++ '\n' :: rest)) _ _ ?_ ?_
      · simp only [List.append_assoc, List.cons_append]
        rw [skipSpaces_blanks blank, skipSpaces_visible rfl]
      · exact readPath?_pathText keyWritten few rfl (by decide) rfl _
  | @assignment path levels text tail written deep tailWritten =>
      obtain ⟨c, cs, trimmed, -, skipped⟩ := written.trim
      obtain ⟨value, closed, read⟩ := exists_readAssignment?
        (fun _ written => readable_value written deep) trimmed (tail ++ '\n' :: rest)
        (tailWritten.closes rest)
      refine ⟨.assignment path value, ?_, rfl, fun _ _ same => by cases same; exact closed⟩
      rw [← ended tailWritten]
      apply readLine?_assignment
      rw [List.append_assoc, skipped]
      exact read

end CommitCheck.Toml
