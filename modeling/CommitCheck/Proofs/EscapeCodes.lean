import CommitCheck.Proofs.LineFilling
import CommitCheck.Proofs.Reports
import CommitCheck.Proofs.SummaryGrammar
import CommitCheck.Proofs.Lines

set_option autoImplicit false

/-! Colour. A coloured report is the plain report with escape codes put into it, section by section and
line by line. Nothing that is laid out in columns or lines takes the codes into account. -/

namespace CommitCheck

namespace Text

open Summary (readChar? readRun? readChar?_eq_some_iff readRun?_append exists_of_readRun?)

/-- An escape code: the escape character, a bracket, digits and the letter `m`. -/
inductive IsCode : List Char → Prop where
  | digits {digits : List Char} : digits ≠ [] → (∀ c ∈ digits, c.isDigit = true) →
      IsCode ('\x1b' :: '[' :: (digits ++ ['m']))

def readCode? (cs : List Char) : Option (List Char) := do
  let rest ← readChar? '\x1b' cs
  let rest ← readChar? '[' rest
  let rest ← readRun? Char.isDigit rest
  readChar? 'm' rest

theorem readCode?_append {code : List Char} (isCode : IsCode code) (rest : List Char) :
    readCode? (code ++ rest) = some rest := by
  cases isCode with
  | @digits digits nonempty isDigit =>
      have escape : readChar? '\x1b' ('\x1b' :: '[' :: (digits ++ ['m']) ++ rest) =
          some ('[' :: (digits ++ 'm' :: rest)) := by
        simp [readChar?]
      have bracket : readChar? '[' ('[' :: (digits ++ 'm' :: rest)) = some (digits ++ 'm' :: rest) :=
        readChar?_eq_some_iff.mpr rfl
      have number : readRun? Char.isDigit (digits ++ 'm' :: rest) = some ('m' :: rest) :=
        readRun?_append nonempty isDigit (by simp)
      unfold readCode?
      rw [escape]
      simp only [Option.bind_eq_bind, Option.bind_some, bracket, number]
      exact readChar?_eq_some_iff.mpr rfl

theorem exists_of_readCode? {cs rest : List Char} (read : readCode? cs = some rest) :
    ∃ code, IsCode code ∧ cs = code ++ rest := by
  obtain ⟨afterEscape, readEscape, step⟩ := Option.bind_eq_some_iff.mp read
  obtain ⟨afterBracket, readBracket, step⟩ := Option.bind_eq_some_iff.mp step
  obtain ⟨afterDigits, readDigits, readEnd⟩ := Option.bind_eq_some_iff.mp step
  obtain rfl := readChar?_eq_some_iff.mp readEscape
  obtain rfl := readChar?_eq_some_iff.mp readBracket
  obtain ⟨digits, nonempty, isDigit, rfl⟩ := exists_of_readRun? readDigits
  obtain rfl := readChar?_eq_some_iff.mp readEnd
  exact ⟨_, .digits nonempty isDigit, by simp⟩

theorem readCode?_of_ne {c : Char} (other : c ≠ '\x1b') (cs : List Char) :
    readCode? (c :: cs) = none := by
  have unread : readChar? '\x1b' (c :: cs) = none := by
    rw [readChar?, if_neg other]
  unfold readCode?
  rw [unread]
  rfl

theorem IsCode.ne_nil {code : List Char} (isCode : IsCode code) : code ≠ [] := by
  cases isCode with
  | digits => exact List.cons_ne_nil _ _

theorem length_lt_of_readCode? {cs rest : List Char} (read : readCode? cs = some rest) :
    rest.length < cs.length := by
  obtain ⟨code, isCode, rfl⟩ := exists_of_readCode? read
  have positive := List.length_pos_iff.mpr isCode.ne_nil
  rw [List.length_append]
  omega

def withoutCodes : List Char → List Char
  | [] => []
  | c :: cs =>
      match _read : readCode? (c :: cs) with
      | some rest => withoutCodes rest
      | none => c :: withoutCodes cs
termination_by cs => cs.length
decreasing_by
  · exact length_lt_of_readCode? _read
  · exact Nat.lt_succ_self cs.length

theorem withoutCodes_code {code : List Char} (isCode : IsCode code) (rest : List Char) :
    withoutCodes (code ++ rest) = withoutCodes rest := by
  have read := readCode?_append isCode rest
  obtain ⟨c, cs, rfl⟩ := List.exists_cons_of_ne_nil isCode.ne_nil
  rw [List.cons_append] at read ⊢
  rw [withoutCodes]
  split
  · rename_i after found
    have same : after = rest := Option.some.inj (found.symm.trans read)
    rw [same]
  · rename_i found
    cases found.symm.trans read

theorem withoutCodes_cons {c : Char} (other : c ≠ '\x1b') (cs : List Char) :
    withoutCodes (c :: cs) = c :: withoutCodes cs := by
  rw [withoutCodes]
  split
  · rename_i found
    cases found.symm.trans (readCode?_of_ne other cs)
  · rfl

/-! ### Texts with codes put into them -/

/-- The second text is the first one, which has no escape character, with escape codes put into it. -/
inductive Painted : List Char → List Char → Prop where
  | nil : Painted [] []
  | char {c : Char} {plain painted : List Char} : c ≠ '\x1b' → Painted plain painted →
      Painted (c :: plain) (c :: painted)
  | code {code plain painted : List Char} : IsCode code → Painted plain painted →
      Painted plain (code ++ painted)

theorem Painted.append {plain painted others othersPainted : List Char}
    (first : Painted plain painted) (second : Painted others othersPainted) :
    Painted (plain ++ others) (painted ++ othersPainted) := by
  induction first with
  | nil => exact second
  | char other _ ih => exact .char other ih
  | code isCode _ ih =>
      rw [List.append_assoc]
      exact .code isCode ih

theorem painted_self {cs : List Char} (clean : '\x1b' ∉ cs) : Painted cs cs := by
  induction cs with
  | nil => exact .nil
  | cons c cs ih =>
      rw [List.mem_cons, not_or] at clean
      exact .char (Ne.symm clean.1) (ih clean.2)

theorem painted_flatMap {α : Type} {items : List α} {plain painted : α → List Char}
    (each : ∀ item ∈ items, Painted (plain item) (painted item)) :
    Painted (items.flatMap plain) (items.flatMap painted) := by
  induction items with
  | nil => exact .nil
  | cons item items ih =>
      obtain ⟨first, others⟩ := List.forall_mem_cons.mp each
      rw [List.flatMap_cons, List.flatMap_cons]
      exact first.append (ih others)

theorem Painted.withoutCodes_eq {plain painted : List Char} (codes : Painted plain painted) :
    withoutCodes painted = plain := by
  induction codes with
  | nil => rw [withoutCodes]
  | char other _ ih => rw [withoutCodes_cons other, ih]
  | code isCode _ ih => rw [withoutCodes_code isCode, ih]

theorem Painted.clean {plain painted : List Char} (codes : Painted plain painted) :
    '\x1b' ∉ plain := by
  induction codes with
  | nil => exact List.not_mem_nil
  | char other _ ih =>
      rw [List.mem_cons, not_or]
      exact ⟨Ne.symm other, ih⟩
  | code _ _ ih => exact ih

theorem IsCode.notMem {code : List Char} (isCode : IsCode code) : '\n' ∉ code := by
  cases isCode with
  | digits _ isDigit =>
      simp only [List.mem_cons, List.mem_append, List.not_mem_nil, or_false]
      rintro (escape | bracket | inDigits | letter)
      · cases escape
      · cases bracket
      · have impossible := isDigit _ inDigits
        cases impossible
      · cases letter

theorem splitLines_append {run : List Char} (whole : '\n' ∉ run) {cs line : List Char}
    {others : List (List Char)} (lines : splitLines cs = line :: others) :
    splitLines (run ++ cs) = (run ++ line) :: others := by
  induction run with
  | nil => exact lines
  | cons c run ih =>
      rw [List.mem_cons, not_or] at whole
      exact splitLines_cons (Ne.symm whole.1) (ih whole.2)

theorem Painted.map_withoutCodes_splitLines {plain painted : List Char}
    (codes : Painted plain painted) :
    (splitLines painted).map withoutCodes = splitLines plain := by
  induction codes with
  | nil => simp [splitLines, withoutCodes]
  | @char c plain painted other _ ih =>
      obtain ⟨line, others, lines⟩ := List.exists_cons_of_ne_nil (splitLines_ne_nil painted)
      by_cases feed : c = '\n'
      · subst feed
        have first (cs : List Char) : splitLines ('\n' :: cs) = [] :: splitLines cs :=
          splitLines_append_feed List.not_mem_nil cs
        rw [first, first, List.map_cons, ih, withoutCodes]
      · rw [lines, List.map_cons] at ih
        rw [splitLines_cons feed lines, splitLines_cons feed ih.symm, List.map_cons,
          withoutCodes_cons other]
  | @code code plain painted isCode _ ih =>
      obtain ⟨line, others, lines⟩ := List.exists_cons_of_ne_nil (splitLines_ne_nil painted)
      rw [lines, List.map_cons] at ih
      rw [splitLines_append isCode.notMem lines, List.map_cons, withoutCodes_code isCode, ih]

end Text

/-- Neither the message nor the commit of the outcome has an escape character. -/
structure Outcome.Escapeless (outcome : Outcome) : Prop where
  message : '\x1b' ∉ outcome.message.toList
  commit : ∀ commit ∈ outcome.commit, '\x1b' ∉ commit.toList

namespace Report

open Text (Painted painted_self painted_flatMap withoutCodes)

theorem isCode_switchOn (number : Attribute) : Text.IsCode (switchOn number) := by
  have digits : (toString number).toList = Nat.toDigits 10 number := Nat.toList_repr
  unfold switchOn
  rw [digits]
  refine .digits Nat.toDigits_ne_nil ?_
  intro c member
  exact Nat.isDigit_of_mem_toDigits (by decide) (by decide) member

theorem painted_paint {cs : List Char} (clean : '\x1b' ∉ cs) (attributes : List Attribute) :
    Painted (paint false attributes cs) (paint true attributes cs) := by
  have switches (painted : List Char) (rest : Painted cs painted) :
      Painted cs (attributes.flatMap switchOn ++ painted) := by
    induction attributes with
    | nil => exact rest
    | cons number attributes ih =>
        rw [List.flatMap_cons, List.append_assoc]
        exact .code (isCode_switchOn number) ih
  have ended : Painted cs (cs ++ switchOn 0) := by
    have last := (painted_self clean).append (.code (isCode_switchOn 0) .nil)
    rw [List.append_nil, List.append_nil] at last
    exact last
  have painted := switches _ ended
  rw [← List.append_assoc] at painted
  exact painted

theorem notMem_padRight {cs : List Char} (clean : '\x1b' ∉ cs) (width : Nat) :
    '\x1b' ∉ Text.padRight width cs := by
  unfold Text.padRight
  rw [List.mem_append, not_or]
  refine ⟨clean, ?_⟩
  intro member
  cases List.eq_of_mem_replicate member

theorem painted_row {code line : List Char} (clean : '\x1b' ∉ code) (cleanLine : '\x1b' ∉ line) :
    Painted (row false code line) (row true code line) := by
  have rest : '\x1b' ∉ ' ' :: line ++ ['\n'] := by
    simp [cleanLine]
  unfold row
  rw [List.append_assoc, List.append_assoc]
  exact (painted_paint (notMem_padRight clean codeWidth) codeStyle).append (painted_self rest)

theorem name_clean (code : FailureCode) : '\x1b' ∉ code.name.toList := by
  cases code <;> decide

theorem explanation_clean (code : FailureCode) : '\x1b' ∉ code.explanation.toList := by
  -- A long literal is opened as the list of its characters; evaluating its bytes takes too long.
  have literal {cs : List Char} (clean : '\x1b' ∉ cs) : '\x1b' ∉ (String.ofList cs).toList := by
    rw [String.toList_ofList]
    exact clean
  have append {first second : String} (clean : '\x1b' ∉ first.toList)
      (others : '\x1b' ∉ second.toList) : '\x1b' ∉ (first ++ second).toList := by
    rw [String.toList_append, List.mem_append, not_or]
    exact ⟨clean, others⟩
  have listing : '\x1b' ∉ CommitType.listing.toList := by decide
  cases code with
  | invalidSummaryFormat =>
      exact append (append (literal (by decide)) (literal (by decide))) (literal (by decide))
  | missingOrInvalidType =>
      exact append (append (append (literal (by decide)) (literal (by decide))) listing)
        (literal (by decide))
  | noSeparatorAfterSummary =>
      exact append (append (literal (by decide)) (literal (by decide))) (literal (by decide))

theorem painted_failureRows (code : FailureCode) :
    Painted (failureRows false code) (failureRows true code) := by
  have clean : ∀ line ∈ Text.wrap explanationWidth code.explanation.toList, '\x1b' ∉ line := by
    intro line member escape
    rcases Text.mem_of_mem_wrap member escape with space | inText
    · cases space
    · exact explanation_clean code inText
  unfold failureRows
  cases lines : Text.wrap explanationWidth code.explanation.toList with
  | nil => exact .nil
  | cons line others =>
      rw [lines, List.forall_mem_cons] at clean
      have later : ∀ line ∈ others, Painted (row false [] line) (row true [] line) :=
        fun line member => painted_row List.not_mem_nil (clean.2 line member)
      exact (painted_row (name_clean code) clean.1).append (painted_flatMap later)

theorem painted_table (failures : List FailureCode) :
    Painted (table false failures) (table true failures) := by
  have rows : Painted (failures.flatMap (failureRows false)) (failures.flatMap (failureRows true)) :=
    painted_flatMap fun code _ => painted_failureRows code
  have heading : '\x1b' ∉ Text.padRight codeWidth "Rule ID".toList ++ " Message\n".toList ++
      List.replicate (codeWidth + 1 + explanationWidth) '-' := by
    decide
  exact (painted_self heading).append (.char (by decide) rows)

variable {outcome : Outcome}

theorem header_clean (clean : outcome.Escapeless) : '\x1b' ∉ header outcome := by
  unfold header Outcome.shortCommit?
  cases given : outcome.commit with
  | none => decide
  | some commit =>
      have short : '\x1b' ∉ commit.toList.take 7 :=
        fun escape => clean.commit commit given (List.mem_of_mem_take escape)
      have before : '\x1b' ∉ "The following commit message (".toList := by decide
      have after : '\x1b' ∉ ") failed validation:".toList := by decide
      simp only [Option.map_some, String.toList_ofList, List.mem_append, not_or]
      exact ⟨⟨before, short⟩, after⟩

theorem trimEnd_clean (clean : outcome.Escapeless) :
    '\x1b' ∉ Text.trimEnd outcome.message.toList := by
  unfold Text.trimEnd
  intro escape
  have inMessage := (List.dropWhile_sublist _).subset (List.mem_reverse.mp escape)
  exact clean.message (List.mem_reverse.mp inMessage)

theorem painted_outcomeSection (clean : outcome.Escapeless) :
    Painted (outcomeSection false outcome) (outcomeSection true outcome) := by
  have gap : Painted "\n\n".toList "\n\n".toList := painted_self (by decide)
  have heading : Painted ('\n' :: paint false headerStyle (header outcome))
      ('\n' :: paint true headerStyle (header outcome)) :=
    .char (by decide) (painted_paint (header_clean clean) headerStyle)
  have message := painted_paint (trimEnd_clean clean) messageStyle
  exact (((heading.append gap).append message).append gap).append (painted_table outcome.failures)

theorem painted_textChars {outcomes : List Outcome}
    (clean : ∀ outcome ∈ outcomes, outcome.Escapeless) :
    Painted (textChars false outcomes) (textChars true outcomes) := by
  apply painted_flatMap
  intro outcome member
  exact painted_outcomeSection (clean outcome (List.mem_filter.mp member).1)

theorem painted_hintChars : Painted (hintChars false) (hintChars true) :=
  painted_paint (by decide) hintStyle

theorem Sections.map_withoutCodes {outcomes : List Outcome} {plain painted : List (List Char)}
    (clean : ∀ outcome ∈ outcomes, outcome.Escapeless)
    (plainSections : Sections false outcomes plain)
    (paintedSections : Sections true outcomes painted) : painted.map withoutCodes = plain := by
  induction plainSections generalizing painted with
  | none =>
      cases paintedSections with
      | none => rfl
  | valid valid _ ih =>
      cases paintedSections with
      | valid _ rest => exact ih (List.forall_mem_cons.mp clean).2 rest
      | invalid invalid _ => exact absurd valid invalid
  | invalid invalid _ ih =>
      cases paintedSections with
      | valid valid _ => exact absurd valid invalid
      | invalid _ rest =>
          obtain ⟨first, others⟩ := List.forall_mem_cons.mp clean
          rw [List.map_cons, (painted_outcomeSection first).withoutCodes_eq, ih others rest]

/-- Without its escape codes a coloured report is the plain report, which has no escape character: the
same outcomes are reported in the same lines. The same holds for the hint. -/
theorem color_adds_codes {outcomes : List Outcome}
    (clean : ∀ outcome ∈ outcomes, outcome.Escapeless) :
    withoutCodes (text true outcomes).toList = (text false outcomes).toList ∧
      '\x1b' ∉ (text false outcomes).toList ∧
      (Text.splitLines (text true outcomes).toList).map withoutCodes =
        Text.splitLines (text false outcomes).toList ∧
      (∃ plain painted, Sections false outcomes plain ∧ Sections true outcomes painted ∧
        (text false outcomes).toList = plain.flatten ∧
        (text true outcomes).toList = painted.flatten ∧ painted.map withoutCodes = plain) ∧
      withoutCodes (hint true).toList = (hint false).toList ∧
      '\x1b' ∉ (hint false).toList := by
  have codes : Painted (text false outcomes).toList (text true outcomes).toList := by
    unfold text
    rw [String.toList_ofList, String.toList_ofList]
    exact painted_textChars clean
  have hintCodes : Painted (hint false).toList (hint true).toList := by
    unfold hint
    rw [String.toList_ofList, String.toList_ofList]
    exact painted_hintChars
  obtain ⟨plain, plainSections, plainText⟩ := exists_sections false outcomes
  obtain ⟨painted, paintedSections, paintedText⟩ := exists_sections true outcomes
  exact ⟨codes.withoutCodes_eq, codes.clean, codes.map_withoutCodes_splitLines,
    ⟨plain, painted, plainSections, paintedSections, plainText, paintedText,
      plainSections.map_withoutCodes clean paintedSections⟩,
    hintCodes.withoutCodes_eq, hintCodes.clean⟩

def threeOutcomes : List Outcome :=
  [{ message := "a\nb \n", commit := some "0123456789"
     failures := [.noSeparatorAfterSummary, .missingOrInvalidType, .noSeparatorAfterSummary] },
    { message := "Merge c", special := some .merge },
    { message := "", failures := [.missingOrInvalidType] }]

theorem color_adds_codes_threeOutcomes :
    (∀ outcome ∈ threeOutcomes, outcome.Escapeless) ∧
      withoutCodes (text true threeOutcomes).toList = (text false threeOutcomes).toList ∧
      '\x1b' ∉ (text false threeOutcomes).toList := by
  have clean : ∀ outcome ∈ threeOutcomes, outcome.Escapeless := by
    intro outcome member
    simp only [threeOutcomes, List.mem_cons, List.not_mem_nil, or_false] at member
    rcases member with rfl | rfl | rfl
    · exact ⟨by decide, by simp⟩
    · exact ⟨by decide, by simp⟩
    · exact ⟨by decide, by simp⟩
  have codes := color_adds_codes clean
  exact ⟨clean, codes.1, codes.2.1⟩

end Report

end CommitCheck
