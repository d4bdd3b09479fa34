import CommitCheck.Proofs.Lines
import CommitCheck.Proofs.SummaryGrammar
import CommitCheck.Validator

set_option autoImplicit false

/-! Which messages the built-in rules accept, and how the rules about the summary and about the
type relate. A message is accepted for its first two lines alone. -/

namespace CommitCheck

namespace Validator

theorem validate_of_special {text : String} {kind : Special}
    (special : Message.special? ⟨text⟩ = some kind) (validator : Validator) :
    validator.validate text = { message := text, special := some kind } := by
  unfold validate
  rw [special]

theorem validate_of_ordinary {text : String} (ordinary : Message.special? ⟨text⟩ = none)
    (validator : Validator) :
    validator.validate text = { message := text, failures := validator.failures ⟨text⟩ } := by
  unfold validate
  rw [ordinary]

theorem mem_failures_iff {validator : Validator} {message : Message} {code : FailureCode} :
    code ∈ validator.failures message ↔
      ∃ rule ∈ validator.rules, rule.code = code ∧ rule.passes message = false := by
  unfold failures
  rw [List.mem_filterMap]
  constructor
  · intro reported
    obtain ⟨rule, member, failed⟩ := reported
    unfold Rule.failure? at failed
    split at failed
    · cases failed
    · rename_i fails
      cases failed
      exact ⟨rule, member, rfl, Bool.eq_false_iff.mpr fails⟩
  · intro failing
    obtain ⟨rule, member, rfl, fails⟩ := failing
    refine ⟨rule, member, ?_⟩
    unfold Rule.failure?
    rw [fails]
    rfl

theorem accepts_iff {validator : Validator} {text : String} :
    validator.accepts text = true ↔
      (∃ kind, Message.special? ⟨text⟩ = some kind) ∨
        ∀ rule ∈ validator.rules, rule.passes ⟨text⟩ = true := by
  unfold accepts Outcome.isValid
  cases special : Message.special? ⟨text⟩ with
  | some kind =>
      rw [validate_of_special special]
      exact iff_of_true rfl (Or.inl ⟨kind, rfl⟩)
  | none =>
      rw [validate_of_ordinary special, List.isEmpty_iff, List.eq_nil_iff_forall_not_mem]
      constructor
      · intro clean
        right
        intro rule member
        by_contra fails
        exact clean rule.code
          (mem_failures_iff.mpr ⟨rule, member, rfl, Bool.eq_false_iff.mpr fails⟩)
      · rintro (⟨kind, impossible⟩ | passes) code reported
        · cases impossible
        · obtain ⟨rule, member, -, fails⟩ := mem_failures_iff.mp reported
          rw [passes rule member] at fails
          cases fails

end Validator

theorem Message.exists_special?_iff {text : String} :
    (∃ kind, Message.special? ⟨text⟩ = some kind) ↔
      Summary.isMerge (Text.firstLine text) = true ∨
        Summary.isRevert (Text.firstLine text) = true := by
  unfold special? isMerge isRevert
  rw [summary_toList]
  cases Summary.isMerge (Text.firstLine text) <;>
    cases Summary.isRevert (Text.firstLine text) <;> simp

theorem Message.type?_eq (text : String) :
    Message.type? ⟨text⟩ = Summary.type? (Text.firstLine text) := by
  unfold type?
  rw [summary_toList]

namespace Rule

theorem summaryFormat_passes (message : Message) :
    summaryFormat.passes message = Summary.conforms message.summary.toList := by
  unfold summaryFormat
  dsimp only

theorem commitType_passes (message : Message) :
    commitType.passes message = message.type?.isSome := by
  unfold commitType
  dsimp only

theorem summaryFormat_passes_iff {text : String} :
    summaryFormat.passes ⟨text⟩ = true ↔
      ∃ parts : Summary.Parts, parts.text = Text.firstLine text := by
  rw [summaryFormat_passes, Message.summary_toList]
  exact Summary.conforms_iff

theorem type?_of_parts {text : String} {parts : Summary.Parts}
    (line : parts.text = Text.firstLine text) :
    Message.type? ⟨text⟩ = if parts.InCapitals then some parts.kind else none := by
  rw [Message.type?_eq, ← line]
  exact Summary.type?_text parts

theorem commitType_passes_iff {text : String} {parts : Summary.Parts}
    (line : parts.text = Text.firstLine text) :
    commitType.passes ⟨text⟩ = true ↔ parts.InCapitals := by
  rw [commitType_passes, type?_of_parts line]
  by_cases capitals : parts.InCapitals
  · simp [capitals]
  · simp [capitals]

theorem separator_passes_iff {text : String} :
    separator.passes ⟨text⟩ = true ↔
      '\n' ∉ text.toList ∨ ∀ c ∈ Text.secondLine text, Text.isBlank c = true := by
  unfold separator
  dsimp only
  by_cases several : '\n' ∈ text.toList
  · rw [Message.line?_one_of_mem several]
    simp [Text.allBlank, several]
  · rw [Message.line?_one_of_notMem several]
    simp [several]

end Rule

theorem Validator.mem_rules_standard {rule : Rule} :
    rule ∈ Validator.standard.rules ↔
      rule = Rule.summaryFormat ∨ rule = Rule.commitType ∨ rule = Rule.separator := by
  change rule ∈ [Rule.summaryFormat, Rule.commitType, Rule.separator] ↔ _
  simp only [List.mem_cons, List.not_mem_nil, or_false]

theorem Validator.missingOrInvalidType_mem_standard {message : Message} :
    .missingOrInvalidType ∈ Validator.standard.failures message ↔
      Rule.commitType.passes message = false := by
  rw [mem_failures_iff]
  constructor
  · intro failing
    obtain ⟨rule, member, code, fails⟩ := failing
    rcases mem_rules_standard.mp member with rfl | rfl | rfl
    · cases code
    · exact fails
    · cases code
  · intro fails
    exact ⟨Rule.commitType, mem_rules_standard.mpr (Or.inr (Or.inl rfl)), rfl, fails⟩

theorem Validator.invalidSummaryFormat_mem_standard {message : Message} :
    .invalidSummaryFormat ∈ Validator.standard.failures message ↔
      Rule.summaryFormat.passes message = false := by
  rw [mem_failures_iff]
  constructor
  · intro failing
    obtain ⟨rule, member, code, fails⟩ := failing
    rcases mem_rules_standard.mp member with rfl | rfl | rfl
    · exact fails
    · cases code
    · cases code
  · intro fails
    exact ⟨Rule.summaryFormat, mem_rules_standard.mpr (Or.inl rfl), rfl, fails⟩

/-! ### Main results -/

/-- The language of the built-in rules. A merge or revert line is enough by itself; any other first
line has to conform with its ticket in capitals, and the second line has to be blank. -/
theorem accepts_standard_iff (text : String) :
    Validator.standard.accepts text = true ↔
      (∃ rest, rest ≠ [] ∧ Text.firstLine text = "Merge ".toList ++ rest) ∨
      (∃ title, title ≠ [] ∧
        Text.firstLine text = "Revert \"".toList ++ (title ++ ['"'])) ∨
      ((∃ parts : Summary.Parts, parts.InCapitals ∧ Text.firstLine text = parts.text) ∧
        ('\n' ∉ text.toList ∨ ∀ c ∈ Text.secondLine text, Text.isBlank c = true)) := by
  rw [Validator.accepts_iff, Message.exists_special?_iff, Summary.isMerge_iff,
    Summary.isRevert_iff, or_assoc]
  refine or_congr Iff.rfl (or_congr Iff.rfl ?_)
  constructor
  · intro passes
    have format := passes _ (Validator.mem_rules_standard.mpr (Or.inl rfl))
    have typed := passes _ (Validator.mem_rules_standard.mpr (Or.inr (Or.inl rfl)))
    have separated := passes _ (Validator.mem_rules_standard.mpr (Or.inr (Or.inr rfl)))
    obtain ⟨parts, line⟩ := Rule.summaryFormat_passes_iff.mp format
    exact ⟨⟨parts, (Rule.commitType_passes_iff line).mp typed, line.symm⟩,
      Rule.separator_passes_iff.mp separated⟩
  · intro ordinary rule member
    obtain ⟨⟨parts, capitals, line⟩, separated⟩ := ordinary
    rcases Validator.mem_rules_standard.mp member with rfl | rfl | rfl
    · exact Rule.summaryFormat_passes_iff.mpr ⟨parts, line.symm⟩
    · exact (Rule.commitType_passes_iff line.symm).mpr capitals
    · exact Rule.separator_passes_iff.mpr separated

/-- The rule about the type follows from the rule about the summary, with the type that the summary
names, exactly for the first lines whose ticket, if they have one, is in capitals. -/
theorem type_follows_format_iff (text : String) :
    ((Rule.summaryFormat.passes ⟨text⟩ = true →
        Rule.commitType.passes ⟨text⟩ = true ∧
          ∀ parts : Summary.Parts, parts.text = Text.firstLine text →
            Message.type? ⟨text⟩ = some parts.kind) ↔
      ∀ parts : Summary.Parts, parts.text = Text.firstLine text → parts.InCapitals) ∧
    (Message.special? ⟨text⟩ = none →
      ((.missingOrInvalidType ∈ (Validator.standard.validate text).failures →
          .invalidSummaryFormat ∈ (Validator.standard.validate text).failures) ↔
        ∀ parts : Summary.Parts, parts.text = Text.firstLine text → parts.InCapitals)) := by
  have follows : (Rule.summaryFormat.passes ⟨text⟩ = true →
      Rule.commitType.passes ⟨text⟩ = true) ↔
        ∀ parts : Summary.Parts, parts.text = Text.firstLine text → parts.InCapitals := by
    constructor
    · intro typed parts line
      exact (Rule.commitType_passes_iff line).mp
        (typed (Rule.summaryFormat_passes_iff.mpr ⟨parts, line⟩))
    · intro capitals format
      obtain ⟨parts, line⟩ := Rule.summaryFormat_passes_iff.mp format
      exact (Rule.commitType_passes_iff line).mpr (capitals parts line)
  constructor
  · constructor
    · intro typed
      exact follows.mp (fun format => (typed format).1)
    · intro capitals format
      refine ⟨follows.mpr capitals format, ?_⟩
      intro parts line
      rw [Rule.type?_of_parts line, if_pos (capitals parts line)]
  · intro ordinary
    rw [Validator.validate_of_ordinary ordinary, Validator.missingOrInvalidType_mem_standard,
      Validator.invalidSummaryFormat_mem_standard, ← follows]
    cases Rule.summaryFormat.passes ⟨text⟩ <;> cases Rule.commitType.passes ⟨text⟩ <;> simp

/-- A ticket with a small letter passes the one rule and hides the type from the other. -/
theorem small_ticket_hides_type :
    Message.special? ⟨"[J#proj1-9][BUG] ok"⟩ = none ∧
      Rule.summaryFormat.passes ⟨"[J#proj1-9][BUG] ok"⟩ = true ∧
      Rule.commitType.passes ⟨"[J#proj1-9][BUG] ok"⟩ = false ∧
      (Validator.standard.validate "[J#proj1-9][BUG] ok").failures = [.missingOrInvalidType] := by
  decide

/-- The grammar of the rule about the summary, written out: `[TYPE] text`, or `[X#ID-1][TYPE] text`
with a capital, letters and digits, and digits. The lines after the first one do not count. -/
theorem Rule.summaryFormat_passes_iff_written (text : String) :
    (summaryFormat.passes ⟨text⟩ = true ↔
      ∃ (kind : CommitType) (subject : List Char), subject ≠ [] ∧
        (Text.firstLine text = '[' :: (kind.token.toList ++ ']' :: ' ' :: subject) ∨
          ∃ letter project number, letter.isUpper = true ∧
            project ≠ [] ∧ (∀ c ∈ project, c.isAlphanum = true) ∧
            number ≠ [] ∧ (∀ c ∈ number, c.isDigit = true) ∧
            Text.firstLine text = '[' :: letter :: '#' :: (project ++ '-' :: (number ++
              ']' :: '[' :: (kind.token.toList ++ ']' :: ' ' :: subject))))) ∧
    summaryFormat.passes ⟨text⟩ =
      summaryFormat.passes ⟨String.ofList (Text.firstLine text)⟩ := by
  constructor
  · rw [summaryFormat_passes_iff]
    constructor
    · rintro ⟨⟨ticket?, kind, subject, subject_ne_nil⟩, line⟩
      refine ⟨kind, subject, subject_ne_nil, ?_⟩
      rw [← line]
      cases ticket? with
      | none => exact Or.inl (Summary.Parts.text_plain kind subject_ne_nil)
      | some ticket =>
          exact Or.inr ⟨ticket.letter, ticket.project, ticket.number, ticket.capital,
            ticket.project_ne_nil, ticket.project_alphanum, ticket.number_ne_nil,
            ticket.number_digits, Summary.Parts.text_ticketed ticket kind subject_ne_nil⟩
    · rintro ⟨kind, subject, subject_ne_nil, plain | ⟨letter, project, number, capital,
        project_ne_nil, project_alphanum, number_ne_nil, number_digits, ticketed⟩⟩
      · exact ⟨⟨none, kind, subject, subject_ne_nil⟩,
          (Summary.Parts.text_plain kind subject_ne_nil).trans plain.symm⟩
      · exact ⟨⟨some ⟨letter, project, number, capital, project_ne_nil, project_alphanum,
            number_ne_nil, number_digits⟩, kind, subject, subject_ne_nil⟩,
          (Summary.Parts.text_ticketed _ kind subject_ne_nil).trans ticketed.symm⟩
  · rw [summaryFormat_passes, summaryFormat_passes, Message.summary_toList,
      Message.summary_toList, Text.firstLine_firstLine]

/-- The type of a message is the one that its first line names; a line names one type at most. Where
none is named, there is no type, and the rule about the type fails. -/
theorem Message.type?_iff_named (text : String) :
    (∀ kind, Message.type? ⟨text⟩ = some kind ↔ Summary.Names kind (Text.firstLine text)) ∧
    (∀ kind other, Summary.Names kind (Text.firstLine text) →
      Summary.Names other (Text.firstLine text) → kind = other) ∧
    (Message.type? ⟨text⟩ = none ↔ ∀ kind, ¬Summary.Names kind (Text.firstLine text)) ∧
    (Rule.commitType.passes ⟨text⟩ = false ↔
      ∀ kind, ¬Summary.Names kind (Text.firstLine text)) := by
  rw [Rule.commitType_passes, Option.isSome_eq_false_iff, Option.isNone_iff_eq_none, type?_eq]
  exact ⟨fun _ => Summary.type?_eq_some_iff, fun _ _ => Summary.Names.unique,
    Summary.type?_eq_none_iff, Summary.type?_eq_none_iff⟩

end CommitCheck
