import CommitCheck.Proofs.Verdict

set_option autoImplicit false

/-! Line endings. A carriage return in front of every line feed stands at the end of every line but
the last, where the rules and the readers of first lines pass over it. Only two kinds of first lines
are read differently with it: that of a revert commit, which has to end with its quote, and one that
ends with a space, where the carriage return stands for the text that may be missing. -/

namespace CommitCheck

namespace Text

def withReturns (cs : List Char) : List Char :=
  cs.flatMap fun c => if c = '\n' then ['\r', '\n'] else [c]

def endLines : List (List Char) → List (List Char)
  | [] => []
  | [line] => [line]
  | line :: next :: others => (line ++ ['\r']) :: endLines (next :: others)

theorem length_endLines (lines : List (List Char)) : (endLines lines).length = lines.length := by
  fun_induction endLines lines with
  | case1 => rfl
  | case2 line => rfl
  | case3 line next others ih => rw [List.length_cons, List.length_cons, ih]

theorem getElem?_endLines (lines : List (List Char)) (index : Nat) :
    (endLines lines)[index]? = lines[index]?.map fun line =>
      if index + 1 < lines.length then line ++ ['\r'] else line := by
  fun_induction endLines lines generalizing index with
  | case1 => rfl
  | case2 line =>
      cases index with
      | zero => rfl
      | succ index => rfl
  | case3 line next others ih =>
      cases index with
      | zero => simp
      | succ index =>
          rw [List.getElem?_cons_succ, ih index, List.getElem?_cons_succ, @List.length_cons _ line]
          simp only [Nat.add_lt_add_iff_right]

private theorem endLines_cons {others : List (List Char)} (more : others ≠ []) (line : List Char) :
    endLines (line :: others) = (line ++ ['\r']) :: endLines others := by
  obtain ⟨next, others, rfl⟩ := List.exists_cons_of_ne_nil more
  rfl

theorem splitLines_withReturns (cs : List Char) :
    splitLines (withReturns cs) = endLines (splitLines cs) := by
  induction cs with
  | nil => rfl
  | cons c cs ih =>
      have more := splitLines_ne_nil cs
      by_cases feed : c = '\n'
      · subst feed
        have plain : splitLines ('\n' :: cs) = [] :: splitLines cs :=
          @splitLines_append_feed [] (by decide) cs
        have returned : splitLines ('\r' :: '\n' :: withReturns cs) =
            ['\r'] :: splitLines (withReturns cs) :=
          @splitLines_append_feed ['\r'] (by decide) (withReturns cs)
        rw [plain, endLines_cons more, ← ih]
        exact returned
      · obtain ⟨line, others, lines⟩ := List.exists_cons_of_ne_nil more
        have same : withReturns (c :: cs) = c :: withReturns cs := by
          unfold withReturns
          rw [List.flatMap_cons, if_neg feed, List.singleton_append]
        rw [same, splitLines_cons feed lines]
        rw [lines] at ih
        cases others with
        | nil => exact splitLines_cons feed ih
        | cons next others => exact splitLines_cons feed ih

end Text

namespace Message

/-- The message with a carriage return in front of every line feed. -/
def withReturns (message : Message) : Message :=
  ⟨String.ofList (Text.withReturns message.text.toList)⟩

variable {message : Message}

theorem lineCount_withReturns : message.withReturns.lineCount = message.lineCount := by
  unfold lineCount lines withReturns
  rw [String.toList_ofList, Text.splitLines_withReturns, List.length_map, List.length_map,
    Text.length_endLines]

theorem line?_withReturns (index : Nat) :
    message.withReturns.line? index =
      (message.line? index).map fun line =>
        if index + 1 < message.lineCount then line ++ "\r" else line := by
  unfold line? lineCount lines withReturns
  rw [String.toList_ofList, Text.splitLines_withReturns, List.getElem?_map,
    Text.getElem?_endLines, List.getElem?_map, List.length_map, Option.map_map, Option.map_map]
  apply Option.map_congr
  intro line _
  simp only [Function.comp_apply]
  split
  · rw [String.ofList_append]
  · rfl

theorem summary_withReturns (message : Message) :
    message.withReturns.summary = message.summary ∨
      message.withReturns.summary = message.summary ++ "\r" := by
  unfold summary
  rw [line?_withReturns]
  cases message.line? 0 with
  | none => exact Or.inl rfl
  | some line =>
      rw [Option.map_some, Option.getD_some, Option.getD_some]
      split
      · exact Or.inr rfl
      · exact Or.inl rfl

end Message

namespace Summary

variable {line : List Char}

private theorem exists_rest_concat_iff {lead : List Char} (spaced : lead.getLast? = some ' ')
    (ends : line.getLast? ≠ some ' ') (c : Char) :
    (∃ rest, rest ≠ [] ∧ line ++ [c] = lead ++ rest) ↔ ∃ rest, rest ≠ [] ∧ line = lead ++ rest := by
  constructor
  · rintro ⟨rest, rest_ne_nil, whole⟩
    obtain ⟨init, last, rfl⟩ := (List.eq_nil_or_concat' rest).resolve_left rest_ne_nil
    rw [← List.append_assoc] at whole
    obtain ⟨rfl, -⟩ := List.append_inj' whole rfl
    refine ⟨init, ?_, rfl⟩
    intro empty
    rw [empty, List.append_nil] at ends
    exact ends spaced
  · rintro ⟨rest, rest_ne_nil, rfl⟩
    exact ⟨rest ++ [c], List.append_ne_nil_of_left_ne_nil rest_ne_nil _, List.append_assoc _ _ _⟩

private def lead (ticket? : Option Ticket) (kind : CommitType) : List Char :=
  (ticket?.map Ticket.tag).getD [] ++ (bracketed kind ++ [' '])

private theorem conforms_iff_lead {cs : List Char} :
    conforms cs = true ↔
      ∃ ticket? kind, ∃ subject, subject ≠ [] ∧ cs = lead ticket? kind ++ subject := by
  have whole (parts : Parts) : parts.text = lead parts.ticket? parts.kind ++ parts.subject := by
    simp [Parts.text, Parts.tag, lead]
  rw [conforms_iff]
  constructor
  · rintro ⟨parts, rfl⟩
    exact ⟨parts.ticket?, parts.kind, parts.subject, parts.subject_ne_nil, whole parts⟩
  · rintro ⟨ticket?, kind, subject, subject_ne_nil, rfl⟩
    exact ⟨⟨ticket?, kind, subject, subject_ne_nil⟩, whole _⟩

theorem conforms_concat (ends : line.getLast? ≠ some ' ') (c : Char) :
    conforms (line ++ [c]) = conforms line := by
  rw [Bool.eq_iff_iff, conforms_iff_lead, conforms_iff_lead]
  apply exists_congr
  intro ticket?
  apply exists_congr
  intro kind
  apply exists_rest_concat_iff _ ends
  unfold lead
  rw [← List.append_assoc, List.getLast?_concat]

theorem isMerge_concat (ends : line.getLast? ≠ some ' ') (c : Char) :
    isMerge (line ++ [c]) = isMerge line := by
  rw [Bool.eq_iff_iff, isMerge_iff, isMerge_iff]
  exact exists_rest_concat_iff rfl ends c

theorem isRevert_concat {c : Char} (other : c ≠ '"') : isRevert (line ++ [c]) = false := by
  rw [Bool.eq_false_iff, ne_eq, isRevert_iff]
  rintro ⟨title, -, whole⟩
  rw [← List.append_assoc] at whole
  exact other (List.singleton_inj.mp (List.append_inj' whole rfl).2)

private theorem getLast?_opening {kind : CommitType} {opening : List Char}
    (opens : Opening kind opening) : opening.getLast? = some ']' := by
  cases opens with
  | plain => simp [List.getLast?_cons]
  | tagged letter nonempty characters => simp [List.getLast?_cons]

theorem names_concat_iff {c : Char} (other : c ≠ ']') {kind : CommitType} :
    Names kind (line ++ [c]) ↔ Names kind line := by
  unfold Names
  apply exists_congr
  intro opening
  apply and_congr_right
  intro opens
  rw [List.prefix_concat_iff]
  apply or_iff_right
  intro whole
  have last := getLast?_opening opens
  rw [whole, List.getLast?_concat] at last
  exact other (Option.some.inj last)

theorem type?_concat {c : Char} (other : c ≠ ']') : type? (line ++ [c]) = type? line := by
  apply Option.ext
  intro kind
  rw [type?_eq_some_iff, type?_eq_some_iff, names_concat_iff other]

end Summary

/-! ### Messages with carriage returns -/

namespace Message

variable {message : Message}

theorem type?_withReturns : message.withReturns.type? = message.type? := by
  unfold type?
  rcases message.summary_withReturns with same | returned
  · rw [same]
  · rw [returned, String.toList_append]
    exact Summary.type?_concat (by decide)

theorem special?_withReturns (ends : message.summary.toList.getLast? ≠ some ' ')
    (ordinary : message.special? ≠ some .revert) :
    message.withReturns.special? = message.special? := by
  rcases message.summary_withReturns with same | returned
  · unfold special? isMerge isRevert
    rw [same]
  · have merge : message.withReturns.isMerge = message.isMerge := by
      unfold isMerge
      rw [returned, String.toList_append]
      exact Summary.isMerge_concat ends '\r'
    have revert : message.withReturns.isRevert = false := by
      unfold isRevert
      rw [returned, String.toList_append]
      exact Summary.isRevert_concat (by decide)
    unfold special? at ordinary ⊢
    rw [merge, revert]
    by_cases merging : message.isMerge = true
    · rw [if_pos merging, if_pos merging]
    · rw [if_neg merging] at ordinary
      rw [if_neg merging, if_neg merging, if_neg Bool.false_ne_true]
      by_cases reverting : message.isRevert = true
      · rw [if_pos reverting] at ordinary
        exact absurd rfl ordinary
      · rw [if_neg reverting]

end Message

namespace Rule

variable {message : Message}

theorem summaryFormat_withReturns (ends : message.summary.toList.getLast? ≠ some ' ') :
    summaryFormat.passes message.withReturns = summaryFormat.passes message := by
  rw [summaryFormat_passes, summaryFormat_passes]
  rcases message.summary_withReturns with same | returned
  · rw [same]
  · rw [returned, String.toList_append]
    exact Summary.conforms_concat ends '\r'

theorem commitType_withReturns :
    commitType.passes message.withReturns = commitType.passes message := by
  rw [commitType_passes, commitType_passes, Message.type?_withReturns]

theorem separator_withReturns :
    separator.passes message.withReturns = separator.passes message := by
  unfold separator
  dsimp only
  rw [Message.line?_withReturns]
  cases message.line? 1 with
  | none => rfl
  | some line =>
      rw [Option.map_some]
      dsimp only
      split
      · rw [String.toList_append]
        unfold Text.allBlank
        rw [List.all_append]
        exact Bool.and_true _
      · rfl

theorem passes_withReturns {rule : Rule} (member : rule ∈ builtin)
    (ends : message.summary.toList.getLast? ≠ some ' ') :
    rule.passes message.withReturns = rule.passes message := by
  rcases Validator.mem_rules_standard.mp member with rfl | rfl | rfl
  · exact summaryFormat_withReturns ends
  · exact commitType_withReturns
  · exact separator_withReturns

end Rule

theorem Validator.validate_congr {validator : Validator} {first second : Message}
    (special : first.special? = second.special?)
    (failures : validator.failures first = validator.failures second) :
    (validator.validate first.text).failures = (validator.validate second.text).failures ∧
      (validator.validate first.text).special = (validator.validate second.text).special := by
  unfold validate
  rw [special, failures]
  cases second.special? with
  | none => exact ⟨rfl, rfl⟩
  | some kind => exact ⟨rfl, rfl⟩

/-- Carriage returns in front of the line feeds change nothing that is found in a message, unless it
is a revert commit or its first line ends with a space. It does not matter whether the message has
carriage returns already. -/
theorem Validator.standard_validate_withReturns {message : Message}
    (ordinary : message.special? ≠ some .revert)
    (ends : message.summary.toList.getLast? ≠ some ' ') :
    (standard.validate message.withReturns.text).failures =
        (standard.validate message.text).failures ∧
      (standard.validate message.withReturns.text).special =
        (standard.validate message.text).special ∧
      message.withReturns.type? = message.type? ∧
      message.withReturns.lineCount = message.lineCount := by
  have failures : standard.failures message.withReturns = standard.failures message := by
    apply List.filterMap_congr
    intro rule member
    unfold Rule.failure?
    rw [Rule.passes_withReturns member ends]
  obtain ⟨sameFailures, sameSpecial⟩ :=
    validate_congr (Message.special?_withReturns ends ordinary) failures
  exact ⟨sameFailures, sameSpecial, Message.type?_withReturns, Message.lineCount_withReturns⟩

def twoFailures : Message where
  text := "[J#proj-1][BUG] a\nb\n"

theorem Validator.standard_validate_withReturns_twoFailures :
    twoFailures.special? ≠ some .revert ∧ twoFailures.summary.toList.getLast? ≠ some ' ' ∧
      twoFailures.withReturns.text = "[J#proj-1][BUG] a\r\nb\r\n" ∧
      (standard.validate twoFailures.withReturns.text).failures =
        (standard.validate twoFailures.text).failures ∧
      (standard.validate twoFailures.withReturns.text).special =
        (standard.validate twoFailures.text).special ∧
      twoFailures.withReturns.type? = twoFailures.type? ∧
      twoFailures.withReturns.lineCount = twoFailures.lineCount := by
  have ordinary : twoFailures.special? ≠ some .revert := by decide
  have ends : twoFailures.summary.toList.getLast? ≠ some ' ' := by decide
  exact ⟨ordinary, ends, by decide, standard_validate_withReturns ordinary ends⟩

/-- The carriage return keeps the line of a revert commit from ending with its quote. -/
example :
    (Validator.standard.validate "Revert \"[BUG] a\"\n").special = some .revert ∧
      (Validator.standard.validate "Revert \"[BUG] a\"\r\n").special = none := by
  decide

/-- The carriage return is taken for the missing text. -/
example :
    Validator.standard.accepts "[BUG] \n\nb" = false ∧
      Validator.standard.accepts "[BUG] \r\n\r\nb" = true := by
  decide

end CommitCheck
