import CommitCheck.Program

set_option autoImplicit false

/-! Reports. Whatever counts the invalid outcomes counts the same: the sections of the text, the
line at its end, the entries of the JSON list and the verdict of the run. -/

namespace CommitCheck

namespace Outcome

theorem invalidCount_cons_of_valid {outcome : Outcome} {others : List Outcome}
    (valid : outcome.failures = []) : invalidCount (outcome :: others) = invalidCount others := by
  apply List.countP_cons_of_neg
  unfold isValid
  rw [valid]
  exact Bool.false_ne_true

theorem invalidCount_cons_of_invalid {outcome : Outcome} {others : List Outcome}
    (invalid : outcome.failures ≠ []) :
    invalidCount (outcome :: others) = invalidCount others + 1 := by
  apply List.countP_cons_of_pos
  unfold isValid
  rw [List.isEmpty_eq_false_iff.mpr invalid]
  rfl

theorem invalidCount_eq_zero_iff {outcomes : List Outcome} :
    invalidCount outcomes = 0 ↔ ∀ outcome ∈ outcomes, outcome.failures = [] := by
  induction outcomes with
  | nil =>
      refine iff_of_true rfl ?_
      intro outcome impossible
      cases impossible
  | cons outcome others ih =>
      rw [List.forall_mem_cons]
      by_cases valid : outcome.failures = []
      · rw [invalidCount_cons_of_valid valid, ih, and_iff_right valid]
      · rw [invalidCount_cons_of_invalid valid]
        exact iff_of_false (Nat.succ_ne_zero _) (fun both => valid both.1)

end Outcome

namespace Report

/-- The sections of a report: one for each invalid outcome, in order. -/
inductive Sections (color : Bool) : List Outcome → List (List Char) → Prop where
  | none : Sections color [] []
  | valid {outcome : Outcome} {others : List Outcome} {sections : List (List Char)} :
      outcome.failures = [] → Sections color others sections →
        Sections color (outcome :: others) sections
  | invalid {outcome : Outcome} {others : List Outcome} {sections : List (List Char)} :
      outcome.failures ≠ [] → Sections color others sections →
        Sections color (outcome :: others) (outcomeSection color outcome :: sections)

theorem Sections.length_eq {color : Bool} {outcomes : List Outcome}
    {sections : List (List Char)} (ofOutcomes : Sections color outcomes sections) :
    sections.length = Outcome.invalidCount outcomes := by
  induction ofOutcomes with
  | none => rfl
  | valid valid _ ih => rw [Outcome.invalidCount_cons_of_valid valid, ih]
  | invalid invalid _ ih =>
      rw [Outcome.invalidCount_cons_of_invalid invalid, List.length_cons, ih]

theorem exists_sections (color : Bool) (outcomes : List Outcome) :
    ∃ sections, Sections color outcomes sections ∧
      (text color outcomes).toList = sections.flatten := by
  have chars : ∃ sections, Sections color outcomes sections ∧
      textChars color outcomes = sections.flatten := by
    induction outcomes with
    | nil => exact ⟨[], .none, rfl⟩
    | cons outcome others ih =>
        obtain ⟨sections, ofOthers, whole⟩ := ih
        unfold textChars Outcome.isValid at *
        by_cases valid : outcome.failures = []
        · refine ⟨sections, .valid valid ofOthers, ?_⟩
          rw [List.filter_cons_of_neg, whole]
          rw [valid]
          exact Bool.false_ne_true
        · refine ⟨_, .invalid valid ofOthers, ?_⟩
          rw [List.filter_cons_of_pos, List.flatMap_cons, whole, List.flatten_cons]
          rw [List.isEmpty_eq_false_iff.mpr valid]
          rfl
  unfold text
  rw [String.toList_ofList]
  exact chars

end Report

def Json.saysInvalid : Json → Bool
  | .object members =>
      match members.lookup "valid" with
      | some (.bool valid) => !valid
      | _ => false
  | _ => false

namespace Report

theorem saysInvalid_outcomeJson (outcome : Outcome) :
    (outcomeJson outcome).saysInvalid = !outcome.isValid :=
  rfl

theorem countP_saysInvalid (outcomes : List Outcome) :
    (outcomes.map outcomeJson).countP Json.saysInvalid = Outcome.invalidCount outcomes := by
  rw [List.countP_map]
  rfl

end Report

/-- A run has ended with the whole report about some outcomes, and its result says how many of them
are invalid. -/
structure Reported (host : Host) (invocation : Invocation) (config : Config)
    (outcomes : List Outcome) (invalid : Nat) (ending : Ending) : Prop where
  count : invalid = (outcomes.filter fun outcome => outcome.failures ≠ []).length
  accepted : (∀ outcome ∈ outcomes, outcome.failures = []) → ending.result = .ok ()
  refused : (∃ outcome ∈ outcomes, outcome.failures ≠ []) →
    1 ≤ invalid ∧ ending.result = .error (.invalidMessages invalid)
  sections : ∀ color, ∃ sections, Report.Sections color outcomes sections ∧
    sections.length = invalid ∧ (Report.text color outcomes).toList = sections.flatten
  text : invocation.format = .text → ∃ color,
    (color = true ↔ invocation.noColor = false ∧ config.ui.color = true ∧
      host.surroundings.colors = true) ∧
    ending.output = Report.text color outcomes ++ (if 0 < invalid then "\n" else "") ++
      (toString outcomes.length ++ " commit(s) checked, " ++ toString invalid ++ " invalid") ++
      "\n" ++ (if 0 < invalid ∧ config.ui.hints then Report.hint color ++ "\n" else "")
  json : invocation.format = .json →
    ending.output = (Json.array (outcomes.map Report.outcomeJson)).render ++ "\n" ∧
      (outcomes.map Report.outcomeJson).countP Json.saysInvalid = invalid

namespace Program

theorem verdict_eq_ok {outcomes : List Outcome}
    (valid : ∀ outcome ∈ outcomes, outcome.failures = []) : verdict outcomes = .ok () := by
  unfold verdict
  rw [if_pos (Outcome.invalidCount_eq_zero_iff.mpr valid)]

theorem verdict_eq_error {outcomes : List Outcome}
    (invalid : ∃ outcome ∈ outcomes, outcome.failures ≠ []) :
    1 ≤ Outcome.invalidCount outcomes ∧
      verdict outcomes = .error (.invalidMessages (Outcome.invalidCount outcomes)) := by
  have positive : Outcome.invalidCount outcomes ≠ 0 := by
    rw [ne_eq, Outcome.invalidCount_eq_zero_iff]
    intro valid
    obtain ⟨outcome, member, fails⟩ := invalid
    exact fails (valid outcome member)
  unfold verdict
  rw [if_neg positive]
  exact ⟨Nat.one_le_iff_ne_zero.mpr positive, rfl⟩

theorem usesColor_iff {host : Host} {invocation : Invocation} {config : Config} :
    usesColor host invocation config = true ↔
      invocation.noColor = false ∧ config.ui.color = true ∧ host.surroundings.colors = true := by
  unfold usesColor
  rw [Bool.and_eq_true, Bool.and_eq_true, Bool.not_eq_true', and_assoc]

theorem reported_concluded (host : Host) (invocation : Invocation) (config : Config)
    (outcomes : List Outcome) :
    Reported host invocation config outcomes (Outcome.invalidCount outcomes)
      (concluded host invocation config (.ok outcomes)) where
  count := by
    unfold Outcome.invalidCount Outcome.isValid
    rw [List.countP_eq_length_filter]
    congr 2
    funext outcome
    cases outcome.failures <;> rfl
  accepted := verdict_eq_ok
  refused := verdict_eq_error
  sections color := by
    obtain ⟨sections, ofOutcomes, whole⟩ := Report.exists_sections color outcomes
    exact ⟨sections, ofOutcomes, ofOutcomes.length_eq, whole⟩
  text asked := by
    refine ⟨_, usesColor_iff, ?_⟩
    unfold concluded report
    dsimp only
    rw [asked]
    dsimp only
    simp only [decide_eq_true_eq, Bool.and_eq_true]
    rfl
  json asked := by
    unfold concluded report
    dsimp only
    rw [asked]
    exact ⟨rfl, Report.countP_saysInvalid outcomes⟩

end Program

end CommitCheck
