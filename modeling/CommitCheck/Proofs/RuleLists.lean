import CommitCheck.Proofs.Verdict

set_option autoImplicit false

/-! Validators with rules of one's own. However many rules a validator starts with and gets
afterwards, it reports the codes of those that a message fails, in their order; a message of a merge
or revert commit is held to none of them. -/

namespace CommitCheck

/-- The first lines of the messages that are written for commits of a class. -/
def Special.Heads : Special → List Char → Prop
  | .merge, line => ∃ text, text ≠ [] ∧ line = "Merge ".toList ++ text
  | .revert, line => ∃ title, title ≠ [] ∧ line = "Revert \"".toList ++ (title ++ ['"'])

theorem Special.Heads.unique {line : List Char} {kind other : Special} (heads : kind.Heads line)
    (headsOther : other.Heads line) : kind = other := by
  cases kind with
  | merge =>
      cases other with
      | merge => rfl
      | revert =>
          obtain ⟨text, -, rfl⟩ := heads
          obtain ⟨title, -, same⟩ := headsOther
          exact absurd (List.cons.inj same).1 (by decide)
  | revert =>
      cases other with
      | merge =>
          obtain ⟨title, -, rfl⟩ := heads
          obtain ⟨text, -, same⟩ := headsOther
          exact absurd (List.cons.inj same).1 (by decide)
      | revert => rfl

theorem Message.heads_of_special? {text : String} {kind : Special}
    (special : Message.special? ⟨text⟩ = some kind) : kind.Heads (Text.firstLine text) := by
  unfold special? isMerge isRevert at special
  rw [summary_toList] at special
  by_cases merging : Summary.isMerge (Text.firstLine text) = true
  · rw [if_pos merging] at special
    cases special
    exact Summary.isMerge_iff.mp merging
  · rw [if_neg merging] at special
    by_cases reverting : Summary.isRevert (Text.firstLine text) = true
    · rw [if_pos reverting] at special
      cases special
      exact Summary.isRevert_iff.mp reverting
    · rw [if_neg reverting] at special
      cases special

theorem Message.special?_eq_some_iff {text : String} {kind : Special} :
    Message.special? ⟨text⟩ = some kind ↔ kind.Heads (Text.firstLine text) := by
  constructor
  · exact heads_of_special?
  · intro heads
    have found : ∃ other, Message.special? ⟨text⟩ = some other := by
      rw [exists_special?_iff]
      cases kind with
      | merge => exact Or.inl (Summary.isMerge_iff.mpr heads)
      | revert => exact Or.inr (Summary.isRevert_iff.mpr heads)
    obtain ⟨other, special⟩ := found
    rw [special, (heads_of_special? special).unique heads]

namespace Validator

theorem failures_eq (validator : Validator) (message : Message) :
    validator.failures message =
      (validator.rules.filter fun rule => !rule.passes message).map Rule.code := by
  unfold failures
  induction validator.rules with
  | nil => rfl
  | cons rule rules ih =>
      unfold Rule.failure? at ih ⊢
      cases passed : rule.passes message with
      | true => simp [passed, ih]
      | false => simp [passed, ih]

theorem failures_addRule (validator : Validator) (rule : Rule) (message : Message) :
    (validator.addRule rule).failures message =
      validator.failures message ++ (rule.failure? message).toList := by
  unfold failures addRule
  rw [List.filterMap_append]
  cases failed : rule.failure? message <;> simp [failed]

theorem failures_validate_addRule (validator : Validator) (rule : Rule) (text : String) :
    (validator.validate text).failures <+: ((validator.addRule rule).validate text).failures := by
  cases special : Message.special? ⟨text⟩ with
  | some kind =>
      have same : (validator.addRule rule).validate text = validator.validate text := by
        rw [validate_of_special special, validate_of_special special]
      exact same ▸ List.prefix_refl _
  | none =>
      rw [validate_of_ordinary special, validate_of_ordinary special]
      change validator.failures ⟨text⟩ <+: (validator.addRule rule).failures ⟨text⟩
      rw [failures_addRule]
      exact List.prefix_append _ _

def extended (rules added : List Rule) : Validator :=
  added.foldl addRule { rules := rules }

theorem rules_foldl_addRule (validator : Validator) (added : List Rule) :
    (added.foldl addRule validator).rules = validator.rules ++ added := by
  induction added generalizing validator with
  | nil => simp
  | cons rule added ih =>
      rw [List.foldl_cons, ih]
      simp [addRule]

theorem failures_validate_foldl_addRule (validator : Validator) (added : List Rule)
    (text : String) :
    (validator.validate text).failures <+:
      ((added.foldl addRule validator).validate text).failures := by
  induction added generalizing validator with
  | nil => exact List.prefix_refl _
  | cons rule added ih =>
      rw [List.foldl_cons]
      exact (failures_validate_addRule validator rule text).trans (ih (validator.addRule rule))

/-- Whatever rules a validator has been given, a message of a merge or revert commit fails none, and
every other message fails with the codes of the rules that it does not pass, each rule at its place.
More rules only add codes at the end, and several messages get the outcomes that they get alone. -/
theorem validate_extended (rules added : List Rule) (text : String) :
    (∀ kind : Special, kind.Heads (Text.firstLine text) →
      (extended rules added).validate text = { message := text, special := some kind }) ∧
    ((∀ kind : Special, ¬kind.Heads (Text.firstLine text)) →
      (extended rules added).validate text =
        { message := text
          failures := ((rules ++ added).filter fun rule => !rule.passes ⟨text⟩).map Rule.code }) ∧
    (∀ more : List Rule,
      ((extended rules added).validate text).failures <+:
        ((more.foldl addRule (extended rules added)).validate text).failures) ∧
    ∀ texts : List String, ((extended rules added).validateAll texts).length = texts.length ∧
      ∀ index : Nat, ((extended rules added).validateAll texts)[index]? =
        texts[index]?.map (extended rules added).validate := by
  refine ⟨?_, ?_, ?_, ?_⟩
  · intro kind heads
    exact validate_of_special (Message.special?_eq_some_iff.mpr heads) _
  · intro ordinary
    have unclassed : Message.special? ⟨text⟩ = none := by
      rw [Option.eq_none_iff_forall_ne_some]
      intro kind special
      exact ordinary kind (Message.special?_eq_some_iff.mp special)
    rw [validate_of_ordinary unclassed, failures_eq]
    unfold extended
    rw [rules_foldl_addRule]
  · intro more
    exact failures_validate_foldl_addRule _ more text
  · intro texts
    exact ⟨List.length_map _, fun index => List.getElem?_map⟩

theorem validate_extended_repeated :
    (∀ kind : Special, ¬kind.Heads (Text.firstLine "a\nb")) ∧
      (extended [.separator, .commitType, .separator]
          [.containing "c" .invalidSummaryFormat]).validate "a\nb" =
        { message := "a\nb"
          failures := [.noSeparatorAfterSummary, .missingOrInvalidType, .noSeparatorAfterSummary,
            .invalidSummaryFormat] } ∧
      Special.revert.Heads (Text.firstLine "Revert \"a\"\nb") ∧
      (extended [.separator, .commitType, .separator]
          [.containing "c" .invalidSummaryFormat]).validate "Revert \"a\"\nb" =
        { message := "Revert \"a\"\nb", special := some .revert } := by
  have ordinary : ∀ kind : Special, ¬kind.Heads (Text.firstLine "a\nb") := by
    intro kind heads
    have special := Message.special?_eq_some_iff.mpr heads
    have none : Message.special? ⟨"a\nb"⟩ = none := by decide
    rw [none] at special
    cases special
  have reverting : Special.revert.Heads (Text.firstLine "Revert \"a\"\nb") :=
    ⟨['a'], List.cons_ne_nil _ _, by decide⟩
  refine ⟨ordinary, ?_, reverting, (validate_extended _ _ _).1 .revert reverting⟩
  rw [(validate_extended _ _ "a\nb").2.1 ordinary]
  decide

end Validator

end CommitCheck
