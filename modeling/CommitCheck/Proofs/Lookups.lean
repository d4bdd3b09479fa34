import CommitCheck.Proofs.Objects
import CommitCheck.Source.Memory
import Mathlib.Data.List.Forall2

set_option autoImplicit false

/-! Lookups of several commits. They have one answer for each reference, in the order of the
references, or else the failure of the first reference that is not found. Validation follows them:
a list of references has the outcomes that the references have one by one, and a range has those of
the hashes that it lists. -/

namespace CommitCheck

namespace Source

variable {source : Source} {references : List String}

theorem commits_cons (reference : String) :
    source.commits (reference :: references) =
      source.commit reference >>= fun first => (source.commits references).map (first :: ·) := by
  unfold commits
  rw [List.mapM_cons]
  cases source.commit reference with
  | error failure => rfl
  | ok first => cases references.mapM source.commit <;> rfl

theorem commits_singleton {reference : String} :
    source.commits [reference] = (source.commit reference).map fun commit => [commit] := by
  rw [commits_cons]
  cases source.commit reference <;> rfl

theorem commits_eq_ok_iff {commits : List Commit} :
    source.commits references = .ok commits ↔
      List.Forall₂ (fun reference commit => source.commit reference = .ok commit) references
        commits := by
  induction references generalizing commits with
  | nil =>
      rw [List.forall₂_nil_left_iff]
      constructor
      · intro found
        cases found
        rfl
      · intro same
        subst same
        rfl
  | cons reference others ih =>
      rw [commits_cons, bind_eq_ok_iff, List.forall₂_cons_left_iff]
      simp only [map_eq_ok_iff, ih]
      constructor
      · intro all
        obtain ⟨first, found, rest, othersFound, whole⟩ := all
        exact ⟨first, rest, found, othersFound, whole.symm⟩
      · intro all
        obtain ⟨first, rest, found, othersFound, whole⟩ := all
        exact ⟨first, found, rest, othersFound, whole.symm⟩

theorem commits_eq_singleton_iff {commit : Commit} :
    source.commits references = .ok [commit] ↔
      ∃ reference, references = [reference] ∧ source.commit reference = .ok commit := by
  rw [commits_eq_ok_iff, List.forall₂_cons_right_iff]
  simp only [List.forall₂_nil_right_iff]
  constructor
  · intro one
    obtain ⟨reference, others, ok, rfl, rfl⟩ := one
    exact ⟨reference, rfl, ok⟩
  · intro one
    obtain ⟨reference, rfl, ok⟩ := one
    exact ⟨reference, [], ok, rfl, rfl⟩

theorem exists_commits_iff :
    (∃ commits, source.commits references = .ok commits) ↔
      ∀ reference ∈ references, ∃ commit, source.commit reference = .ok commit := by
  induction references with
  | nil =>
      constructor
      · intro _ reference impossible
        cases impossible
      · intro _
        exact ⟨[], rfl⟩
  | cons reference others ih =>
      rw [List.forall_mem_cons, ← ih]
      simp only [commits_cons, bind_eq_ok_iff, map_eq_ok_iff]
      constructor
      · intro all
        obtain ⟨_, first, found, rest, othersFound, -⟩ := all
        exact ⟨⟨first, found⟩, rest, othersFound⟩
      · intro all
        obtain ⟨⟨first, found⟩, rest, othersFound⟩ := all
        exact ⟨_, first, found, rest, othersFound, rfl⟩

/-- Several lookups fail as the first of them does that fails. -/
theorem commits_eq_error_iff {error : Error} :
    source.commits references = .error error ↔
      ∃ before reference after, references = before ++ reference :: after ∧
        (∀ earlier ∈ before, ∃ commit, source.commit earlier = .ok commit) ∧
        source.commit reference = .error error := by
  induction references with
  | nil =>
      constructor
      · intro impossible
        cases impossible
      · intro some
        obtain ⟨before, reference, after, whole, -, -⟩ := some
        cases before <;> cases whole
  | cons reference others ih =>
      rw [commits_cons, bind_eq_error_iff]
      simp only [map_eq_error_iff, ih]
      constructor
      · rintro (failed | ⟨first, found, before, other, after, rfl, earlierFound, failed⟩)
        · refine ⟨[], reference, others, rfl, ?_, failed⟩
          intro earlier impossible
          cases impossible
        · refine ⟨reference :: before, other, after, rfl, ?_, failed⟩
          exact List.forall_mem_cons.mpr ⟨⟨first, found⟩, earlierFound⟩
      · intro some
        obtain ⟨before, other, after, whole, earlierFound, failed⟩ := some
        cases before with
        | nil =>
            cases whole
            exact Or.inl failed
        | cons earlier before =>
            cases whole
            obtain ⟨⟨first, found⟩, earlierFound⟩ := List.forall_mem_cons.mp earlierFound
            exact Or.inr ⟨first, found, before, other, after, rfl, earlierFound, failed⟩

theorem exists_reference_of_mem {commits : List Commit}
    (found : source.commits references = .ok commits) {commit : Commit}
    (member : commit ∈ commits) :
    ∃ reference ∈ references, source.commit reference = .ok commit := by
  rw [commits_eq_ok_iff] at found
  induction found with
  | nil => cases member
  | @cons reference first others rest ok _ ih =>
      rcases List.mem_cons.mp member with rfl | later
      · exact ⟨reference, List.mem_cons_self, ok⟩
      · obtain ⟨other, inOthers, ok⟩ := ih later
        exact ⟨other, List.mem_cons_of_mem reference inOthers, ok⟩

theorem commitsInRange_eq_ok_iff {range : String} {commits : List Commit} :
    source.commitsInRange range = .ok commits ↔
      ∃ shas, source.shas range = .ok shas ∧
        List.Forall₂ (fun sha commit => source.commit sha = .ok commit) shas commits := by
  unfold commitsInRange
  simp only [bind_eq_ok_iff, commits_eq_ok_iff]

end Source

namespace Validator

variable {validator : Validator} {source : Source} {references : List String}

theorem exists_validateReference_iff {reference : String} :
    (∃ outcome, validator.validateReference source reference = .ok outcome) ↔
      ∃ commit, source.commit reference = .ok commit := by
  unfold validateReference
  cases source.commit reference <;> simp [Except.map]

theorem validateReferences_eq_ok_iff {outcomes : List Outcome} :
    validator.validateReferences source references = .ok outcomes ↔
      List.Forall₂ (fun reference outcome =>
        validator.validateReference source reference = .ok outcome) references outcomes := by
  unfold validateReferences validateReference
  simp only [map_eq_ok_iff, Source.commits_eq_ok_iff]
  constructor
  · intro all
    obtain ⟨commits, found, rfl⟩ := all
    rw [List.forall₂_map_right_iff]
    apply found.imp
    intro reference commit ok
    exact ⟨commit, ok, rfl⟩
  · intro outcomesFound
    induction outcomesFound with
    | nil => exact ⟨[], .nil, rfl⟩
    | cons first _ ih =>
        obtain ⟨commit, ok, rfl⟩ := first
        obtain ⟨commits, found, rfl⟩ := ih
        exact ⟨commit :: commits, .cons ok found, rfl⟩

theorem exists_validateReferences_iff :
    (∃ outcomes, validator.validateReferences source references = .ok outcomes) ↔
      ∀ reference ∈ references,
        ∃ outcome, validator.validateReference source reference = .ok outcome := by
  simp only [exists_validateReference_iff]
  rw [← Source.exists_commits_iff]
  unfold validateReferences
  cases source.commits references <;> simp [Except.map]

theorem validateReferences_eq_error_iff {error : Error} :
    validator.validateReferences source references = .error error ↔
      ∃ before reference after, references = before ++ reference :: after ∧
        (∀ earlier ∈ before,
          ∃ outcome, validator.validateReference source earlier = .ok outcome) ∧
        validator.validateReference source reference = .error error := by
  simp only [exists_validateReference_iff]
  unfold validateReferences validateReference
  simp only [map_eq_error_iff]
  exact Source.commits_eq_error_iff

theorem validateRange_of_shas {range : String} {shas : List String}
    (listed : source.shas range = .ok shas) :
    validator.validateRange source range = validator.validateReferences source shas := by
  unfold validateRange Source.commitsInRange
  rw [listed]
  rfl

theorem validateRange_of_error {range : String} {error : Error}
    (failed : source.shas range = .error error) :
    validator.validateRange source range = .error error := by
  unfold validateRange Source.commitsInRange
  rw [failed]
  rfl

end Validator

/-! ### Lookups in a source that is written by hand -/

namespace MemorySource

variable {memory : MemorySource}

theorem commit_eq_ok_iff {reference : String} {commit : Commit} :
    memory.commit reference = .ok commit ↔
      commit.sha = memory.sha reference ∧
        memory.messages.lookup commit.sha = some commit.message := by
  unfold MemorySource.commit
  cases looked : memory.messages.lookup (memory.sha reference) with
  | none =>
      constructor
      · intro impossible
        cases impossible
      · rintro ⟨same, registered⟩
        rw [same, looked] at registered
        cases registered
  | some message =>
      constructor
      · intro found
        cases found
        exact ⟨rfl, looked⟩
      · rintro ⟨same, registered⟩
        rw [same, looked] at registered
        cases registered
        rw [← same]

theorem validateReference_eq_ok_iff {validator : Validator} {reference : String}
    {outcome : Outcome} :
    validator.validateReference memory.source reference = .ok outcome ↔
      ∃ message, memory.messages.lookup (memory.sha reference) = some message ∧
        outcome = { validator.validate message with commit := some (memory.sha reference) } := by
  unfold Validator.validateReference
  rw [map_eq_ok_iff]
  constructor
  · intro validated
    obtain ⟨commit, found, rfl⟩ := validated
    obtain ⟨same, registered⟩ := commit_eq_ok_iff.mp found
    refine ⟨commit.message, ?_, ?_⟩
    · rw [← same]
      exact registered
    · rw [← same]
      rfl
  · intro looked
    obtain ⟨message, registered, rfl⟩ := looked
    exact ⟨⟨memory.sha reference, message⟩, commit_eq_ok_iff.mpr ⟨rfl, registered⟩, rfl⟩

/-- References have the outcomes that they have one by one, all of them or none, and a range has the
outcomes of the hashes that it lists. -/
theorem validation_agrees (memory : MemorySource) (validator : Validator)
    (references : List String) (range : String) :
    ((∃ outcomes, validator.validateReferences memory.source references = .ok outcomes) ↔
      ∀ reference ∈ references,
        ∃ outcome, validator.validateReference memory.source reference = .ok outcome) ∧
    (∀ outcomes, validator.validateReferences memory.source references = .ok outcomes ↔
      List.Forall₂ (fun reference outcome =>
        validator.validateReference memory.source reference = .ok outcome) references outcomes) ∧
    (∀ reference outcome,
      validator.validateReference memory.source reference = .ok outcome ↔
        ∃ message, memory.messages.lookup (memory.sha reference) = some message ∧
          outcome =
            { validator.validate message with commit := some (memory.sha reference) }) ∧
    (∀ error, validator.validateReferences memory.source references = .error error ↔
      ∃ before reference after, references = before ++ reference :: after ∧
        (∀ earlier ∈ before,
          ∃ outcome, validator.validateReference memory.source earlier = .ok outcome) ∧
        validator.validateReference memory.source reference = .error error) ∧
    (∀ shas, memory.source.shas range = .ok shas →
      validator.validateRange memory.source range =
        validator.validateReferences memory.source shas) ∧
    (∀ error, memory.source.shas range = .error error →
      validator.validateRange memory.source range = .error error) := by
  refine ⟨Validator.exists_validateReferences_iff, ?_, ?_, ?_, ?_, ?_⟩
  · intro outcomes
    exact Validator.validateReferences_eq_ok_iff
  · intro reference outcome
    exact validateReference_eq_ok_iff
  · intro error
    exact Validator.validateReferences_eq_error_iff
  · intro shas listed
    exact Validator.validateRange_of_shas listed
  · intro error failed
    exact Validator.validateRange_of_error failed

def named : MemorySource where
  messages := [("a", "[BUG] one")]
  names := [("head", "a")]
  ranges := [("both", ["a", "head"])]

def namedOutcome : Outcome :=
  { Validator.standard.validate "[BUG] one" with commit := some "a" }

theorem validation_agrees_named :
    Validator.standard.validateReferences named.source ["head", "a", "head"] =
        .ok [namedOutcome, namedOutcome, namedOutcome] ∧
      Validator.standard.validateReferences named.source ["head", "lost", "a", "gone"] =
        .error (.history (.invalidReference "lost")) ∧
      Validator.standard.validateRange named.source "both" = .ok [namedOutcome, namedOutcome] := by
  obtain ⟨-, -, single, -, -, -⟩ := validation_agrees named .standard [] ""
  have hash : Validator.standard.validateReference named.source "a" = .ok namedOutcome :=
    (single "a" namedOutcome).mpr ⟨"[BUG] one", rfl, rfl⟩
  have name : Validator.standard.validateReference named.source "head" = .ok namedOutcome :=
    (single "head" namedOutcome).mpr ⟨"[BUG] one", rfl, rfl⟩
  obtain ⟨-, several, -⟩ := validation_agrees named .standard ["head", "a", "head"] ""
  obtain ⟨-, -, -, refused, -⟩ := validation_agrees named .standard ["head", "lost", "a", "gone"] ""
  obtain ⟨-, both, -, -, listed, -⟩ := validation_agrees named .standard ["a", "head"] "both"
  refine ⟨(several _).mpr (.cons name (.cons hash (.cons name .nil))), ?_, ?_⟩
  · exact (refused _).mpr ⟨["head"], "lost", ["a", "gone"], rfl,
      List.forall_mem_singleton.mpr ⟨namedOutcome, name⟩, rfl⟩
  · rw [listed ["a", "head"] rfl]
    exact (both _).mpr (.cons hash (.cons name .nil))

end MemorySource

end CommitCheck
