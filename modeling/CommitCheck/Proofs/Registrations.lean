import CommitCheck.Proofs.Lookups
import Mathlib.Data.List.Induction

set_option autoImplicit false

/-! Sources that are written by hand, one registration after the other. What a key stands for is
what has been registered last under it. A name is looked up before a hash: a range gives the commits
that it lists exactly if no hash in it has been registered as a name for another one. -/

namespace CommitCheck.MemorySource

inductive Registration where
  | commit (sha message : String)
  | name (name sha : String)
  | range (range : String) (shas : List String)

def register (memory : MemorySource) : Registration → MemorySource
  | .commit sha message => memory.withCommit sha message
  | .name name sha => memory.withName name sha
  | .range range shas => memory.withRange range shas

def ofRegistrations (registrations : List Registration) : MemorySource :=
  registrations.foldl register {}

theorem ofRegistrations_concat (registrations : List Registration) (registration : Registration) :
    ofRegistrations (registrations ++ [registration]) =
      (ofRegistrations registrations).register registration := by
  unfold ofRegistrations
  rw [List.foldl_append]
  rfl

def IsLast {α : Type} (registrations : List Registration) (kind : α → Registration)
    (value : α) : Prop :=
  ∃ before after, registrations = before ++ kind value :: after ∧ ∀ other, kind other ∉ after

section

variable {α : Type} {registrations : List Registration}

theorem not_isLast_nil {kind : α → Registration} {value : α} : ¬IsLast [] kind value := by
  intro last
  obtain ⟨before, after, whole, -⟩ := last
  cases before <;> cases whole

theorem isLast_concat {kind : α → Registration} {value : α} {registration : Registration} :
    IsLast (registrations ++ [registration]) kind value ↔
      kind value = registration ∨
        (∀ other, kind other ≠ registration) ∧ IsLast registrations kind value := by
  constructor
  · intro last
    obtain ⟨before, after, whole, none⟩ := last
    rcases List.eq_nil_or_concat after with rfl | ⟨more, last, rfl⟩
    · have same := List.append_inj_right' whole rfl
      cases same
      exact Or.inl rfl
    · rw [List.concat_eq_append] at whole none
      rw [← List.cons_append, ← List.append_assoc] at whole
      obtain ⟨initial, same⟩ := List.append_inj' whole rfl
      cases same
      refine Or.inr ⟨?_, before, more, initial, ?_⟩
      · intro other same
        exact none other (List.mem_append_right more (List.mem_singleton.mpr same))
      · intro other member
        exact none other (List.mem_append_left _ member)
  · rintro (same | ⟨otherKind, before, after, whole, none⟩)
    · refine ⟨registrations, [], ?_, ?_⟩
      · rw [same]
      · intro other impossible
        cases impossible
    · refine ⟨before, after ++ [registration], ?_, ?_⟩
      · rw [whole, List.append_assoc, List.cons_append]
      · intro other member
        rcases List.mem_append.mp member with inAfter | atEnd
        · exact none other inAfter
        · exact otherKind other (List.mem_singleton.mp atEnd)

/-- One of the tables of a source, and the kind of registration that is entered in it. -/
structure Enters (table : MemorySource → List (String × α))
    (kind : String → α → Registration) : Prop where
  empty : table {} = []
  entered : ∀ memory key value,
    table (memory.register (kind key value)) = (key, value) :: table memory
  kept : ∀ memory registration, (∀ key value, kind key value ≠ registration) →
    table (memory.register registration) = table memory
  apart : ∀ key value otherKey otherValue, kind key value = kind otherKey otherValue →
    key = otherKey ∧ value = otherValue

theorem enters_messages : Enters messages .commit where
  empty := rfl
  entered _ _ _ := rfl
  kept memory registration otherKind := by
    cases registration with
    | commit sha message => exact absurd rfl (otherKind sha message)
    | name | range => rfl
  apart _ _ _ _ same := Registration.commit.inj same

theorem enters_names : Enters names .name where
  empty := rfl
  entered _ _ _ := rfl
  kept memory registration otherKind := by
    cases registration with
    | name name sha => exact absurd rfl (otherKind name sha)
    | commit | range => rfl
  apart _ _ _ _ same := Registration.name.inj same

theorem enters_ranges : Enters ranges .range where
  empty := rfl
  entered _ _ _ := rfl
  kept memory registration otherKind := by
    cases registration with
    | range range shas => exact absurd rfl (otherKind range shas)
    | commit | name => rfl
  apart _ _ _ _ same := Registration.range.inj same

theorem lookup_eq_some_iff {table : MemorySource → List (String × α)}
    {kind : String → α → Registration} (enters : Enters table kind) {key : String} {value : α} :
    (table (ofRegistrations registrations)).lookup key = some value ↔
      IsLast registrations (kind key) value := by
  induction registrations using List.reverseRecOn with
  | nil =>
      change (table {}).lookup key = some value ↔ _
      rw [enters.empty]
      constructor
      · intro impossible
        cases impossible
      · intro last
        exact absurd last not_isLast_nil
  | append_singleton earlier registration ih =>
      rw [ofRegistrations_concat, isLast_concat, ← ih]
      by_cases entered : ∃ last new, kind last new = registration
      · obtain ⟨last, new, rfl⟩ := entered
        rw [enters.entered, List.lookup_cons]
        by_cases same : key = last
        · subst same
          rw [beq_self_eq_true]
          constructor
          · intro found
            cases found
            exact Or.inl rfl
          · rintro (equal | ⟨otherKind, -⟩)
            · rw [(enters.apart _ _ _ _ equal).2]
            · exact absurd rfl (otherKind new)
        · rw [beq_eq_false_iff_ne.mpr same]
          have otherKind (other : α) : kind key other ≠ kind last new :=
            fun equal => same (enters.apart _ _ _ _ equal).1
          constructor
          · intro found
            exact Or.inr ⟨otherKind, found⟩
          · rintro (equal | ⟨-, found⟩)
            · exact absurd equal (otherKind value)
            · exact found
      · have otherKind (other : String) (new : α) : kind other new ≠ registration :=
          fun equal => entered ⟨other, new, equal⟩
        rw [enters.kept _ _ otherKind]
        constructor
        · intro found
          exact Or.inr ⟨otherKind key, found⟩
        · rintro (equal | ⟨-, found⟩)
          · exact absurd equal (otherKind key value)
          · exact found

end

/-! ### Ranges -/

theorem sha_eq_self_iff {memory : MemorySource} {reference : String} :
    memory.sha reference = reference ↔
      ∀ target, memory.names.lookup reference = some target → target = reference := by
  unfold MemorySource.sha
  cases memory.names.lookup reference <;> simp

theorem shas_eq_ok_iff {memory : MemorySource} {range : String} {shas : List String} :
    memory.shas range = .ok shas ↔ memory.ranges.lookup range = some shas := by
  unfold MemorySource.shas
  cases memory.ranges.lookup range <;> simp

theorem commits_of_references {memory : MemorySource} {references : List String}
    {commits : List Commit}
    (found : List.Forall₂ (fun reference commit => memory.commit reference = .ok commit) references
      commits) :
    commits.map Commit.sha = references.map memory.sha ∧
      ∀ commit ∈ commits, memory.messages.lookup commit.sha = some commit.message := by
  induction found with
  | nil =>
      refine ⟨rfl, ?_⟩
      intro commit impossible
      cases impossible
  | cons first _ ih =>
      obtain ⟨same, registered⟩ := commit_eq_ok_iff.mp first
      obtain ⟨hashes, messages⟩ := ih
      refine ⟨?_, List.forall_mem_cons.mpr ⟨registered, messages⟩⟩
      rw [List.map_cons, List.map_cons, same, hashes]

/-- A range gives the commits that it lists, each with the message registered last under its hash,
exactly if none of its hashes is also a name for another one. The commits that it gives otherwise
have the messages registered last under their own hashes, which are not the listed ones. -/
theorem range_lists_own_iff {registrations : List Registration} {range : String}
    {commits : List Commit}
    (found : (ofRegistrations registrations).source.commitsInRange range = .ok commits) :
    ∃ shas, (ofRegistrations registrations).source.shas range = .ok shas ∧
      IsLast registrations (.range range) shas ∧
      commits.map Commit.sha = shas.map (ofRegistrations registrations).sha ∧
      (∀ commit ∈ commits, IsLast registrations (.commit commit.sha) commit.message) ∧
      (commits.map Commit.sha = shas ↔
        ∀ sha ∈ shas, ∀ target, IsLast registrations (.name sha) target → target = sha) := by
  obtain ⟨shas, listed, found⟩ := Source.commitsInRange_eq_ok_iff.mp found
  obtain ⟨hashes, messages⟩ := commits_of_references found
  refine ⟨shas, listed, ?_, hashes, ?_, ?_⟩
  · exact (lookup_eq_some_iff enters_ranges).mp (shas_eq_ok_iff.mp listed)
  · intro commit member
    exact (lookup_eq_some_iff enters_messages).mp (messages commit member)
  · rw [hashes]
    have each : shas.map (ofRegistrations registrations).sha = shas ↔
        ∀ sha ∈ shas, (ofRegistrations registrations).sha sha = sha := by
      conv_lhs => rhs; rw [← List.map_id shas]
      exact List.map_inj_left
    rw [each]
    simp only [sha_eq_self_iff, lookup_eq_some_iff enters_names]

def borrowedHash : List Registration :=
  [.commit "a" "[BUG] one", .commit "b" "[DOCS] two", .name "a" "b", .range "all" ["b", "a"]]

theorem range_lists_own_borrowedHash :
    ∃ shas, (ofRegistrations borrowedHash).source.shas "all" = .ok shas ∧
      IsLast borrowedHash (.range "all") shas ∧
      [⟨"b", "[DOCS] two"⟩, ⟨"b", "[DOCS] two"⟩].map Commit.sha =
        shas.map (ofRegistrations borrowedHash).sha ∧
      (∀ commit ∈ [(⟨"b", "[DOCS] two"⟩ : Commit), ⟨"b", "[DOCS] two"⟩],
        IsLast borrowedHash (.commit commit.sha) commit.message) ∧
      ([⟨"b", "[DOCS] two"⟩, ⟨"b", "[DOCS] two"⟩].map Commit.sha = shas ↔
        ∀ sha ∈ shas, ∀ target, IsLast borrowedHash (.name sha) target → target = sha) :=
  range_lists_own_iff rfl

/-- A range that lists two commits gives one of them twice and the other one not at all. -/
theorem borrowed_hash_hides_commit :
    (ofRegistrations borrowedHash).source.shas "all" = .ok ["b", "a"] ∧
      (ofRegistrations borrowedHash).source.commitsInRange "all" =
        .ok [⟨"b", "[DOCS] two"⟩, ⟨"b", "[DOCS] two"⟩] ∧
      IsLast borrowedHash (.commit "a") "[BUG] one" := by
  refine ⟨rfl, rfl, [], _, rfl, ?_⟩
  intro other
  simp

end CommitCheck.MemorySource
