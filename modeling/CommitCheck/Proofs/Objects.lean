import CommitCheck.Proofs.Walk
import CommitCheck.Revision.Resolve
import CommitCheck.Source.Log.Revision
import Mathlib

set_option autoImplicit false

/-! The objects that revisions lead to, and their hashes. Where every object has a hash of its own,
an object is found again by its hash, and every step of a revision leads from one object of the
history to another. -/

namespace CommitCheck

theorem bind_eq_ok_iff {Fault α β : Type} {first : Except Fault α} {next : α → Except Fault β}
    {result : β} :
    first >>= next = .ok result ↔ ∃ found, first = .ok found ∧ next found = .ok result := by
  cases first with
  | error fault =>
      constructor
      · intro impossible
        cases impossible
      · rintro ⟨found, impossible, -⟩
        cases impossible
  | ok found =>
      constructor
      · intro ran
        exact ⟨found, rfl, ran⟩
      · rintro ⟨other, same, ran⟩
        cases same
        exact ran

theorem map_eq_ok_iff {Fault α β : Type} {first : Except Fault α} {change : α → β} {result : β} :
    first.map change = .ok result ↔ ∃ found, first = .ok found ∧ change found = result := by
  cases first <;> simp [Except.map]

theorem bind_eq_error_iff {Fault α β : Type} {first : Except Fault α} {next : α → Except Fault β}
    {fault : Fault} :
    first >>= next = .error fault ↔
      first = .error fault ∨ ∃ found, first = .ok found ∧ next found = .error fault := by
  cases first with
  | error other =>
      constructor
      · intro failed
        cases failed
        exact Or.inl rfl
      · rintro (failed | ⟨found, impossible, -⟩)
        · cases failed
          rfl
        · cases impossible
  | ok found =>
      constructor
      · intro failed
        exact Or.inr ⟨found, rfl, failed⟩
      · rintro (impossible | ⟨other, same, failed⟩)
        · cases impossible
        · cases same
          exact failed

theorem map_eq_error_iff {Fault α β : Type} {first : Except Fault α} {change : α → β}
    {fault : Fault} : first.map change = .error fault ↔ first = .error fault := by
  cases first <;> simp [Except.map]

namespace History

def hashes (history : History) : List String :=
  Revision.emptyTree :: (history.commits.map StoredCommit.sha ++ history.tags.map StoredTag.sha)

/-- Every object has a hash of its own, written in digits and small letters, and every tag is the
tag of a commit that is stored. -/
@[mk_iff]
structure Identified (history : History) : Prop where
  digits : ∀ hash ∈ history.hashes, Revision.isHash hash.toList = true
  small : ∀ hash ∈ history.hashes, Revision.hashOfDigits hash.toList = hash
  distinct : history.hashes.Nodup
  tagged : ∀ tag ∈ history.tags, tag.commit < history.commits.length

variable {history : History} {commit : Nat}

instance : Decidable history.Identified :=
  decidable_of_iff _ (identified_iff history).symm

theorem sha_eq (bound : commit < history.commits.length) :
    history.sha commit = history.commits[commit].sha := by
  unfold sha
  rw [List.getElem?_eq_getElem bound]
  rfl

theorem sha_mem_hashes (bound : commit < history.commits.length) :
    history.sha commit ∈ history.hashes := by
  rw [sha_eq bound]
  apply List.mem_cons_of_mem
  apply List.mem_append_left
  exact List.mem_map_of_mem (List.getElem_mem bound)

end History

namespace Revision

/-- The object belongs to the history. The tree belongs to every history. -/
def Object.Within (history : History) : Object → Prop
  | .commit position => position < history.commits.length
  | .tag number => number < history.tags.length
  | .tree => True

variable {history : History}

private def slot (history : History) : Object → Nat
  | .tree => 0
  | .commit position => position + 1
  | .tag number => history.commits.length + number + 1

private theorem getElem?_slot {object : Object} (within : object.Within history) :
    history.hashes[slot history object]? = some (object.hash history) := by
  unfold History.hashes slot Object.hash
  cases object with
  | tree => rfl
  | commit position =>
      have bound : position < history.commits.length := within
      simp [History.sha, List.getElem?_append_left, bound]
  | tag number =>
      have bound : number < history.tags.length := within
      simp [bound]

private theorem slot_inj {first second : Object} (firstWithin : first.Within history)
    (secondWithin : second.Within history) (same : slot history first = slot history second) :
    first = second := by
  cases first <;> cases second <;>
    simp only [slot, Object.Within, Object.commit.injEq, Object.tag.injEq, reduceCtorEq] at * <;>
    omega

theorem hash_inj (identified : history.Identified) {first second : Object}
    (firstWithin : first.Within history) (secondWithin : second.Within history)
    (same : first.hash history = second.hash history) : first = second := by
  have firstSlot := getElem?_slot firstWithin
  have secondSlot := getElem?_slot secondWithin
  apply slot_inj firstWithin secondWithin
  apply (List.getElem?_inj (List.getElem?_eq_some_iff.mp firstSlot).1 identified.distinct).mp
  rw [firstSlot, secondSlot, same]

theorem sha_inj (identified : history.Identified) {a b : Nat} (left : a < history.commits.length)
    (right : b < history.commits.length) (same : history.sha a = history.sha b) : a = b := by
  have object := @hash_inj history identified (.commit a) (.commit b) left right same
  cases object
  rfl

theorem not_mem_of_isHash {cs : List Char} (hash : isHash cs = true) {c : Char}
    (other : isHexDigit c = false) : c ∉ cs := by
  intro member
  unfold isHash at hash
  rw [Bool.and_eq_true, List.all_eq_true] at hash
  have digit := hash.2 c member
  rw [other] at digit
  cases digit

theorem isHash_sha (identified : history.Identified) {commit : Nat}
    (bound : commit < history.commits.length) : isHash (history.sha commit).toList = true :=
  identified.digits _ (History.sha_mem_hashes bound)

theorem not_mem_sha (identified : history.Identified) {commit : Nat}
    (bound : commit < history.commits.length) {c : Char} (other : isHexDigit c = false) :
    c ∉ (history.sha commit).toList :=
  not_mem_of_isHash (isHash_sha identified bound) other

theorem nodup_map_sha_walk (identified : history.Identified) (starts hidden : List Nat) :
    ((history.walk starts hidden).map history.sha).Nodup := by
  apply (history.nodup_walk starts hidden).map_on
  intro a memberLeft b memberRight same
  exact sha_inj identified (History.lt_of_mem_walk memberLeft) (History.lt_of_mem_walk memberRight)
    same

theorem map_sha_walk_eq_singleton_iff (orderly : History.Orderly history) {commit : Nat}
    (bound : commit < history.commits.length) {hash : String} :
    (history.walk [commit] []).map history.sha = [hash] ↔
      hash = history.sha commit ∧ history.parents commit = [] := by
  rw [← History.walk_single_eq_iff bound, List.map_eq_singleton_iff]
  constructor
  · rintro ⟨only, whole, rfl⟩
    have first := History.head?_walk_single bound orderly
    rw [whole, List.head?_cons, Option.some_inj] at first
    subst first
    exact ⟨rfl, whole⟩
  · rintro ⟨rfl, whole⟩
    exact ⟨commit, whole, rfl⟩

private theorem exists_entry_iff {α : Type} {entries : List α} {index : Nat} {key : α → String}
    {hash : String} :
    (∃ entry, entries[index]? = some entry ∧ key entry = hash) ↔
      index < entries.length ∧ (entries[index]?.map key).getD "" = hash := by
  by_cases bound : index < entries.length
  · simp [bound]
  · simp [bound]

private theorem mem_objects {hash : String} {object : Object} :
    (hash, object) ∈ objects history ↔ object.Within history ∧ object.hash history = hash ∧
      (object = .tree → history.hasTree = true) := by
  unfold objects Object.Within Object.hash
  cases object with
  | commit position =>
      simp [List.mem_zipIdx_iff_getElem?, History.sha, exists_entry_iff]
  | tag number =>
      simp [List.mem_zipIdx_iff_getElem?, exists_entry_iff]
  | tree =>
      simp only [List.mem_append, List.mem_map, Prod.mk.injEq, reduceCtorEq, and_false,
        exists_false, false_or, true_and, true_implies]
      cases history.hasTree <;> simp [eq_comm]

theorem of_object? {hash : String} {object : Object}
    (found : object? history hash = some object) :
    object.Within history ∧ object.hash history = hash := by
  obtain ⟨before, after, whole, -⟩ := List.lookup_eq_some_iff.mp found
  have member : (hash, object) ∈ objects history := by
    rw [whole]
    exact List.mem_append_right before List.mem_cons_self
  obtain ⟨within, same, -⟩ := mem_objects.mp member
  exact ⟨within, same⟩

theorem object?_hash (identified : history.Identified) {object : Object}
    (within : object.Within history) (stored : object = .tree → history.hasTree = true) :
    object? history (object.hash history) = some object := by
  cases found : object? history (object.hash history) with
  | none =>
      have missed := List.lookup_eq_none_iff.mp found _ (mem_objects.mpr ⟨within, rfl, stored⟩)
      exact absurd rfl (bne_iff_ne.mp missed)
  | some other =>
      obtain ⟨otherWithin, same⟩ := of_object? found
      rw [hash_inj identified otherWithin within same]

theorem object?_sha (identified : history.Identified) {commit : Nat}
    (bound : commit < history.commits.length) :
    object? history (history.sha commit) = some (.commit commit) := by
  apply @object?_hash _ identified (.commit commit) bound
  intro impossible
  cases impossible

/-! ### Steps -/

theorem within_untagged (identified : history.Identified) {object : Object}
    (within : object.Within history) : (object.untagged history).Within history := by
  cases object with
  | commit position => exact within
  | tree => exact within
  | tag number =>
      have bound : number < history.tags.length := within
      simp only [Object.untagged, List.getElem?_eq_getElem bound]
      exact identified.tagged _ (List.getElem_mem bound)

theorem untagged_of_commit? {object : Object} {position : Nat}
    (found : object.commit? history = some position) :
    object.untagged history = .commit position := by
  unfold Object.commit? at found
  split at found
  · next same =>
      cases found
      exact same
  · cases found

theorem lt_of_commit? (identified : history.Identified) {object : Object}
    (within : object.Within history) {position : Nat}
    (found : object.commit? history = some position) : position < history.commits.length := by
  have stays := within_untagged identified within
  rw [untagged_of_commit? found] at stays
  exact stays

theorem reaches_of_firstAncestor {start count ancestor : Nat}
    (found : firstAncestor history start count = .ok ancestor) :
    History.Reaches history ancestor start := by
  induction count generalizing start with
  | zero =>
      cases found
      exact .refl _
  | succ count ih =>
      unfold firstAncestor at found
      split at found
      · next next others whole =>
          have member : next ∈ history.parents start := by
            rw [whole]
            exact List.mem_cons_self
          exact .step member (ih found)
      · cases found

theorem reaches_of_parent {start number ancestor : Nat}
    (found : parent history start number = .ok ancestor) :
    History.Reaches history ancestor start := by
  unfold parent at found
  split at found
  · cases found
    exact .refl _
  · split at found
    · next next whole =>
        cases found
        exact .step (List.mem_of_getElem? whole) (.refl _)
    · cases found

theorem within_of_peel? (identified : history.Identified) {object peeled : Object}
    (within : object.Within history) {kind : Kind}
    (found : object.peel? history kind = some peeled) : peeled.Within history := by
  unfold Object.peel? at found
  split at found
  · cases found
    exact within
  · split at found
    · obtain ⟨position, named, rfl⟩ := Option.map_eq_some_iff.mp found
      exact lt_of_commit? identified within named
    · cases found
      trivial
    · cases found

theorem take_cases {object next : Object} {step : Step}
    (taken : take history object step = .ok next) :
    (∃ count start ancestor, step = .back count ∧ object.commit? history = some start ∧
      firstAncestor history start count = .ok ancestor ∧ next = .commit ancestor) ∨
    (∃ number start ancestor, step = .parent number ∧ object.commit? history = some start ∧
      parent history start number = .ok ancestor ∧ next = .commit ancestor) ∨
    (step = .peel "" ∧ next = object.untagged history) ∨
    (∃ kind ∈ Kind.all, step = .peel kind.word ∧ object.peel? history kind = some next) ∨
    (step = .entry [] ∧ next = .tree) := by
  unfold take at taken
  split at taken
  · next count start found =>
      obtain ⟨ancestor, walked, rfl⟩ := map_eq_ok_iff.mp taken
      exact Or.inl ⟨count, start, ancestor, rfl, found, walked, rfl⟩
  · next number start found =>
      obtain ⟨ancestor, walked, rfl⟩ := map_eq_ok_iff.mp taken
      exact Or.inr (Or.inl ⟨number, start, ancestor, rfl, found, walked, rfl⟩)
  · cases taken
    exact Or.inr (Or.inr (Or.inl ⟨rfl, rfl⟩))
  · next word _ =>
      split at taken
      · next kind found =>
          have member := List.mem_of_find?_eq_some found
          have worded := List.find?_some found
          rw [beq_iff_eq] at worded
          subst worded
          unfold peel at taken
          split at taken
          · next peeled =>
              cases taken
              exact Or.inr (Or.inr (Or.inr (Or.inl ⟨kind, member, rfl, peeled⟩)))
          · cases taken
          · cases taken
      · cases taken
  · next path =>
      unfold entry at taken
      split at taken
      · next empty =>
          cases taken
          rw [List.isEmpty_iff] at empty
          subst empty
          exact Or.inr (Or.inr (Or.inr (Or.inr ⟨rfl, rfl⟩)))
      · split at taken <;> cases taken
  · cases taken

theorem within_of_take (identified : history.Identified) {object next : Object}
    (within : object.Within history) {step : Step} (taken : take history object step = .ok next) :
    next.Within history := by
  have toAncestor {start ancestor : Nat} (found : object.commit? history = some start)
      (reaches : History.Reaches history ancestor start) :
      (Object.commit ancestor).Within history :=
    Nat.lt_of_le_of_lt reaches.le (lt_of_commit? identified within found)
  rcases take_cases taken with ⟨count, start, ancestor, -, found, walked, rfl⟩ |
    ⟨number, start, ancestor, -, found, walked, rfl⟩ | ⟨-, rfl⟩ | ⟨kind, -, -, peeled⟩ | ⟨-, rfl⟩
  · exact toAncestor found (reaches_of_firstAncestor walked)
  · exact toAncestor found (reaches_of_parent walked)
  · exact within_untagged identified within
  · exact within_of_peel? identified within peeled
  · trivial

theorem eq_tree_of_take {step : Step} {next : Object} (taken : take history .tree step = .ok next) :
    next = .tree := by
  rcases take_cases taken with ⟨_, _, _, -, found, -⟩ | ⟨_, _, _, -, found, -⟩ | ⟨-, rfl⟩ |
    ⟨kind, -, -, peeled⟩ | ⟨-, rfl⟩
  · cases found
  · cases found
  · rfl
  · cases kind <;> cases peeled
    rfl
  · rfl

theorem takeAll_cons {object last : Object} {step : Step} {steps : List Step}
    (taken : takeAll history object (step :: steps) = .ok last) :
    ∃ next, take history object step = .ok next ∧ takeAll history next steps = .ok last := by
  unfold takeAll at taken
  split at taken
  · cases taken
  · exact bind_eq_ok_iff.mp taken

theorem eq_tree_of_takeAll {steps : List Step} {last : Object}
    (taken : takeAll history .tree steps = .ok last) : last = .tree := by
  induction steps with
  | nil =>
      cases taken
      rfl
  | cons step steps ih =>
      obtain ⟨next, first, others⟩ := takeAll_cons taken
      rw [eq_tree_of_take first] at others
      exact ih others

theorem within_of_takeAll (identified : history.Identified) {object last : Object}
    (within : object.Within history) {steps : List Step}
    (taken : takeAll history object steps = .ok last) : last.Within history := by
  induction steps generalizing object with
  | nil =>
      cases taken
      exact within
  | cons step steps ih =>
      obtain ⟨next, first, others⟩ := takeAll_cons taken
      exact ih (within_of_take identified within first) others

/-! ### Names and revisions -/

private theorem within_of_abbreviated? {digits : List Char} {object : Object}
    (found : abbreviated? history digits = .ok (some object)) : object.Within history := by
  unfold abbreviated? at found
  split at found
  · cases found
  · split at found
    · cases found
    · split at found
      · cases found
      · exact (of_object? (Except.ok.inj found)).1
      · cases found

private theorem within_of_described? {name : List Char} {object : Object}
    (found : described? history name = .ok (some object)) : object.Within history := by
  unfold described? at found
  dsimp only at found
  split at found
  · obtain ⟨abbreviated, looked, found⟩ := bind_eq_ok_iff.mp found
    split at found
    · cases found
      exact within_of_abbreviated? looked
    · split at found
      · exact within_of_abbreviated? found
      · cases found
  · split at found
    · exact within_of_abbreviated? found
    · cases found

theorem named_cases {repository : Repository} {name : String} {object : Object}
    (found : named repository name = .ok object) :
    (isHash name.toList = true ∧
      object? repository.history (hashOfDigits name.toList) = some object) ∨
    (∃ hash, repository.firstTarget? (candidates name) = .ok (some hash) ∧
      object? repository.history hash = some object) ∨
    (isShortName name = true ∧
      described? repository.history name.toList = .ok (some object)) := by
  unfold named at found
  dsimp only at found
  split at found
  · next whole =>
      cases found
      split at whole
      · next hash => exact Or.inl ⟨hash, whole⟩
      · cases whole
  · obtain ⟨target?, targeted, found⟩ := bind_eq_ok_iff.mp found
    split at found
    · split at found
      · next looked =>
          cases found
          exact Or.inr (Or.inl ⟨_, targeted, looked⟩)
      · cases found
    · split at found
      · next short =>
          obtain ⟨described, looked, found⟩ := bind_eq_ok_iff.mp found
          split at found
          · cases found
            exact Or.inr (Or.inr ⟨short, looked⟩)
          · cases found
      · cases found

theorem within_of_named {repository : Repository} {name : String} {object : Object}
    (found : named repository name = .ok object) : object.Within repository.history := by
  rcases named_cases found with ⟨-, looked⟩ | ⟨hash, -, looked⟩ | ⟨-, described⟩
  · exact (of_object? looked).1
  · exact (of_object? looked).1
  · exact within_of_described? described

/-- A revision leads to its object in one of two ways: it is short for `HEAD`, or it is a name and
steps from what is named. -/
theorem resolve_cases {repository : Repository} {revision : String} {object : Object}
    (found : resolve repository revision = .ok object) :
    '\x00' ∉ revision.toList ∧
      (((split revision.toList).2 = [] ∧ (split revision.toList).1.getLast? = some '@' ∧
          named repository "HEAD" = .ok object) ∨
        ((split revision.toList).1 ≠ [] ∧
          ((split revision.toList).2 = [] → (split revision.toList).1.getLast? ≠ some '@') ∧
          ∃ start, named repository (String.ofList (split revision.toList).1) = .ok start ∧
            takeAll repository.history start (steps (split revision.toList).2) = .ok object)) := by
  unfold resolve at found
  dsimp only at found
  split at found
  · cases found
  · next zeroFree =>
      have free : '\x00' ∉ revision.toList := by
        rw [String.contains_char_eq, Bool.not_eq_true, decide_eq_false_iff_not] at zeroFree
        exact zeroFree
      refine ⟨free, ?_⟩
      split at found
      · cases found
      · split at found
        · next short =>
            rw [Bool.and_eq_true, List.isEmpty_iff, beq_iff_eq] at short
            exact Or.inl ⟨short.1, short.2, found⟩
        · next long =>
            rw [Bool.and_eq_true, List.isEmpty_iff, beq_iff_eq, not_and] at long
            split at found
            · cases found
            · next nonempty =>
                rw [List.isEmpty_iff] at nonempty
                split at found
                · cases found
                · exact Or.inr ⟨nonempty, long, bind_eq_ok_iff.mp found⟩

theorem within_of_resolve {repository : Repository} (identified : repository.history.Identified)
    {revision : String} {object : Object} (found : resolve repository revision = .ok object) :
    object.Within repository.history := by
  rcases (resolve_cases found).2 with ⟨-, -, head⟩ | ⟨-, -, start, first, others⟩
  · exact within_of_named head
  · exact within_of_takeAll identified (within_of_named first) others

theorem commit_eq_ok_iff {repository : Repository} {revision : String} {position : Nat} :
    commit repository revision = .ok position ↔
      ∃ object, resolve repository revision = .ok object ∧
        object.commit? repository.history = some position := by
  unfold commit
  rw [bind_eq_ok_iff]
  apply exists_congr
  intro object
  apply and_congr_right
  intro _
  cases object.commit? repository.history <;> simp

theorem lt_of_commit {repository : Repository} (identified : repository.history.Identified)
    {revision : String} {position : Nat} (found : commit repository revision = .ok position) :
    position < repository.history.commits.length := by
  obtain ⟨object, resolved, named⟩ := commit_eq_ok_iff.mp found
  exact lt_of_commit? identified (within_of_resolve identified resolved) named

theorem ne_empty_of_commit {repository : Repository} {revision : String} {position : Nat}
    (found : commit repository revision = .ok position) : revision ≠ "" := by
  rintro rfl
  obtain ⟨object, resolved, -⟩ := commit_eq_ok_iff.mp found
  rcases (resolve_cases resolved).2 with ⟨-, short, -⟩ | ⟨nonempty, -⟩
  · exact absurd short (by decide)
  · exact nonempty (by decide)

end Revision

end CommitCheck
