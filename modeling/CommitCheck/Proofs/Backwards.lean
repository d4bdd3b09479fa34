import CommitCheck.Proofs.Spelling
import CommitCheck.Source.Log.Selection

set_option autoImplicit false

/-! Reading a revision from its end. The step at the end is the last one that a reading from the
front finds, so both readings lead to the same commit if they find the same under the name. The full
hash of a commit leads to that commit either way. -/

namespace CommitCheck.Log

open Revision (Spelling Spells)

private theorem takeWhile_digits {digits : List Char} (all : ∀ c ∈ digits, c.isDigit = true)
    {mark : Char} (noDigit : mark.isDigit = false) (before : List Char) :
    (digits.reverse ++ mark :: before).takeWhile Char.isDigit = digits.reverse ∧
      (digits.reverse ++ mark :: before).dropWhile Char.isDigit = mark :: before := by
  have backwards : ∀ c ∈ digits.reverse, c.isDigit = true := by
    intro c member
    exact all c (List.mem_reverse.mp member)
  have stops : ¬mark.isDigit = true := by
    rw [noDigit]
    decide
  constructor
  · rw [List.takeWhile_append_of_pos backwards, List.takeWhile_cons_of_neg stops, List.append_nil]
  · rw [List.dropWhile_append_of_pos backwards, List.dropWhile_cons_of_neg stops]

private theorem bracedStep_word {word : String} (member : word ∈ Revision.kindWords) :
    bracedStep (word.toList ++ ['\x7d']) = .peel word ∧ '\x7b' ∉ word.toList := by
  revert member
  revert word
  decide

theorem lastStep?_spelling {text : List Char} {step : Revision.Step}
    (spelling : Spelling text step) (before : List Char) :
    lastStep? (text.reverse ++ before) = some (step, before) := by
  cases spelling with
  | @back digits count all counted =>
      have whole : ('~' :: digits).reverse ++ before = digits.reverse ++ '~' :: before := by simp
      obtain ⟨taken, left⟩ := @takeWhile_digits digits all '~' (by decide) before
      unfold lastStep?
      rw [whole, taken, left, List.reverse_reverse, counted]
      rfl
  | @parent digits number all counted =>
      have whole : ('^' :: digits).reverse ++ before = digits.reverse ++ '^' :: before := by simp
      obtain ⟨taken, left⟩ := @takeWhile_digits digits all '^' (by decide) before
      unfold lastStep?
      rw [whole, taken, left, List.reverse_reverse, counted]
      rfl
  | @peel word member =>
      obtain ⟨braced, noBrace⟩ := bracedStep_word member
      have whole : ('^' :: '\x7b' :: (word.toList ++ ['\x7d'])).reverse ++ before =
          ('\x7d' :: word.toList.reverse) ++ ['\x7b', '^'] ++ before := by simp
      have first : ¬['\x7b', '^'] <:+: ('\x7d' :: word.toList.reverse) ++ ['\x7b'] := by
        intro found
        have caret := Text.infix_pair_append found (by simpa using noBrace)
        exact absurd caret (by decide)
      have split := Text.splitOnce?_append (by decide) first before
      unfold lastStep?
      rw [whole, split]
      simp [braced]

def follow? (history : History) (hash : String) (step : Revision.Step) : Option String := do
  let object ← object? history hash
  let next ← take? history object step
  return next.hash history

theorem hashBackwards?_spelling {repository : Repository} {text : List Char} {step : Revision.Step}
    (spelling : Spelling text step) (before : List Char) :
    hashBackwards? repository (text.reverse ++ before) =
      (hashBackwards? repository before).bind fun hash =>
        follow? repository.history hash step := by
  rw [hashBackwards?]
  split
  · next last rest found =>
      rw [lastStep?_spelling spelling before] at found
      cases found
      rfl
  · next found =>
      rw [lastStep?_spelling spelling before] at found
      cases found

theorem hashBackwards?_spells {repository : Repository} {text : List Char}
    {steps : List Revision.Step} (spells : Spells text steps) (long : text.getLast? ≠ some '@')
    (name : List Char) :
    hashBackwards? repository (name ++ text).reverse =
      (hashBackwards? repository name.reverse).bind fun hash =>
        steps.foldlM (follow? repository.history) hash := by
  induction spells generalizing name with
  | nil =>
      rw [List.append_nil]
      simp
  | sign => exact absurd rfl long
  | @cons text rest step steps spelling _ ih =>
      have restLong : rest.getLast? ≠ some '@' := by
        intro last
        apply long
        rw [List.getLast?_append, last]
        rfl
      rw [← List.append_assoc, ih restLong, List.reverse_append, hashBackwards?_spelling spelling,
        Option.bind_assoc]
      rfl

theorem lastStep?_of_plain {name : List Char} (noBack : '~' ∉ name) (noParent : '^' ∉ name) :
    lastStep? name.reverse = none := by
  have inside {c : Char} {cs : List Char}
      (found : name.reverse.dropWhile Char.isDigit = c :: cs) : c ∈ name := by
    apply List.mem_reverse.mp
    apply (List.dropWhile_sublist Char.isDigit).subset
    rw [found]
    exact List.mem_cons_self
  unfold lastStep?
  split
  · next found => exact absurd (inside found) noBack
  · next found => exact absurd (inside found) noParent
  · split
    · rw [Text.splitOnce?_eq_none_iff.mpr]
      · rfl
      · intro found
        exact noParent (List.mem_reverse.mp (found.subset (by decide)))
    · rfl

theorem hashBackwards?_of_plain {repository : Repository} {name : List Char} (noBack : '~' ∉ name)
    (noParent : '^' ∉ name) :
    hashBackwards? repository name.reverse = namedHash? repository name := by
  rw [hashBackwards?]
  split
  · next found =>
      rw [lastStep?_of_plain noBack noParent] at found
      cases found
  · rw [List.reverse_reverse]

theorem take?_of_take {history : History} {object next : Revision.Object} {step : Revision.Step}
    (taken : Revision.take history object step = .ok next) :
    take? history object step = some next := by
  have plain : step ≠ .peel "object" := by
    rintro rfl
    cases taken
  unfold take?
  rw [if_neg plain, taken]
  rfl

section

variable {history : History} (identified : history.Identified)

include identified

theorem object?_hash {object : Revision.Object} (within : object.Within history) :
    object? history (object.hash history) = some object := by
  unfold object?
  split
  · next same =>
      rw [@Revision.hash_inj _ identified object .tree within trivial same]
  · next other =>
      apply Revision.object?_hash identified within
      rintro rfl
      exact absurd rfl other

theorem follow?_takeAll {object last : Revision.Object} (within : object.Within history)
    {steps : List Revision.Step} (taken : Revision.takeAll history object steps = .ok last) :
    steps.foldlM (follow? history) (object.hash history) = some (last.hash history) := by
  induction steps generalizing object with
  | nil =>
      cases taken
      rfl
  | cons step steps ih =>
      obtain ⟨next, first, others⟩ := Revision.takeAll_cons taken
      have followed : follow? history (object.hash history) step = some (next.hash history) := by
        unfold follow?
        rw [object?_hash identified within]
        change (take? history object step).bind _ = _
        rw [take?_of_take first]
        rfl
      rw [List.foldlM_cons, followed]
      exact ih (Revision.within_of_take identified within first) others

end

/-- Under the name in a revision, both readings find the same. -/
def NamesAlike (repository : Repository) (revision : String) : Prop :=
  let name := (Revision.split revision.toList).1
  ∀ object, Revision.named repository (if revision = "@" then "HEAD" else String.ofList name) =
    .ok object → namedHash? repository name = some (object.hash repository.history)

/-- A revision that leads to a commit from the front leads to it from the end as well. -/
theorem object_of_commit {repository : Repository} (identified : repository.history.Identified)
    {revision : String} {position : Nat}
    (found : Revision.commit repository revision = .ok position)
    (long : revision = "@" ∨ revision.toList.getLast? ≠ some '@')
    (alike : NamesAlike repository revision) :
    ∃ object, Log.object repository revision.toList = .ok object ∧
      object.commit? repository.history = some position := by
  obtain ⟨object, resolved, named⟩ := Revision.commit_eq_ok_iff.mp found
  refine ⟨object, ?_, named⟩
  have fromName : hashBackwards? repository (Revision.split revision.toList).1.reverse =
      namedHash? repository (Revision.split revision.toList).1 := by
    apply hashBackwards?_of_plain
    · exact Revision.not_mem_split (Or.inl rfl)
    · exact Revision.not_mem_split (Or.inr (Or.inl rfl))
  have hashed : hashBackwards? repository revision.toList.reverse =
      some (object.hash repository.history) := by
    have whole := Revision.split_append revision.toList
    rcases (Revision.resolve_cases resolved).2 with ⟨nothing, short, head⟩ |
      ⟨-, notShort, start, first, taken⟩
    · rw [nothing, List.append_nil] at whole
      rw [whole] at short fromName
      have atSign : revision = "@" := long.resolve_right (fun other => other short)
      rw [fromName]
      have same := alike object
      rw [if_pos atSign, whole] at same
      exact same head
    · have notAtSign : revision ≠ "@" := by
        rintro rfl
        exact notShort rfl rfl
      have restLong : (Revision.split revision.toList).2.getLast? ≠ some '@' := by
        intro last
        apply long.resolve_left notAtSign
        rw [← whole, List.getLast?_append, last]
        rfl
      have same := alike start
      rw [if_neg notAtSign] at same
      have spells := Revision.spells_of_commit found
      have backwards := @hashBackwards?_spells repository _ _ spells restLong
        (Revision.split revision.toList).1
      rw [whole, fromName, same first] at backwards
      rw [backwards]
      exact follow?_takeAll identified (Revision.within_of_named first) taken
  have held := object?_hash identified (Revision.within_of_resolve identified resolved)
  unfold Log.object hash?
  simp only [hashed, held]

theorem split_of_isHash {cs : List Char} (hash : Revision.isHash cs = true) :
    Revision.split cs = (cs, []) := by
  have kept : ∀ c ∈ cs, (c != '~' && c != '^' && c != ':') = true := by
    intro c member
    have absent {other : Char} (noDigit : Revision.isHexDigit other = false) : c ≠ other := by
      rintro rfl
      exact Revision.not_mem_of_isHash hash noDigit member
    simp only [Bool.and_eq_true, bne_iff_ne]
    exact ⟨⟨absent (by decide), absent (by decide)⟩, absent (by decide)⟩
  unfold Revision.split
  dsimp only
  rw [List.takeWhile_eq_self_iff.mpr kept, List.dropWhile_eq_nil_iff.mpr kept]

section

variable {repository : Repository} (identified : repository.history.Identified) {position : Nat}
  (bound : position < repository.history.commits.length)

include identified bound

private theorem named_sha :
    Revision.named repository (repository.history.sha position) = .ok (.commit position) := by
  unfold Revision.named
  dsimp only
  rw [if_pos (Revision.isHash_sha identified bound),
    identified.small _ (History.sha_mem_hashes bound), Revision.object?_sha identified bound]
  rfl

theorem getLast?_sha : (repository.history.sha position).toList.getLast? ≠ some '@' := by
  intro last
  exact Revision.not_mem_sha identified bound (by decide) (List.mem_of_getLast? last)

theorem commit_sha :
    Revision.commit repository (repository.history.sha position) = .ok position := by
  have digits := Revision.isHash_sha identified bound
  have noZero : (repository.history.sha position).contains '\x00' = false := by
    rw [String.contains_char_eq, decide_eq_false_iff_not]
    exact Revision.not_mem_sha identified bound (by decide)
  have noBraces : Text.occursIn ['@', '\x7b'] (repository.history.sha position).toList = false := by
    rw [Text.occursIn_eq_false_iff]
    intro found
    exact Revision.not_mem_sha identified bound (by decide) (found.subset List.mem_cons_self)
  have given : (repository.history.sha position).toList.isEmpty = false := by
    rw [List.isEmpty_eq_false_iff]
    intro nothing
    rw [nothing] at digits
    cases digits
  apply Revision.commit_eq_ok_iff.mpr
  refine ⟨.commit position, ?_, rfl⟩
  unfold Revision.resolve
  rw [split_of_isHash digits]
  dsimp only
  rw [noZero, noBraces, given, beq_eq_false_iff_ne.mpr (getLast?_sha identified bound),
    String.ofList_toList, named_sha identified bound]
  rfl

theorem namesAlike_sha : NamesAlike repository (repository.history.sha position) := by
  have digits := Revision.isHash_sha identified bound
  have notAtSign : repository.history.sha position ≠ "@" := by
    intro same
    rw [same] at digits
    cases digits
  unfold NamesAlike
  rw [split_of_isHash digits]
  dsimp only
  rw [if_neg notAtSign, String.ofList_toList, named_sha identified bound]
  intro object found
  cases found
  unfold namedHash?
  rw [if_pos digits, identified.small _ (History.sha_mem_hashes bound)]
  rfl

theorem object_sha :
    ∃ object, Log.object repository (repository.history.sha position).toList = .ok object ∧
      object.commit? repository.history = some position := by
  apply object_of_commit identified (commit_sha identified bound)
  · exact Or.inr (getLast?_sha identified bound)
  · exact namesAlike_sha identified bound

end

end CommitCheck.Log
