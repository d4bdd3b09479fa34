import CommitCheck.Proofs.Printed
import CommitCheck.Proofs.Ranges

set_option autoImplicit false

/-! What the argument of the command selects if it is a range with two dots or one revision, and
what the source that asks the command answers then: it lists what is selected, and the newest of it
is the commit that it finds. -/

namespace CommitCheck.Log

open Revision (Object)

theorem object_eq_ok_iff {repository : Repository} {revision : List Char} {found : Object} :
    object repository revision = .ok found ↔
      ∃ hash, hash? repository revision = some hash ∧
        object? repository.history hash = some found := by
  unfold object
  constructor
  · intro ok
    split at ok
    · next hash hashed =>
        split at ok
        · next looked =>
            cases ok
            exact ⟨hash, hashed, looked⟩
        · cases ok
    · cases ok
  · rintro ⟨hash, hashed, looked⟩
    rw [hashed]
    dsimp only
    rw [looked]

variable {setting : Setting}

theorem selection?_between {first second : String} {start finish : Object}
    (left : object setting.repository first.toList = .ok start)
    (right : object setting.repository second.toList = .ok finish)
    (apart : ¬"..".toList <:+: first.toList) (plainLeft : first.toList.getLast? ≠ some '.')
    (plainRight : second.toList.head? ≠ some '.')
    (givenLeft : first.toList ≠ []) (givenRight : second.toList ≠ []) :
    selection? setting (first ++ ".." ++ second).toList =
      some (.commits (commitsAt setting.repository.history finish)
        (commitsAt setting.repository.history start)) := by
  obtain ⟨startHash, startHashed, startFound⟩ := object_eq_ok_iff.mp left
  obtain ⟨finishHash, finishHashed, finishFound⟩ := object_eq_ok_iff.mp right
  have whole : (first ++ ".." ++ second).toList = first.toList ++ ['.', '.'] ++ second.toList := by
    rw [String.toList_append, String.toList_append]
    rfl
  have split : Text.splitOnce? ['.', '.'] (first.toList ++ ['.', '.'] ++ second.toList) =
      some (first.toList, second.toList) :=
    @Text.splitOnce?_run '.' 1 _ apart plainLeft second.toList
  have ranged : rangeSelection setting.repository (first ++ ".." ++ second).toList =
      .ok (.commits (commitsAt setting.repository.history finish)
        (commitsAt setting.repository.history start)) := by
    have noThird : (second.toList.head? == some '.') = false := beq_eq_false_iff_ne.mpr plainRight
    have more : first.toList ++ ['.', '.'] ++ second.toList ≠ ['.', '.'] := by
      intro same
      have lengths := congrArg List.length same
      simp at lengths
      exact givenLeft (List.eq_nil_of_length_eq_zero (by omega))
    unfold rangeSelection
    rw [whole, split]
    dsimp only
    rw [noThird, if_neg more, if_neg (by rw [List.isEmpty_iff]; exact givenLeft),
      if_neg Bool.false_ne_true, if_neg (by rw [List.isEmpty_iff]; exact givenRight), startHashed,
      finishHashed]
    dsimp only
    unfold endsSelection
    rw [startFound, finishFound]
    rfl
  unfold selection? reading
  rw [ranged]
  rfl

/-! ### Single revisions -/

/-- The text has no mark that makes more of a revision than one object. -/
structure IsSingle (argument : List Char) : Prop where
  noRange : ¬['.', '.'] <:+: argument
  noParents : ¬['^', '@'] <:+ argument
  noAlone : ¬['^', '!'] <:+: argument
  noExcept : ¬['^', '-'] <:+: argument
  included : argument.head? ≠ some '^'

theorem reading_of_single {repository : Repository} {argument : List Char}
    (single : IsSingle argument) :
    reading repository argument =
      (object repository argument).map fun found =>
        ⟨some argument, .commits (commitsAt repository.history found) []⟩ := by
  have ranged : rangeSelection repository argument = .error .noRevision := by
    unfold rangeSelection
    rw [Text.splitOnce?_eq_none_iff.mpr single.noRange]
  have parents : parentsSelection repository argument = .error .noRevision := by
    unfold parentsSelection
    split
    · next before found =>
        have whole := Text.eq_of_splitOnce? found
        rw [List.append_nil] at whole
        exact absurd ⟨before, whole.symm⟩ single.noParents
    · rfl
  have alone : aloneReading repository argument = .error .noRevision := by
    unfold aloneReading
    rw [Text.splitOnce?_eq_none_iff.mpr single.noAlone]
  have except : exceptReading repository argument [] = .error .noRevision := by
    unfold exceptReading
    rw [Text.splitOnce?_eq_none_iff.mpr single.noExcept]
  have included : withoutCaret argument = (argument, false) := by
    unfold withoutCaret
    split
    · exact absurd rfl single.included
    · rfl
  have revision : revisionReading repository argument [] =
      (object repository argument).map fun found =>
        ⟨some argument, .commits (commitsAt repository.history found) []⟩ := by
    unfold revisionReading
    rw [included]
    dsimp only
    cases object repository argument <;> rfl
  unfold reading
  rw [ranged, parents, alone, except, revision]
  rcases object repository argument with (_ | _) | found <;> rfl

theorem selection?_of_object {argument : List Char} (single : IsSingle argument) {found : Object}
    (ok : object setting.repository argument = .ok found) :
    selection? setting argument =
      if setting.isNoFile argument then
        some (.commits (commitsAt setting.repository.history found) [])
      else none := by
  unfold selection?
  rw [reading_of_single single, ok]
  simp only [Except.map, Option.all_some]

theorem selection?_of_single {argument : List Char} (single : IsSingle argument)
    {selection : Selection} (selected : selection? setting argument = some selection) :
    selection = .paths ∨ ∃ found, object setting.repository argument = .ok found ∧
      selection = .commits (commitsAt setting.repository.history found) [] ∧
      setting.isNoFile argument = true := by
  cases ok : object setting.repository argument with
  | ok found =>
      rw [selection?_of_object single ok] at selected
      split at selected
      · next noFile =>
          cases selected
          exact Or.inr ⟨found, rfl, rfl, noFile⟩
      · cases selected
  | error unread =>
      left
      unfold selection? at selected
      rw [reading_of_single single, ok] at selected
      cases unread with
      | refused => cases selected
      | noRevision =>
          dsimp only [Except.map] at selected
          split at selected
          · cases selected
            rfl
          · cases selected

/-- A revision that leads to a commit from the front has no mark that makes more of it but for two
dots, or a caret and an at sign. -/
theorem isSingle_of_commit {repository : Repository} {revision : String} {position : Nat}
    (found : Revision.commit repository revision = .ok position)
    (apart : ¬"..".toList <:+: revision.toList) (noParents : ¬"^@".toList <:+ revision.toList) :
    IsSingle revision.toList := by
  have whole := Revision.split_append revision.toList
  have spells := Revision.spells_of_commit found
  have noMark {mark : Char} (other : Revision.isStepCharacter mark = false) :
      ¬['^', mark] <:+: revision.toList := by
    intro marked
    rw [← whole] at marked
    have inSteps := Text.infix_pair_append marked (Revision.not_mem_split (Or.inr (Or.inl rfl)))
    have stepCharacter := spells.isStepCharacter mark inSteps
    rw [other] at stepCharacter
    cases stepCharacter
  refine ⟨apart, noParents, noMark (by decide), noMark (by decide), ?_⟩
  intro caret
  obtain ⟨object, resolved, -⟩ := Revision.commit_eq_ok_iff.mp found
  have nameless : (Revision.split revision.toList).1 = [] := by
    cases text : revision.toList with
    | nil => rfl
    | cons c cs =>
        rw [text, List.head?_cons, Option.some_inj] at caret
        rw [caret]
        rfl
  rcases (Revision.resolve_cases resolved).2 with ⟨-, short, -⟩ | ⟨named, -⟩
  · rw [nameless] at short
    cases short
  · exact named nameless

def answer (history : History) : Option Nat → Commit
  | some commit => ⟨history.sha commit, Text.decodeLenient (history.message commit)⟩
  | none => ⟨"", ""⟩

/-- The command can be given the argument, and would not take it for an option. -/
structure Accepted (argument : String) : Prop where
  given : argument ≠ ""
  noOption : argument.toList.head? ≠ some '-'
  noZero : '\x00' ∉ argument.toList

theorem checkRevision_eq_ok_iff {revision : String} {done : Unit} :
    checkRevision revision = .ok done ↔ revision ≠ "" ∧ revision.toList.head? ≠ some '-' := by
  unfold checkRevision
  by_cases refused : (revision = "" || revision.toList.head? == some '-') = true
  · rw [if_pos refused]
    simp only [Bool.or_eq_true, decide_eq_true_eq, beq_iff_eq] at refused
    constructor
    · intro impossible
      cases impossible
    · rintro ⟨given, noOption⟩
      exact (refused.elim given noOption).elim
  · rw [if_neg refused]
    simp only [Bool.or_eq_true, decide_eq_true_eq, beq_iff_eq, not_or] at refused
    exact iff_of_true rfl refused

theorem ran_eq_ok_iff {command : String} {output? : Option (List UInt8)} {output : List UInt8} :
    ran command output? = .ok output ↔ output? = some output := by
  cases output? <;> simp [ran]

theorem lt_of_mem_selected {selection : Selection} {commit : Nat} {history : History}
    (member : commit ∈ selected history selection) : commit < history.commits.length := by
  cases selection with
  | commits starts hidden => exact History.lt_of_mem_walk member
  | paths => cases member

theorem plain_sha {history : History} (identified : history.Identified) {commit : Nat}
    (bound : commit < history.commits.length) :
    '\n' ∉ (history.sha commit).toList ∧ history.sha commit ≠ "" := by
  constructor
  · exact Revision.not_mem_sha identified bound (by decide)
  · intro nothing
    have digits := Revision.isHash_sha identified bound
    rw [nothing] at digits
    cases digits

section

variable {host : Host} (found : Setting.find? host = some setting)

include found

private theorem logged?_eq (argument : String) :
    logged? host argument =
      if argument.contains '\x00' then none
      else (selection? setting argument.toList).map fun selection =>
        (setting.repository, selected setting.repository.history selection) := by
  unfold logged?
  rw [found]
  split
  · rfl
  · rw [Option.map_eq_bind]
    rfl

theorem logged?_map_eq_some_iff {α : Type} {argument : String}
    {print : Repository × List Nat → α} {printed : α} :
    (logged? host argument).map print = some printed ↔
      '\x00' ∉ argument.toList ∧ ∃ selection, selection? setting argument.toList = some selection ∧
        print (setting.repository, selected setting.repository.history selection) = printed := by
  rw [logged?_eq found, String.contains_char_eq]
  by_cases zero : '\x00' ∈ argument.toList <;> simp [zero]

private theorem asked_eq_ok_iff {α : Type} {argument command : String}
    {print : Repository × List Nat → List UInt8} {read : List UInt8 → α} {result : α} :
    (do
      checkRevision argument
      let output ← ran command ((logged? host argument).map print)
      .ok (read output)) = Except.ok result ↔
      Accepted argument ∧ ∃ selection, selection? setting argument.toList = some selection ∧
        result =
          read (print (setting.repository, selected setting.repository.history selection)) := by
  constructor
  · intro ok
    obtain ⟨done, checked, ok⟩ := bind_eq_ok_iff.mp ok
    obtain ⟨output, printed, ok⟩ := bind_eq_ok_iff.mp ok
    obtain ⟨given, noOption⟩ := checkRevision_eq_ok_iff.mp checked
    obtain ⟨noZero, selection, selects, rfl⟩ :=
      (logged?_map_eq_some_iff found).mp (ran_eq_ok_iff.mp printed)
    exact ⟨⟨given, noOption, noZero⟩, selection, selects, (Except.ok.inj ok).symm⟩
  · rintro ⟨accepted, selection, selects, rfl⟩
    have checked : checkRevision argument = .ok () :=
      checkRevision_eq_ok_iff.mpr ⟨accepted.given, accepted.noOption⟩
    have printed := (@logged?_map_eq_some_iff _ _ found _ _ print _).mpr
      ⟨accepted.noZero, selection, selects, rfl⟩
    rw [checked, printed]
    rfl

variable (identified : setting.repository.history.Identified)

include identified

theorem commit_eq_ok_iff {reference : String} {commit : Commit} :
    (source host).commit reference = .ok commit ↔
      Accepted reference ∧ ∃ selection, selection? setting reference.toList = some selection ∧
        commit = answer setting.repository.history
          (selected setting.repository.history selection).head? := by
  have back (selection : Selection) :
      readCommit (((selected setting.repository.history selection).head?.map
        (entry setting.repository.history)).getD []) =
        answer setting.repository.history
          (selected setting.repository.history selection).head? := by
    cases first : (selected setting.repository.history selection).head? with
    | none => rfl
    | some commit =>
        have bound := lt_of_mem_selected (List.mem_of_head? first)
        exact readCommit_entry (plain_sha identified bound).1
  apply (asked_eq_ok_iff found).trans
  simp only [back]

theorem shas_eq_ok_iff {range : String} {shas : List String} :
    (source host).shas range = .ok shas ↔
      Accepted range ∧ ∃ selection, selection? setting range.toList = some selection ∧
        shas = (selected setting.repository.history selection).map
          setting.repository.history.sha := by
  have back (selection : Selection) :
      readHashes (lineFeed.intercalate ((selected setting.repository.history selection).map
        fun commit => Text.encode (setting.repository.history.sha commit))) =
        (selected setting.repository.history selection).map setting.repository.history.sha := by
    have plain : ∀ sha ∈ (selected setting.repository.history selection).map
        setting.repository.history.sha, '\n' ∉ sha.toList ∧ sha ≠ "" := by
      rw [List.forall_mem_map]
      intro commit member
      exact plain_sha identified (lt_of_mem_selected member)
    have printed := readHashes_printed (fun sha member => (plain sha member).1)
      (fun sha member => (plain sha member).2)
    rw [List.map_map] at printed
    exact printed
  apply (asked_eq_ok_iff found).trans
  simp only [back]

end

theorem head?_of_answer {history : History} (identified : history.Identified) {commits : List Nat}
    (stored : ∀ commit ∈ commits, commit < history.commits.length) {commit : Nat}
    (bound : commit < history.commits.length)
    (same : (answer history commits.head?).sha = history.sha commit) :
    commits.head? = some commit := by
  cases commits with
  | nil => exact absurd same.symm (plain_sha identified bound).2
  | cons first others =>
      rw [Revision.sha_inj identified (stored first List.mem_cons_self) bound same]
      rfl

/-- Where one revision selects commits, it selects the newest of them and its ancestors. -/
theorem selection_of_newest (orderly : History.Orderly setting.repository.history)
    {argument : List Char} (single : IsSingle argument) {selection : Selection}
    (selects : selection? setting argument = some selection) {commit : Nat}
    (newest : (selected setting.repository.history selection).head? = some commit) :
    selection = .commits [commit] [] := by
  rcases selection?_of_single single selects with rfl | ⟨found, -, rfl, -⟩
  · cases newest
  · have listed : commit ∈ setting.repository.history.walk
        (commitsAt setting.repository.history found) [] := List.mem_of_head? newest
    unfold commitsAt at *
    cases named : found.commit? setting.repository.history with
    | none =>
        rw [named] at listed
        obtain ⟨⟨start, member, -⟩, -⟩ := History.mem_walk.mp listed
        cases member
    | some start =>
        rw [named] at newest listed
        obtain ⟨⟨other, member, bound, -⟩, -⟩ := History.mem_walk.mp listed
        cases List.mem_singleton.mp member
        have first := History.head?_walk_single bound orderly
        cases first.symm.trans newest
        rfl

/-! ### Full hashes -/

theorem accepted_sha {history : History} (identified : history.Identified) {position : Nat}
    (bound : position < history.commits.length) : Accepted (history.sha position) := by
  constructor
  · exact (plain_sha identified bound).2
  · intro option
    exact Revision.not_mem_sha identified bound (by decide) (List.mem_of_head? option)
  · exact Revision.not_mem_sha identified bound (by decide)

theorem isSingle_sha {history : History} (identified : history.Identified) {position : Nat}
    (bound : position < history.commits.length) : IsSingle (history.sha position).toList := by
  have noDot : '.' ∉ (history.sha position).toList :=
    Revision.not_mem_sha identified bound (by decide)
  have noCaret : '^' ∉ (history.sha position).toList :=
    Revision.not_mem_sha identified bound (by decide)
  constructor
  · intro found
    exact noDot (found.subset List.mem_cons_self)
  · intro found
    exact noCaret (found.subset List.mem_cons_self)
  · intro found
    exact noCaret (found.subset List.mem_cons_self)
  · intro found
    exact noCaret (found.subset List.mem_cons_self)
  · intro found
    exact noCaret (List.mem_of_head? found)

section

variable (identified : setting.repository.history.Identified) {position : Nat}
  (bound : position < setting.repository.history.commits.length)

include identified bound

theorem selection?_sha :
    selection? setting (setting.repository.history.sha position).toList =
      if setting.isNoFile (setting.repository.history.sha position).toList then
        some (.commits [position] [])
      else none := by
  obtain ⟨object, ok, named⟩ := object_sha identified bound
  have alone : commitsAt setting.repository.history object = [position] := by
    unfold commitsAt
    rw [named]
    rfl
  rw [selection?_of_object (isSingle_sha identified bound) ok, alone]

theorem commit_sha_eq_ok_iff {host : Host} (found : Setting.find? host = some setting)
    (orderly : History.Orderly setting.repository.history) {commit : Commit} :
    (source host).commit (setting.repository.history.sha position) = .ok commit ↔
      setting.isNoFile (setting.repository.history.sha position).toList = true ∧
        commit = answer setting.repository.history (some position) := by
  have newest : (selected setting.repository.history (.commits [position] [])).head? =
      some position := History.head?_walk_single bound orderly
  rw [commit_eq_ok_iff found identified, selection?_sha identified bound]
  constructor
  · rintro ⟨-, selection, selects, rfl⟩
    split at selects
    · next noFile =>
        cases selects
        rw [newest]
        exact ⟨noFile, rfl⟩
    · cases selects
  · rintro ⟨noFile, rfl⟩
    refine ⟨accepted_sha identified bound, _, if_pos noFile, ?_⟩
    rw [newest]

end

end CommitCheck.Log
