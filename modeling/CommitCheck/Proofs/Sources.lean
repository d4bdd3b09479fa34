import CommitCheck.Program
import CommitCheck.Proofs.Arguments
import CommitCheck.Proofs.Lookups

set_option autoImplicit false

/-! The two sources side by side, where both have found one repository. They list the same commits
of a range with two dots. A range that is one revision is a range of one commit for the source that
reads the repository itself, and of all ancestors of the commit for the source that asks the
command. Of one commit, both have the same message up to the line feeds in front of it. -/

namespace CommitCheck

open History (Chronological NewestFirst Orderly Reaches)

/-- Both sources find the same repository from the current directory. -/
structure OneRepository (host : Host) (setting : Log.Setting) : Prop where
  opened : Repository.discover host host.currentPath = .ok setting.repository
  found : Log.Setting.find? host = some setting

/-- The revision leads to a commit, read from the front or from the end. -/
structure NamesCommit (repository : Repository) (revision : String) (commit : Nat) : Prop where
  fromFront : repository.commit revision = .ok commit
  fromEnd : ∃ object, Log.object repository revision.toList = .ok object ∧
    object.commit? repository.history = some commit

namespace NamesCommit

variable {repository : Repository} {revision : String} {commit : Nat}

theorem bound (identified : repository.history.Identified)
    (names : NamesCommit repository revision commit) : commit < repository.history.commits.length :=
  Revision.lt_of_commit identified (Repository.commit_eq_ok_iff.mp names.fromFront)

theorem chars_ne_nil (names : NamesCommit repository revision commit) : revision.toList ≠ [] := by
  intro nothing
  apply Revision.ne_empty_of_commit (Repository.commit_eq_ok_iff.mp names.fromFront)
  exact String.toList_eq_nil_iff.mp nothing

theorem noZero (names : NamesCommit repository revision commit) : '\x00' ∉ revision.toList := by
  obtain ⟨object, resolved, -⟩ :=
    Revision.commit_eq_ok_iff.mp (Repository.commit_eq_ok_iff.mp names.fromFront)
  exact (Revision.resolve_cases resolved).1

theorem of_sha (identified : repository.history.Identified)
    (bound : commit < repository.history.commits.length) :
    NamesCommit repository (repository.history.sha commit) commit where
  fromFront := Repository.commit_eq_ok_iff.mpr (Log.commit_sha identified bound)
  fromEnd := Log.object_sha identified bound

end NamesCommit

variable {host : Host} {setting : Log.Setting}

theorem OneRepository.directSource_commit (one : OneRepository host setting) (reference : String) :
    (Program.directSource host).commit reference = setting.repository.lookUp reference := by
  unfold Program.directSource Repository.source
  dsimp only
  rw [one.opened]
  rfl

theorem OneRepository.directSource_shas (one : OneRepository host setting) (range : String) :
    (Program.directSource host).shas range = setting.repository.shasIn range := by
  unfold Program.directSource Repository.source
  dsimp only
  rw [one.opened]
  rfl

open Repository (crissCross crissCrossHost crissCrossRepository chronological_crissCross
  identified_crissCross)

def crissCrossSetting : Log.Setting where
  host := crissCrossHost
  repository := crissCrossRepository
  workTree? := some []

theorem one_crissCross : OneRepository crissCrossHost crissCrossSetting where
  opened := by cbv
  found := by cbv

theorem isNoFile_crissCross :
    crissCrossSetting.isNoFile (crissCross.sha 1).toList = true := by
  unfold Log.Setting.isNoFile FileTree.find FileTree.locate FileTree.pathFault?
  rw [String.contains_char_eq]
  decide +kernel

private theorem direct_crissCross :
    (Program.directSource crissCrossHost).commit (crissCross.sha 1) =
      .ok ⟨crissCross.sha 1, "[BUG] a"⟩ := by
  rw [one_crissCross.directSource_commit]
  exact @Repository.lookUp_sha crissCrossRepository identified_crissCross 1 (by decide) _ (by cbv)

theorem logged_crissCross :
    (Log.source crissCrossHost).commit (crissCross.sha 1) =
      .ok ⟨crissCross.sha 1, "\n[BUG] a"⟩ := by
  apply (@Log.commit_sha_eq_ok_iff crissCrossSetting identified_crissCross 1 (by decide) _
    one_crissCross.found chronological_crissCross.orderly _).mpr
  exact ⟨isNoFile_crissCross, by cbv⟩

theorem accepted_between {repository : Repository} {first second : String} {a b : Nat}
    (left : NamesCommit repository first a) (right : NamesCommit repository second b)
    (noOption : first.toList.head? ≠ some '-') : Log.Accepted (first ++ ".." ++ second) := by
  have whole : (first ++ ".." ++ second).toList =
      first.toList ++ ("..".toList ++ second.toList) := by
    rw [String.toList_append, String.toList_append, List.append_assoc]
  constructor
  · intro nothing
    rw [nothing] at whole
    cases (List.append_eq_nil_iff.mp whole.symm).2
  · rw [whole, List.head?_append_of_ne_nil _ left.chars_ne_nil]
    exact noOption
  · rw [whole, List.mem_append, List.mem_append]
    rintro (inFirst | inDots | inSecond)
    · exact left.noZero inFirst
    · exact absurd inDots (by decide)
    · exact right.noZero inSecond

/-- Both sources list the commits that lead to the end of a range and not to its start, newest
first. -/
theorem sources_agree_between (one : OneRepository host setting)
    (identified : setting.repository.history.Identified)
    (chronological : Chronological setting.repository.history) {first second : String} {a b : Nat}
    (left : NamesCommit setting.repository first a)
    (right : NamesCommit setting.repository second b)
    (apartLeft : ¬"..".toList <:+: first.toList) (apartRight : ¬"..".toList <:+: second.toList)
    (noOption : first.toList.head? ≠ some '-') (plainLeft : first.toList.getLast? ≠ some '.')
    (plainRight : second.toList.head? ≠ some '.') :
    ∃ commits,
      (Program.directSource host).shas (first ++ ".." ++ second) =
        .ok (commits.map setting.repository.history.sha) ∧
      (Log.source host).shas (first ++ ".." ++ second) =
        .ok (commits.map setting.repository.history.sha) ∧
      (∀ commit, commit ∈ commits ↔ Reaches setting.repository.history commit b ∧
        ¬Reaches setting.repository.history commit a) ∧
      (commits.map setting.repository.history.sha).Nodup ∧
      NewestFirst setting.repository.history commits ∧
      (commits.Pairwise fun earlier later => ¬Reaches setting.repository.history earlier later) ∧
      (commits = [] ↔ Reaches setting.repository.history b a) := by
  have leftBound := left.bound identified
  have rightBound := right.bound identified
  have newest := History.newestFirst_walk chronological [b] [a]
  refine ⟨setting.repository.history.walk [b] [a], ?_, ?_,
    fun commit => History.mem_walk_between leftBound rightBound,
    Revision.nodup_map_sha_walk identified _ _, newest,
    newest.not_reaches chronological.orderly,
    History.walk_between_eq_nil_iff leftBound rightBound⟩
  · rw [one.directSource_shas]
    exact Repository.shasIn_between left.fromFront right.fromFront apartLeft apartRight plainLeft
      plainRight
  · obtain ⟨start, startFound, startCommit⟩ := left.fromEnd
    obtain ⟨finish, finishFound, finishCommit⟩ := right.fromEnd
    rw [Log.shas_eq_ok_iff one.found identified]
    refine ⟨accepted_between left right noOption, _,
      Log.selection?_between startFound finishFound apartLeft plainLeft plainRight
        left.chars_ne_nil right.chars_ne_nil, ?_⟩
    unfold Log.commitsAt
    rw [startCommit, finishCommit]
    rfl

theorem sources_agree_crissCross :
    ∃ commits,
      (Program.directSource crissCrossHost).shas (crissCross.sha 1 ++ ".." ++ crissCross.sha 4) =
        .ok (commits.map crissCross.sha) ∧
      (Log.source crissCrossHost).shas (crissCross.sha 1 ++ ".." ++ crissCross.sha 4) =
        .ok (commits.map crissCross.sha) ∧
      (∀ commit, commit ∈ commits ↔ Reaches crissCross commit 4 ∧ ¬Reaches crissCross commit 1) ∧
      (commits.map crissCross.sha).Nodup ∧ NewestFirst crissCross commits ∧
      (commits.Pairwise fun earlier later => ¬Reaches crissCross earlier later) ∧
      (commits = [] ↔ Reaches crissCross 4 1) :=
  sources_agree_between one_crissCross identified_crissCross chronological_crissCross
    (NamesCommit.of_sha identified_crissCross (by decide))
    (NamesCommit.of_sha identified_crissCross (by decide))
    (by decide) (by decide) (by decide) (by decide) (by decide)

theorem Validator.validateCommit_inj (validator : Validator) {first second : Commit} :
    validator.validateCommit first = validator.validateCommit second ↔ first = second := by
  have kept (commit : Commit) : (validator.validateCommit commit).message = commit.message := by
    unfold Validator.validateCommit Outcome.withCommit
    dsimp only
    unfold Validator.validate
    split <;> rfl
  constructor
  · intro same
    have messages := congrArg Outcome.message same
    have hashes := congrArg Outcome.commit same
    rw [kept, kept] at messages
    cases first
    cases second
    cases messages
    cases hashes
    rfl
  · rintro rfl
    rfl

theorem Validator.validateRange_eq_iff {validator : Validator} {source : Source}
    {reference : String} {commit : Commit} {shas : List String}
    (found : source.commit reference = .ok commit) (listed : source.shas reference = .ok shas) :
    validator.validateRange source reference = validator.validateReferences source [reference] ↔
      ∃ sha, shas = [sha] ∧ source.commit sha = .ok commit := by
  have alone : validator.validateReferences source [reference] =
      .ok [validator.validateCommit commit] := by
    unfold Validator.validateReferences
    rw [Source.commits_singleton, found]
    rfl
  have ranged : validator.validateRange source reference =
      (source.commits shas).map (List.map validator.validateCommit) :=
    Validator.validateRange_of_shas listed
  rw [alone, ranged, map_eq_ok_iff, ← Source.commits_eq_singleton_iff]
  constructor
  · rintro ⟨commits, ok, outcomes⟩
    obtain ⟨first, rfl, same⟩ := List.map_eq_singleton_iff.mp outcomes
    rw [validator.validateCommit_inj.mp same] at ok
    exact ok
  · intro ok
    exact ⟨[commit], ok, rfl⟩

/-! ### Ranges that are one revision -/

section

variable (one : OneRepository host setting) (identified : setting.repository.history.Identified)
  {reference : String} {x y : Commit}
  (direct : (Program.directSource host).commit reference = .ok x)
  (logged : (Log.source host).commit reference = .ok y)

include one identified direct logged

theorem exists_found (same : y.sha = x.sha) :
    ∃ commit, setting.repository.commit reference = .ok commit ∧
      commit < setting.repository.history.commits.length ∧
      x.sha = setting.repository.history.sha commit ∧
      Repository.messageText? (setting.repository.history.message commit) = some x.message ∧
      y = Log.answer setting.repository.history (some commit) ∧ Log.Accepted reference ∧
      ∃ selection, Log.selection? setting reference.toList = some selection ∧
        (Log.selected setting.repository.history selection).head? = some commit := by
  rw [one.directSource_commit] at direct
  obtain ⟨commit, message, found, text, rfl⟩ := Repository.lookUp_eq_ok_iff.mp direct
  have bound := Revision.lt_of_commit identified (Repository.commit_eq_ok_iff.mp found)
  obtain ⟨accepted, selection, selects, rfl⟩ :=
    (Log.commit_eq_ok_iff one.found identified).mp logged
  have newest := Log.head?_of_answer identified (fun _ => Log.lt_of_mem_selected) bound same
  exact ⟨commit, found, bound, rfl, text, congrArg _ newest, accepted, selection, selects, newest⟩

/-- A range that is one revision lists the commit alone if the repository is read itself. If the
command is asked, all ancestors of the commit are listed. -/
theorem listed_alone_iff_no_parent (orderly : Orderly setting.repository.history)
    (same : y.sha = x.sha) (apart : ¬"..".toList <:+: reference.toList)
    (noParents : ¬"^@".toList <:+ reference.toList) :
    (Program.directSource host).shas reference = .ok [x.sha] ∧
    (∀ validator : Validator,
      validator.validateRange (Program.directSource host) reference =
        validator.validateReferences (Program.directSource host) [reference]) ∧
    ∃ (commit : Nat) (commits : List Nat), x.sha = setting.repository.history.sha commit ∧
      commits.head? = some commit ∧
      (∀ ancestor, ancestor ∈ commits ↔ Reaches setting.repository.history ancestor commit) ∧
      (commits.map setting.repository.history.sha).Nodup ∧
      (Log.source host).shas reference = .ok (commits.map setting.repository.history.sha) ∧
      ((Log.source host).shas reference = .ok [y.sha] ↔
        setting.repository.history.parents commit = []) ∧
      ∀ validator : Validator,
        validator.validateRange (Log.source host) reference =
            validator.validateReferences (Log.source host) [reference] ↔
          setting.repository.history.parents commit = [] ∧
            setting.isNoFile y.sha.toList = true := by
  obtain ⟨commit, found, bound, hash, text, rfl, accepted, selection, selects, newest⟩ :=
    exists_found one identified direct logged same
  have single := Log.isSingle_of_commit (Repository.commit_eq_ok_iff.mp found) apart noParents
  have directly : (Program.directSource host).shas reference = .ok [x.sha] := by
    rw [one.directSource_shas, hash]
    exact Repository.shasIn_single found apart
  have listed : (Log.source host).shas reference =
      .ok ((setting.repository.history.walk [commit] []).map setting.repository.history.sha) := by
    rw [Log.shas_eq_ok_iff one.found identified]
    rw [Log.selection_of_newest orderly single selects newest] at selects
    exact ⟨accepted, _, selects, rfl⟩
  refine ⟨directly, ?_, commit, setting.repository.history.walk [commit] [], hash,
    History.head?_walk_single bound orderly, fun ancestor => History.mem_walk_single bound,
    Revision.nodup_map_sha_walk identified _ _, listed, ?_, ?_⟩
  · intro validator
    rw [Validator.validateRange_eq_iff direct directly]
    refine ⟨x.sha, rfl, ?_⟩
    rw [one.directSource_commit, hash, Repository.lookUp_sha identified bound text, ← hash]
  · rw [listed, Except.ok.injEq, Revision.map_sha_walk_eq_singleton_iff orderly bound]
    exact and_iff_right rfl
  · intro validator
    have again := @Log.commit_sha_eq_ok_iff _ identified _ bound _ one.found orderly
    rw [Validator.validateRange_eq_iff logged listed]
    constructor
    · rintro ⟨sha, single, ok⟩
      obtain ⟨rfl, root⟩ := (Revision.map_sha_walk_eq_singleton_iff orderly bound).mp single
      exact ⟨root, (again.mp ok).1⟩
    · rintro ⟨root, noFile⟩
      have alone := (Revision.map_sha_walk_eq_singleton_iff orderly bound).mpr ⟨rfl, root⟩
      exact ⟨_, alone, again.mpr ⟨noFile, rfl⟩⟩

end

theorem listed_alone_crissCross :
    (Program.directSource crissCrossHost).shas (crissCross.sha 1) = .ok [crissCross.sha 1] ∧
    (∀ validator : Validator,
      validator.validateRange (Program.directSource crissCrossHost) (crissCross.sha 1) =
        validator.validateReferences (Program.directSource crissCrossHost) [crissCross.sha 1]) ∧
    ∃ (commit : Nat) (commits : List Nat), crissCross.sha 1 = crissCross.sha commit ∧
      commits.head? = some commit ∧
      (∀ ancestor, ancestor ∈ commits ↔ Reaches crissCross ancestor commit) ∧
      (commits.map crissCross.sha).Nodup ∧
      (Log.source crissCrossHost).shas (crissCross.sha 1) = .ok (commits.map crissCross.sha) ∧
      ((Log.source crissCrossHost).shas (crissCross.sha 1) = .ok [crissCross.sha 1] ↔
        crissCross.parents commit = []) ∧
      ∀ validator : Validator,
        validator.validateRange (Log.source crissCrossHost) (crissCross.sha 1) =
            validator.validateReferences (Log.source crissCrossHost) [crissCross.sha 1] ↔
          crissCross.parents commit = [] ∧
            crissCrossSetting.isNoFile (crissCross.sha 1).toList = true :=
  listed_alone_iff_no_parent one_crissCross identified_crissCross direct_crissCross
    logged_crissCross chronological_crissCross.orderly rfl (by decide) (by decide)

/-- One source lists the commit alone, the other one its parent too. -/
theorem same_reference_lists_parent :
    (Program.directSource crissCrossHost).commit (crissCross.sha 1) =
        .ok ⟨crissCross.sha 1, "[BUG] a"⟩ ∧
      (Log.source crissCrossHost).commit (crissCross.sha 1) =
        .ok ⟨crissCross.sha 1, "\n[BUG] a"⟩ ∧
      (Program.directSource crissCrossHost).shas (crissCross.sha 1) = .ok [crissCross.sha 1] ∧
      (Log.source crissCrossHost).shas (crissCross.sha 1) =
        .ok [crissCross.sha 1, crissCross.sha 0] := by
  refine ⟨direct_crissCross, logged_crissCross, ?_, ?_⟩
  · rw [one_crissCross.directSource_shas]
    exact Repository.shasIn_single (Repository.commit_crissCross (by decide)) (by decide)
  · have selects := @Log.selection?_sha crissCrossSetting identified_crissCross 1 (by decide)
    have walked : crissCross.walk [1] [] = [1, 0] := by cbv
    apply (Log.shas_eq_ok_iff one_crissCross.found identified_crissCross).mpr
    refine ⟨Log.accepted_sha identified_crissCross (by decide), .commits [1] [], ?_, ?_⟩
    · exact selects.trans (if_pos isNoFile_crissCross)
    · exact (congrArg (List.map crissCross.sha) walked).symm

section

variable (one : OneRepository host setting) (identified : setting.repository.history.Identified)
  {reference : String} {x y : Commit}
  (direct : (Program.directSource host).commit reference = .ok x)
  (logged : (Log.source host).commit reference = .ok y)

include one identified direct logged

/-! ### Messages -/

theorem sha_eq_of_namesAlike (orderly : Orderly setting.repository.history)
    (alike : Log.NamesAlike setting.repository reference)
    (long : reference = "@" ∨ reference.toList.getLast? ≠ some '@') : y.sha = x.sha := by
  rw [one.directSource_commit] at direct
  obtain ⟨commit, message, found, -, rfl⟩ := Repository.lookUp_eq_ok_iff.mp direct
  rw [Repository.commit_eq_ok_iff] at found
  have bound := Revision.lt_of_commit identified found
  have noParents : ¬"^@".toList <:+ reference.toList := by
    rcases long with rfl | long
    · decide
    · rintro ⟨before, whole⟩
      apply long
      rw [← whole, List.getLast?_append]
      rfl
  have single := Log.isSingle_of_commit found (Revision.dotless_of_commit found long) noParents
  obtain ⟨object, ok, named⟩ := Log.object_of_commit identified found long alike
  obtain ⟨-, selection, selects, rfl⟩ := (Log.commit_eq_ok_iff one.found identified).mp logged
  rw [Log.selection?_of_object single ok] at selects
  split at selects
  · cases selects
    unfold Log.commitsAt
    rw [named]
    exact congrArg (fun first => (Log.answer setting.repository.history first).sha)
      (History.head?_walk_single bound orderly)
  · cases selects

/-- Of the commit that both sources find, one has the message as it is stored and the other without
the line feeds in front, so they say the same exactly if there is none. -/
theorem same_answer_iff_no_feed :
    (Orderly setting.repository.history → Log.NamesAlike setting.repository reference →
      (reference = "@" ∨ reference.toList.getLast? ≠ some '@') → y.sha = x.sha) ∧
    (y.sha = x.sha → ∃ commit, x.sha = setting.repository.history.sha commit ∧
      y.message = Text.decodeLenient (setting.repository.history.message commit) ∧
      y.message.toList =
        List.replicate
          ((setting.repository.history.message commit).takeWhile (· == 0x0A)).length '\n' ++
          x.message.toList ∧
      (y = x ↔ (setting.repository.history.message commit).head? ≠ some 0x0A) ∧
      ∀ validator : Validator,
        validator.validateReferences (Log.source host) [reference] =
            validator.validateReferences (Program.directSource host) [reference] ↔
          (setting.repository.history.message commit).head? ≠ some 0x0A) := by
  refine ⟨sha_eq_of_namesAlike one identified direct logged, ?_⟩
  intro same
  obtain ⟨commit, -, -, hash, text, rfl, -⟩ := exists_found one identified direct logged same
  have equal : Log.answer setting.repository.history (some commit) = x ↔
      (setting.repository.history.message commit).head? ≠ some 0x0A := by
    rw [← Repository.eq_messageText?_iff text]
    constructor
    · intro equal
      exact congrArg Commit.message equal
    · intro read
      have parts : x = ⟨x.sha, x.message⟩ := rfl
      rw [parts, hash, ← read]
      rfl
  refine ⟨commit, hash, rfl, Repository.decodeLenient_of_messageText? text, equal, ?_⟩
  intro validator
  rw [← equal]
  unfold Validator.validateReferences
  rw [Source.commits_singleton, Source.commits_singleton, direct, logged]
  simp [Except.map, validator.validateCommit_inj]

end

theorem same_answer_crissCross :
    (⟨crissCross.sha 1, "\n[BUG] a"⟩ : Commit).sha = (⟨crissCross.sha 1, "[BUG] a"⟩ : Commit).sha ∧
    ∃ commit, crissCross.sha 1 = crissCross.sha commit ∧
      "\n[BUG] a" = Text.decodeLenient (crissCross.message commit) ∧
      "\n[BUG] a".toList =
        List.replicate ((crissCross.message commit).takeWhile (· == 0x0A)).length '\n' ++
          "[BUG] a".toList ∧
      ((⟨crissCross.sha 1, "\n[BUG] a"⟩ : Commit) = ⟨crissCross.sha 1, "[BUG] a"⟩ ↔
        (crissCross.message commit).head? ≠ some 0x0A) ∧
      ∀ validator : Validator,
        validator.validateReferences (Log.source crissCrossHost) [crissCross.sha 1] =
            validator.validateReferences (Program.directSource crissCrossHost) [crissCross.sha 1] ↔
          (crissCross.message commit).head? ≠ some 0x0A := by
  have bound : 1 < crissCross.commits.length := by decide
  have alike := @Log.namesAlike_sha crissCrossRepository identified_crissCross 1 bound
  have long := @Log.getLast?_sha crissCrossRepository identified_crissCross 1 bound
  obtain ⟨hashes, messages⟩ := same_answer_iff_no_feed one_crissCross identified_crissCross
    direct_crissCross logged_crissCross
  have same := hashes chronological_crissCross.orderly alike (Or.inr long)
  exact ⟨same, messages same⟩

/-- The same commit is found with two messages, and only one of them is accepted. -/
theorem same_commit_two_messages :
    (Program.directSource crissCrossHost).commit (crissCross.sha 1) =
        .ok ⟨crissCross.sha 1, "[BUG] a"⟩ ∧
      (Log.source crissCrossHost).commit (crissCross.sha 1) =
        .ok ⟨crissCross.sha 1, "\n[BUG] a"⟩ ∧
      Validator.standard.accepts "[BUG] a" = true ∧
      Validator.standard.accepts "\n[BUG] a" = false :=
  ⟨direct_crissCross, logged_crissCross, rfl, rfl⟩

end CommitCheck
