import CommitCheck.Proofs.Sources

set_option autoImplicit false

/-! What is found is stored. A repository has its history from the stores of the host, and the
source that reads it itself answers with commits of that history only. The source that asks the
command does so exactly if something has been printed: an argument that selects no commit has an
empty output, and that is read as a commit without a hash and without a message. -/

namespace CommitCheck

open History (Reaches)

/-- The objects of every history that is stored have hashes of their own. -/
def Host.Identified (host : Host) : Prop :=
  ∀ store ∈ host.stores, store.2.Identified

/-- A history that is stored has a commit with the hash and with the message, which may be without
the line feeds in front of it. -/
def Host.Stores (host : Host) (commit : Commit) : Prop :=
  ∃ store ∈ host.stores, ∃ position < store.2.commits.length,
    commit.sha = store.2.sha position ∧
      (commit.message = Text.decodeLenient (store.2.message position) ∨
        Repository.messageText? (store.2.message position) = some commit.message)

def Repository.IsOf (host : Host) (repository : Repository) : Prop :=
  ∃ directory shared, repository = ofPlaces host directory shared

theorem History.identified_empty : History.empty.Identified := by
  decide +kernel

namespace Repository

variable {host : Host} {repository : Repository}

theorem IsOf.history_cases (isOf : repository.IsOf host) :
    repository.history = .empty ∨ ∃ store ∈ host.stores, repository.history = store.2 := by
  obtain ⟨directory, shared, rfl⟩ := isOf
  unfold ofPlaces storedHistory
  dsimp only
  split
  · rename_i store _located
    cases looked : host.stores.lookup store with
    | none => exact Or.inl rfl
    | some history =>
        obtain ⟨before, after, whole, -⟩ := List.lookup_eq_some_iff.mp looked
        refine Or.inr ⟨(store, history), ?_, rfl⟩
        rw [whole]
        exact List.mem_append_right before List.mem_cons_self
  · exact Or.inl rfl

theorem IsOf.identified (isOf : repository.IsOf host) (identified : host.Identified) :
    repository.history.Identified := by
  rcases isOf.history_cases with empty | ⟨store, member, same⟩
  · rw [empty]
    exact History.identified_empty
  · rw [same]
    exact identified store member

theorem IsOf.stores (isOf : repository.IsOf host) {commit : Commit} {position : Nat}
    (bound : position < repository.history.commits.length)
    (hash : commit.sha = repository.history.sha position)
    (text : commit.message = Text.decodeLenient (repository.history.message position) ∨
      messageText? (repository.history.message position) = some commit.message) :
    host.Stores commit := by
  rcases isOf.history_cases with empty | ⟨store, member, same⟩
  · rw [empty] at bound
    cases bound
  · rw [same] at bound hash text
    exact ⟨store, member, position, bound, hash, text⟩

/-! ### Repositories that are found -/

theorem isOf_of_kept {directory : Place} (kept : kept? host directory = .ok (some repository)) :
    repository.IsOf host := by
  unfold kept? at kept
  split at kept
  · obtain ⟨shared, -, kept⟩ := bind_eq_ok_iff.mp kept
    split at kept
    · cases kept
      exact ⟨directory, shared, rfl⟩
    · cases kept
  · cases kept

theorem isOf_of_linked {directory : Place} {content : List UInt8}
    (opened : linked host directory content = .ok repository) : repository.IsOf host := by
  unfold linked at opened
  split at opened
  · cases opened
  · obtain ⟨place, -, opened⟩ := bind_eq_ok_iff.mp opened
    obtain ⟨kept, looked, opened⟩ := bind_eq_ok_iff.mp opened
    cases kept with
    | none => cases opened
    | some found =>
        cases opened
        exact isOf_of_kept looked

theorem isOf_of_opened {directory : Place}
    (opened : opened? host directory = .ok (some repository)) : repository.IsOf host := by
  unfold opened? at opened
  split at opened
  · obtain ⟨found, ok, opened⟩ := bind_eq_ok_iff.mp opened
    cases opened
    exact isOf_of_linked ok
  · obtain ⟨kept, looked, opened⟩ := bind_eq_ok_iff.mp opened
    cases kept with
    | none => exact isOf_of_kept opened
    | some found =>
        cases opened
        exact isOf_of_kept looked
  · exact isOf_of_kept opened

theorem isOf_of_firstOpened {places : List Place}
    (opened : firstOpened host places = .ok repository) : repository.IsOf host := by
  induction places with
  | nil => cases opened
  | cons directory others ih =>
      unfold firstOpened at opened
      obtain ⟨first, looked, opened⟩ := bind_eq_ok_iff.mp opened
      cases first with
      | none => exact ih opened
      | some found =>
          cases opened
          exact isOf_of_opened looked

theorem isOf_of_discover {path : Path} (discovered : discover host path = .ok repository) :
    repository.IsOf host := by
  unfold discover at discovered
  split at discovered
  · cases discovered
  · obtain ⟨found, -, opened⟩ := bind_eq_ok_iff.mp discovered
    exact isOf_of_firstOpened opened

theorem stores_of_source {path : Path} (identified : host.Identified) {reference : String}
    {commit : Commit} (found : (source host path).commit reference = .ok commit) :
    host.Stores commit := by
  obtain ⟨repository, opened, looked⟩ := bind_eq_ok_iff.mp found
  cases discovered : discover host path with
  | error cause =>
      rw [discovered] at opened
      cases opened
  | ok other =>
      rw [discovered] at opened
      cases opened
      have isOf := isOf_of_discover discovered
      obtain ⟨position, message, resolved, text, rfl⟩ := lookUp_eq_ok_iff.mp looked
      have bound := Revision.lt_of_commit (isOf.identified identified)
        (commit_eq_ok_iff.mp resolved)
      exact isOf.stores bound rfl (Or.inr text)

end Repository

namespace Log

variable {host : Host} {setting : Setting}

theorem isOf_of_kept {directory : Place} {repository : Repository}
    (kept : kept? host directory = some (some repository)) : repository.IsOf host := by
  unfold kept? at kept
  split at kept
  · cases kept
  · split at kept
    · simp only [Option.pure_def, Option.bind_eq_bind, Option.bind_eq_some_iff] at kept
      obtain ⟨shared, -, kept⟩ := kept
      split at kept
      · cases kept
        exact ⟨directory, shared, rfl⟩
      · cases kept
    · cases kept

theorem isOf_of_linked {directory : Place} {content : List UInt8} {repository : Repository}
    (linked : linked? host directory content = some repository) : repository.IsOf host := by
  unfold linked? at linked
  simp only [Option.bind_eq_bind, Option.bind_eq_some_iff] at linked
  obtain ⟨target, -, linked⟩ := linked
  split at linked
  · simp only [Option.bind_eq_some_iff] at linked
    obtain ⟨place, -, kept, looked, same⟩ := linked
    rw [same] at looked
    exact isOf_of_kept looked
  · cases linked

private theorem isOf_of_own {directory : Place}
    (own : (do return (← kept? host directory).map fun repository => ⟨host, repository, none⟩ :
      Option (Option Setting)) = some (some setting)) : setting.repository.IsOf host := by
  obtain ⟨repository?, looked, own⟩ := Option.bind_eq_some_iff.mp own
  cases repository? with
  | none => cases own
  | some repository =>
      cases own
      exact isOf_of_kept looked

theorem isOf_of_setting {directory : Place} (held : setting? host directory = some (some setting)) :
    setting.repository.IsOf host := by
  unfold setting? at held
  dsimp only at held
  split at held
  · obtain ⟨repository, linked, held⟩ := Option.bind_eq_some_iff.mp held
    cases held
    exact isOf_of_linked linked
  · obtain ⟨inside, looked, held⟩ := Option.bind_eq_some_iff.mp held
    cases inside with
    | none => exact isOf_of_own held
    | some repository =>
        cases held
        exact isOf_of_kept looked
  · exact isOf_of_own held

theorem isOf_of_firstSetting {places : List Place}
    (first : firstSetting? host places = some setting) : setting.repository.IsOf host := by
  induction places with
  | nil => cases first
  | cons directory others ih =>
      unfold firstSetting? at first
      obtain ⟨found, looked, first⟩ := Option.bind_eq_some_iff.mp first
      cases found with
      | none => exact ih first
      | some other =>
          cases first
          exact isOf_of_setting looked

theorem isOf_of_find (found : Setting.find? host = some setting) :
    setting.repository.IsOf host := by
  unfold Setting.find? at found
  split at found
  · exact isOf_of_firstSetting found
  · cases found

/-- Every commit that the selection starts from is hidden. -/
def Selection.Void (history : History) : Selection → Prop
  | .commits starts hidden => ∀ start ∈ starts, start < history.commits.length →
      ∃ other ∈ hidden, other < history.commits.length ∧ Reaches history start other
  | .paths => True

theorem selected_eq_nil_iff {history : History} {selection : Selection} :
    selected history selection = [] ↔ selection.Void history := by
  cases selection with
  | paths => exact iff_of_true rfl trivial
  | commits starts hidden =>
      change history.walk starts hidden = [] ↔ _
      rw [List.eq_nil_iff_forall_not_mem]
      constructor
      · intro nothing start member bound
        by_contra shown
        exact nothing start (History.mem_walk.mpr ⟨⟨start, member, bound, .refl start⟩, shown⟩)
      · intro void commit listed
        obtain ⟨⟨start, member, bound, reaches⟩, shown⟩ := History.mem_walk.mp listed
        obtain ⟨other, hides, otherBound, hidden⟩ := void start member bound
        exact shown ⟨other, hides, otherBound, reaches.trans hidden⟩

theorem lt_of_object {repository : Repository} (identified : repository.history.Identified)
    {revision : List Char} {found : Revision.Object}
    (ok : object repository revision = .ok found) {position : Nat}
    (named : found.commit? repository.history = some position) :
    position < repository.history.commits.length := by
  obtain ⟨hash, -, looked⟩ := object_eq_ok_iff.mp ok
  have within : found.Within repository.history := by
    unfold object? at looked
    split at looked
    · cases looked
      trivial
    · exact (Revision.of_object? looked).1
  exact Revision.lt_of_commit? identified within named

theorem void_iff_of_single (identified : setting.repository.history.Identified)
    {argument : List Char} (single : IsSingle argument) {selection : Selection}
    (selects : selection? setting argument = some selection) :
    selection.Void setting.repository.history ↔
      ∀ found, object setting.repository argument = .ok found →
        found.commit? setting.repository.history = none := by
  constructor
  · intro void found ok
    rw [selection?_of_object single ok] at selects
    split at selects
    · cases selects
      cases named : found.commit? setting.repository.history with
      | none => rfl
      | some position =>
          have start : position ∈ commitsAt setting.repository.history found := by
            unfold commitsAt
            rw [named]
            exact List.mem_singleton_self position
          obtain ⟨other, impossible, -⟩ :=
            void position start (lt_of_object identified ok named)
          cases impossible
    · cases selects
  · intro none
    rcases selection?_of_single single selects with rfl | ⟨found, ok, rfl, -⟩
    · trivial
    · intro start member
      unfold commitsAt at member
      rw [none found ok] at member
      cases member

/-! ### What the command prints -/

theorem exists_setting {reference : String} {commit : Commit}
    (answered : (source host).commit reference = .ok commit) :
    ∃ setting, Setting.find? host = some setting := by
  obtain ⟨_, -, answered⟩ := bind_eq_ok_iff.mp answered
  obtain ⟨output, printed, -⟩ := bind_eq_ok_iff.mp answered
  obtain ⟨logged, ran, -⟩ := Option.map_eq_some_iff.mp (ran_eq_ok_iff.mp printed)
  unfold logged? at ran
  split at ran
  · cases ran
  · obtain ⟨setting, found, -⟩ := Option.bind_eq_some_iff.mp ran
    exact ⟨setting, found⟩

theorem entry_ne_nil (history : History) (commit : Nat) : entry history commit ≠ [] := by
  unfold entry lineFeed
  simp

theorem printed_cases (found : Setting.find? host = some setting)
    (identified : setting.repository.history.Identified) {reference : String} {commit : Commit}
    (answered : (source host).commit reference = .ok commit) :
    ∃ selection, selection? setting reference.toList = some selection ∧
      ((selected setting.repository.history selection = [] ∧
          newestOutput? host reference = some [] ∧ commit = ⟨"", ""⟩) ∨
        ∃ position ∈ selected setting.repository.history selection,
          newestOutput? host reference = some (entry setting.repository.history position) ∧
          commit = answer setting.repository.history (some position)) := by
  obtain ⟨accepted, selection, selects, rfl⟩ := (commit_eq_ok_iff found identified).mp answered
  have printed : newestOutput? host reference =
      some (((selected setting.repository.history selection).head?.map
        (entry setting.repository.history)).getD []) :=
    (logged?_map_eq_some_iff found).mpr ⟨accepted.noZero, selection, selects, rfl⟩
  refine ⟨selection, selects, ?_⟩
  rw [printed]
  cases newest : (selected setting.repository.history selection).head? with
  | none => exact Or.inl ⟨List.head?_eq_none_iff.mp newest, rfl, rfl⟩
  | some position => exact Or.inr ⟨position, List.mem_of_head? newest, rfl, rfl⟩

theorem stores_iff_printed (identified : host.Identified) {reference : String} {commit : Commit}
    (answered : (source host).commit reference = .ok commit) :
    host.Stores commit ↔ newestOutput? host reference ≠ some [] := by
  obtain ⟨setting, found⟩ := exists_setting answered
  have isOf := isOf_of_find found
  obtain ⟨selection, -, ⟨-, printed, rfl⟩ | ⟨position, member, printed, rfl⟩⟩ :=
    printed_cases found (isOf.identified identified) answered
  · refine iff_of_false ?_ (not_not_intro printed)
    intro stored
    obtain ⟨store, member, position, bound, hash, -⟩ := stored
    exact (plain_sha (identified store member) bound).2 hash.symm
  · refine iff_of_true (isOf.stores (lt_of_mem_selected member) rfl (Or.inl rfl)) ?_
    rw [printed]
    intro same
    exact entry_ne_nil _ _ (Option.some.inj same)

theorem eq_of_unprinted (identified : host.Identified) {reference : String} {commit : Commit}
    (answered : (source host).commit reference = .ok commit)
    (unprinted : newestOutput? host reference = some []) : commit = ⟨"", ""⟩ := by
  obtain ⟨setting, found⟩ := exists_setting answered
  obtain ⟨selection, -, ⟨-, -, same⟩ | ⟨position, -, printed, -⟩⟩ :=
    printed_cases found ((isOf_of_find found).identified identified) answered
  · exact same
  · rw [unprinted] at printed
    exact absurd (Option.some.inj printed).symm (entry_ne_nil _ _)

theorem stores_of_listed (identified : host.Identified) {range : String} {shas : List String}
    (listed : (source host).shas range = .ok shas) {sha : String} (member : sha ∈ shas)
    {commit : Commit} (answered : (source host).commit sha = .ok commit) :
    host.Stores commit := by
  obtain ⟨setting, found⟩ := exists_setting answered
  have isOf := isOf_of_find found
  have ids := isOf.identified identified
  obtain ⟨-, ranged, -, rfl⟩ := (shas_eq_ok_iff found ids).mp listed
  obtain ⟨position, inRange, rfl⟩ := List.mem_map.mp member
  have bound := lt_of_mem_selected inRange
  obtain ⟨selection, selects, ⟨nothing, -, -⟩ | ⟨newest, listed, -, rfl⟩⟩ :=
    printed_cases found ids answered
  · rw [selection?_sha ids bound] at selects
    split at selects
    · cases selects
      obtain ⟨other, impossible, -⟩ :=
        selected_eq_nil_iff.mp nothing position (List.mem_singleton_self position) bound
      cases impossible
    · cases selects
  · exact isOf.stores (lt_of_mem_selected listed) rfl (Or.inl rfl)

/-- A commit that the source finds is one of the repository, with the hash and the message that have
been printed, exactly if the argument selects a commit. Otherwise nothing has been printed, and the
source finds a commit without a hash and without a message all the same. -/
theorem stored_iff_selected (identified : host.Identified) {reference : String} {commit : Commit}
    (answered : (source host).commit reference = .ok commit) :
    ∃ setting selection, Setting.find? host = some setting ∧
      selection? setting reference.toList = some selection ∧
      ((∃ position < setting.repository.history.commits.length,
          newestOutput? host reference = some (entry setting.repository.history position) ∧
          commit.sha = setting.repository.history.sha position ∧
          commit.message = Text.decodeLenient (setting.repository.history.message position)) ↔
        ¬selection.Void setting.repository.history) ∧
      (newestOutput? host reference = some [] ↔ selection.Void setting.repository.history) ∧
      (selection.Void setting.repository.history → commit = ⟨"", ""⟩ ∧
        ∀ validator : Validator, validator.validateReferences (source host) [reference] =
          .ok [validator.validateCommit ⟨"", ""⟩]) ∧
      (IsSingle reference.toList → (selection.Void setting.repository.history ↔
        ∀ found, object setting.repository reference.toList = .ok found →
          found.commit? setting.repository.history = none)) := by
  obtain ⟨setting, found⟩ := exists_setting answered
  have ids := (isOf_of_find found).identified identified
  obtain ⟨selection, selects, printed⟩ := printed_cases found ids answered
  refine ⟨setting, selection, found, selects, ?_⟩
  have single (single : IsSingle reference.toList) := void_iff_of_single ids single selects
  rw [← selected_eq_nil_iff] at single ⊢
  rcases printed with ⟨nothing, printed, rfl⟩ | ⟨position, member, printed, rfl⟩
  · refine ⟨?_, iff_of_true printed nothing, ?_, single⟩
    · refine iff_of_false ?_ (not_not_intro nothing)
      intro stored
      obtain ⟨position, bound, -, hash, -⟩ := stored
      exact (plain_sha ids bound).2 hash.symm
    · intro _
      refine ⟨rfl, fun validator => ?_⟩
      unfold Validator.validateReferences
      rw [Source.commits_singleton, answered]
      rfl
  · have something : selected setting.repository.history selection ≠ [] :=
      List.ne_nil_of_mem member
    refine ⟨?_, ?_, fun nothing => absurd nothing something, single⟩
    · exact iff_of_true ⟨position, lt_of_mem_selected member, printed, rfl, rfl⟩ something
    · refine iff_of_false ?_ something
      rw [printed]
      intro same
      exact entry_ne_nil _ _ (Option.some.inj same)

open Repository (crissCross crissCrossHost identified_crissCross)

theorem identified_crissCrossHost : crissCrossHost.Identified := by
  intro store member
  cases List.mem_singleton.mp member
  exact identified_crissCross

def emptyRange : String :=
  crissCross.sha 1 ++ ".." ++ crissCross.sha 1

theorem selection?_emptyRange :
    selection? crissCrossSetting emptyRange.toList = some (.commits [1] [1]) := by
  obtain ⟨object, found, named⟩ := @object_sha crissCrossSetting.repository
    identified_crissCross 1 (by decide)
  have selects := @selection?_between crissCrossSetting _ _ object object found found
    (by decide) (by decide) (by decide) (by decide) (by decide)
  unfold commitsAt at selects
  rw [named] at selects
  exact selects

theorem selected_emptyRange : selected crissCross (.commits [1] [1]) = [] :=
  (History.walk_between_eq_nil_iff (by decide) (by decide)).mpr (.refl 1)

theorem commit_emptyRange : (source crissCrossHost).commit emptyRange = .ok ⟨"", ""⟩ := by
  have names := @NamesCommit.of_sha crissCrossSetting.repository 1 identified_crissCross (by decide)
  apply (@commit_eq_ok_iff crissCrossSetting _ one_crissCross.found identified_crissCross _ _).mpr
  refine ⟨accepted_between names names (by decide), _, selection?_emptyRange, ?_⟩
  exact (congrArg (fun commits => answer crissCross commits.head?) selected_emptyRange).symm

theorem stored_emptyRange :
    ∃ setting selection, Setting.find? crissCrossHost = some setting ∧
      selection? setting emptyRange.toList = some selection ∧
      ((∃ position < setting.repository.history.commits.length,
          newestOutput? crissCrossHost emptyRange =
            some (entry setting.repository.history position) ∧
          "" = setting.repository.history.sha position ∧
          "" = Text.decodeLenient (setting.repository.history.message position)) ↔
        ¬selection.Void setting.repository.history) ∧
      (newestOutput? crissCrossHost emptyRange = some [] ↔
        selection.Void setting.repository.history) ∧
      (selection.Void setting.repository.history → (⟨"", ""⟩ : Commit) = ⟨"", ""⟩ ∧
        ∀ validator : Validator,
          validator.validateReferences (source crissCrossHost) [emptyRange] =
            .ok [validator.validateCommit ⟨"", ""⟩]) ∧
      (IsSingle emptyRange.toList → (selection.Void setting.repository.history ↔
        ∀ found, object setting.repository emptyRange.toList = .ok found →
          found.commit? setting.repository.history = none)) :=
  stored_iff_selected identified_crissCrossHost commit_emptyRange

/-- The command succeeds and prints nothing, and there is an outcome for a commit without a hash. -/
theorem empty_range_has_outcome :
    newestOutput? crissCrossHost emptyRange = some [] ∧
      (source crissCrossHost).commit emptyRange = .ok ⟨"", ""⟩ ∧
      Validator.standard.validateReferences (source crissCrossHost) [emptyRange] =
        .ok [⟨"", some "", none, [.invalidSummaryFormat, .missingOrInvalidType]⟩] := by
  refine ⟨?_, commit_emptyRange, ?_⟩
  · obtain ⟨selection, selects, ⟨-, printed, -⟩ | ⟨position, member, -⟩⟩ :=
      @printed_cases _ crissCrossSetting one_crissCross.found identified_crissCross _ _
        commit_emptyRange
    · exact printed
    · cases selects.symm.trans selection?_emptyRange
      exact absurd member (List.eq_nil_iff_forall_not_mem.mp selected_emptyRange position)
  · unfold Validator.validateReferences
    rw [Source.commits_singleton, commit_emptyRange]
    rfl

end Log
end CommitCheck
