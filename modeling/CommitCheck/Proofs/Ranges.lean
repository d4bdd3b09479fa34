import CommitCheck.Proofs.Backwards
import CommitCheck.Source.Direct

set_option autoImplicit false

/-! How the text of a range is split into its ends, and what a range with three dots selects. It
leaves out the commits that both ends have in common exactly if the ends have one merge base: a walk
hides one merge base, and what only another one leads to is left in. -/

namespace CommitCheck.Repository

variable {repository : Repository}

namespace Range

theorem ofText_symmetric {a b : String} (apart : ¬"...".toList <:+: a.toList)
    (plain : a.toList.getLast? ≠ some '.') : ofText (a ++ "..." ++ b) = .symmetric a b := by
  have split : Text.splitOnce? "...".toList (a.toList ++ "...".toList ++ b.toList) =
      some (a.toList, b.toList) := @Text.splitOnce?_run '.' 2 _ apart plain b.toList
  unfold ofText
  rw [String.toList_append, String.toList_append, split]
  simp only [String.ofList_toList]

theorem ofText_between {a b : String} (apartLeft : ¬"..".toList <:+: a.toList)
    (apartRight : ¬"..".toList <:+: b.toList) (plainLeft : a.toList.getLast? ≠ some '.')
    (plainRight : b.toList.head? ≠ some '.') : ofText (a ++ ".." ++ b) = .between a b := by
  have shorter {cs : List Char} (apart : ¬"..".toList <:+: cs) : ¬"...".toList <:+: cs := by
    intro found
    exact apart ((by decide : "..".toList <:+: "...".toList).trans found)
  have noThree : ¬"...".toList <:+: a.toList ++ "..".toList ++ b.toList := by
    apply @Text.not_infix_append '.' 3 _ _ _ (shorter apartRight) (Or.inr plainRight)
    exact @Text.not_infix_append '.' 3 _ _ (shorter apartLeft) (by decide) (Or.inl plainLeft)
  have split : Text.splitOnce? "..".toList (a.toList ++ "..".toList ++ b.toList) =
      some (a.toList, b.toList) := @Text.splitOnce?_run '.' 1 _ apartLeft plainLeft b.toList
  unfold ofText
  rw [String.toList_append, String.toList_append, Text.splitOnce?_eq_none_iff.mpr noThree, split]
  simp only [String.ofList_toList]

theorem ofText_single {text : String} (apart : ¬"..".toList <:+: text.toList) :
    ofText text = .single text := by
  have noThree : ¬"...".toList <:+: text.toList := by
    intro found
    exact apart ((by decide : "..".toList <:+: "...".toList).trans found)
  unfold ofText
  rw [Text.splitOnce?_eq_none_iff.mpr noThree, Text.splitOnce?_eq_none_iff.mpr apart]

end Range

theorem commit_eq_ok_iff {revision : String} {position : Nat} :
    repository.commit revision = .ok position ↔
      Revision.commit repository revision = .ok position := by
  unfold commit
  cases Revision.commit repository revision <;> simp

theorem areEnds_of_commit {start finish : String} {a b : Nat}
    (first : repository.commit start = .ok a) (second : repository.commit finish = .ok b)
    (plain : finish.toList.head? ≠ some '.') : areEnds start finish = true := by
  have startGiven := Revision.ne_empty_of_commit (commit_eq_ok_iff.mp first)
  have finishGiven := Revision.ne_empty_of_commit (commit_eq_ok_iff.mp second)
  unfold areEnds
  rw [Bool.and_eq_true, Bool.and_eq_true]
  exact ⟨⟨bne_iff_ne.mpr startGiven, bne_iff_ne.mpr finishGiven⟩, bne_iff_ne.mpr plain⟩

theorem lookUp_eq_ok_iff {revision : String} {commit : Commit} :
    repository.lookUp revision = .ok commit ↔
      ∃ position message, repository.commit revision = .ok position ∧
        messageText? (repository.history.message position) = some message ∧
        commit = ⟨repository.history.sha position, message⟩ := by
  unfold lookUp
  rw [bind_eq_ok_iff]
  apply exists_congr
  intro position
  cases read : messageText? (repository.history.message position) with
  | none => simp
  | some message => simp [eq_comm]

theorem lookUp_sha (identified : repository.history.Identified) {position : Nat}
    (bound : position < repository.history.commits.length) {message : String}
    (text : messageText? (repository.history.message position) = some message) :
    repository.lookUp (repository.history.sha position) =
      .ok ⟨repository.history.sha position, message⟩ := by
  apply lookUp_eq_ok_iff.mpr
  exact ⟨position, message, commit_eq_ok_iff.mpr (Log.commit_sha identified bound), text, rfl⟩

theorem shasIn_single {reference : String} {position : Nat}
    (found : repository.commit reference = .ok position)
    (apart : ¬"..".toList <:+: reference.toList) :
    repository.shasIn reference = .ok [repository.history.sha position] := by
  unfold shasIn commitsIn
  rw [Range.ofText_single apart]
  dsimp only
  rw [found]
  rfl

theorem shasIn_between {first second : String} {a b : Nat}
    (left : repository.commit first = .ok a) (right : repository.commit second = .ok b)
    (apartLeft : ¬"..".toList <:+: first.toList) (apartRight : ¬"..".toList <:+: second.toList)
    (plainLeft : first.toList.getLast? ≠ some '.') (plainRight : second.toList.head? ≠ some '.') :
    repository.shasIn (first ++ ".." ++ second) =
      .ok ((repository.history.walk [b] [a]).map repository.history.sha) := by
  unfold shasIn commitsIn
  rw [Range.ofText_between apartLeft apartRight plainLeft plainRight]
  dsimp only
  rw [if_pos (areEnds_of_commit left right plainRight), left, right]
  rfl

open History (Chronological IsMergeBase NewestFirst Reaches)

section

variable {first second : String} {a b : Nat}

private theorem shasIn_symmetric {base : Nat} {others : List Nat}
    (left : repository.commit first = .ok a) (right : repository.commit second = .ok b)
    (apart : ¬"...".toList <:+: first.toList) (plainLeft : first.toList.getLast? ≠ some '.')
    (plainRight : second.toList.head? ≠ some '.')
    (bases : repository.history.mergeBases a b = base :: others) :
    repository.shasIn (first ++ "..." ++ second) =
      .ok ((repository.history.walk [b, a] [base]).map repository.history.sha) := by
  unfold shasIn commitsIn
  rw [Range.ofText_symmetric apart plainLeft]
  dsimp only
  rw [if_pos (areEnds_of_commit left right plainRight), left, right]
  change (repository.commitsApart a b).map _ = _
  unfold commitsApart
  rw [bases]
  rfl

/-- A range with three dots between commits that have an ancestor in common leaves out the ancestors
of their newest merge base. These are all the commits that both ends have exactly if there is no
other merge base. -/
theorem symmetric_range_iff_one_mergeBase (identified : repository.history.Identified)
    (chronological : Chronological repository.history)
    (left : repository.commit first = .ok a) (right : repository.commit second = .ok b)
    (apart : ¬"...".toList <:+: first.toList) (plainLeft : first.toList.getLast? ≠ some '.')
    (plainRight : second.toList.head? ≠ some '.')
    (related : ∃ common, Reaches repository.history common a ∧
      Reaches repository.history common b) :
    ∃ base commits, IsMergeBase repository.history a b base ∧
      (∀ other, IsMergeBase repository.history a b other →
        repository.history.time other ≤ repository.history.time base) ∧
      repository.shasIn (first ++ "..." ++ second) = .ok (commits.map repository.history.sha) ∧
      (commits.map repository.history.sha).Nodup ∧
      NewestFirst repository.history commits ∧
      (∀ commit, commit ∈ commits ↔
        (Reaches repository.history commit a ∨ Reaches repository.history commit b) ∧
          ¬Reaches repository.history commit base) ∧
      ((∀ commit, commit ∈ commits ↔
        Xor (Reaches repository.history commit a) (Reaches repository.history commit b)) ↔
        ∀ other, IsMergeBase repository.history a b other → other = base) := by
  have leftBound := Revision.lt_of_commit identified (commit_eq_ok_iff.mp left)
  have rightBound := Revision.lt_of_commit identified (commit_eq_ok_iff.mp right)
  have isBase (commit : Nat) :
      commit ∈ repository.history.mergeBases a b ↔ IsMergeBase repository.history a b commit :=
    History.mem_mergeBases leftBound rightBound
  have sorted := History.newestFirst_mergeBases chronological a b
  obtain ⟨common, toLeft, toRight⟩ := related
  obtain ⟨best, bestBase, -⟩ := History.exists_mergeBase toLeft toRight
  have listed := (isBase best).mpr bestBase
  cases bases : repository.history.mergeBases a b with
  | nil =>
      rw [bases] at listed
      cases listed
  | cons base others =>
      -- The merge base that the walk hides is the first one, which is the newest.
      rw [bases] at isBase sorted
      have newest := (isBase base).mp List.mem_cons_self
      have members (commit : Nat) : commit ∈ repository.history.walk [b, a] [base] ↔
          (Reaches repository.history commit a ∨ Reaches repository.history commit b) ∧
            ¬Reaches repository.history commit base := by
        rw [History.mem_walk]
        have baseBound := Nat.lt_of_le_of_lt newest.left.le leftBound
        simp only [List.mem_cons, List.not_mem_nil, or_false, exists_eq_or_imp, exists_eq_left,
          leftBound, rightBound, baseBound, true_and]
        rw [or_comm]
      refine ⟨base, repository.history.walk [b, a] [base], newest, ?_,
        shasIn_symmetric left right apart plainLeft plainRight bases, ?_,
        History.newestFirst_walk chronological _ _, members, ?_⟩
      · intro other otherBase
        rcases List.mem_cons.mp ((isBase other).mpr otherBase) with rfl | later
        · exact Int.le_refl _
        · exact Int.le_of_lt ((List.pairwise_cons.mp sorted).1 other later)
      · exact Revision.nodup_map_sha_walk identified _ _
      · rw [← newest.hides_iff]
        apply forall_congr'
        intro commit
        rw [members commit]

end

/-! ### Two lines that have been merged into each other -/

def evenHash (digit : Char) : String :=
  String.ofList (List.replicate Revision.hashLength digit)

/-- Two lines of commits, merged into each other by the commits 3 and 4. The message of the first
commit of one line starts with a line feed. -/
def crissCross : History where
  commits :=
    [⟨evenHash '0', [], 0, Text.encode "[SETUP] root"⟩,
      ⟨evenHash '1', [0], 1, Text.encode "\n[BUG] a"⟩,
      ⟨evenHash '2', [0], 2, Text.encode "[BUG] b"⟩,
      ⟨evenHash '3', [1, 2], 3, Text.encode "Merge b into a"⟩,
      ⟨evenHash '4', [2, 1], 4, Text.encode "Merge a into b"⟩]
  precede := by decide

def crissCrossHost : Host where
  files :=
    .ofNodes
      [([".git"], .directory),
        ([".git", "HEAD"], .file (Text.encode "ref: refs/heads/main\n") FileTree.plainMode),
        ([".git", "objects"], .directory), ([".git", "refs"], .directory)]
  surroundings := { colors := true }
  stores := [([".git", "objects"], crissCross)]

def crissCrossRepository : Repository where
  directory := [".git"]
  shared := [".git"]
  files := crissCrossHost.files
  history := crissCross

theorem identified_crissCross : crissCross.Identified := by
  decide +kernel

theorem chronological_crissCross : Chronological crissCross := by
  decide

theorem commit_crissCross {position : Nat} (bound : position < 5) :
    crissCrossRepository.commit (crissCross.sha position) = .ok position :=
  commit_eq_ok_iff.mpr (@Log.commit_sha crissCrossRepository identified_crissCross position bound)

theorem symmetric_range_crissCross :
    ∃ base commits, IsMergeBase crissCross 3 4 base ∧
      (∀ other, IsMergeBase crissCross 3 4 other → crissCross.time other ≤ crissCross.time base) ∧
      crissCrossRepository.shasIn (crissCross.sha 3 ++ "..." ++ crissCross.sha 4) =
        .ok (commits.map crissCross.sha) ∧
      (commits.map crissCross.sha).Nodup ∧ NewestFirst crissCross commits ∧
      (∀ commit, commit ∈ commits ↔
        (Reaches crissCross commit 3 ∨ Reaches crissCross commit 4) ∧
          ¬Reaches crissCross commit base) ∧
      ((∀ commit, commit ∈ commits ↔
        Xor (Reaches crissCross commit 3) (Reaches crissCross commit 4)) ↔
        ∀ other, IsMergeBase crissCross 3 4 other → other = base) := by
  have root : Reaches crissCross 0 1 := .step (by decide) (.refl 0)
  have toLeft : Reaches crissCross 0 3 := .step (by decide : 1 ∈ _) root
  have toRight : Reaches crissCross 0 4 := .step (by decide : 1 ∈ _) root
  exact @symmetric_range_iff_one_mergeBase crissCrossRepository _ _ 3 4 identified_crissCross
    chronological_crissCross (commit_crissCross (by decide)) (commit_crissCross (by decide))
    (by decide) (by decide) (by decide) ⟨0, toLeft, toRight⟩

/-- Commit 1 is in the range although both ends have it. -/
theorem symmetric_range_lists_common :
    crissCross.Identified ∧ Chronological crissCross ∧
      crissCrossRepository.commit (crissCross.sha 3) = .ok 3 ∧
      crissCrossRepository.commit (crissCross.sha 4) = .ok 4 ∧
      Reaches crissCross 1 3 ∧ Reaches crissCross 1 4 ∧
      crissCrossRepository.shasIn (crissCross.sha 3 ++ "..." ++ crissCross.sha 4) =
        .ok ([4, 3, 1].map crissCross.sha) := by
  refine ⟨identified_crissCross, chronological_crissCross, commit_crissCross (by decide),
    commit_crissCross (by decide), ?_, ?_, by cbv⟩
  · exact .step (by decide : 1 ∈ _) (.refl 1)
  · exact .step (by decide : 1 ∈ _) (.refl 1)

end CommitCheck.Repository
