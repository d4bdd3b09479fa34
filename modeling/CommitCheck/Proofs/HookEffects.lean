import CommitCheck.Proofs.HookRequests

set_option autoImplicit false

/-! What a request to a hooks directory can change if neither entry of the hook is a link. A request
that fails changes nothing. One that succeeds changes nothing but the two entries of the hook; if one
of them is a directory, all that is in it goes where the entry goes. -/

namespace CommitCheck.HookDirectory

def OnlyEntries (place : Place) (before after : FileTree) : Prop :=
  ∀ other, other ≠ scriptPlace place .commitMessage → other ≠ backupPlace place .commitMessage →
    after.held? other = before.held? other

/-- A directory in the place of the backup is in the place of the script now, with all that is in
it. -/
def CarriedOver (place : Place) (before after : FileTree) : Prop :=
  before.node? (backupPlace place .commitMessage) = some .directory ∧
    ∀ below, after.held? (scriptPlace place .commitMessage ++ below) =
          before.held? (backupPlace place .commitMessage ++ below) ∧
      after.held? (backupPlace place .commitMessage ++ below) = none

/-- Nothing differs but the two entries and what is in a directory that is carried over. -/
structure SameOutside (place : Place) (before after : FileTree) : Prop where
  outside : ∀ other, ¬scriptPlace place .commitMessage <+: other →
    ¬backupPlace place .commitMessage <+: other → after.held? other = before.held? other
  inside : before.Tidy → OnlyEntries place before after ∨ CarriedOver place before after

/-- Nothing has changed, or at most the two entries of the directory to which the path leads. -/
def Confined (directory : HookDirectory) (before after : FileTree) : Prop :=
  after = before ∨
    ∃ place, before.find directory.path = .ok (place, .directory) ∧ SameOutside place before after

section Entries

variable {files : FileTree} {place : Place}

private theorem held?_put_off {spot other : Place} (below : spot ≠ []) (off : other ≠ spot)
    (node : Node) : (files.put spot node).held? other = files.held? other := by
  rw [FileTree.held?_put files below, if_neg off]

private theorem onlyEntries_of_inside {before after : FileTree}
    (outside : ∀ other, ¬scriptPlace place .commitMessage <+: other →
      ¬backupPlace place .commitMessage <+: other → after.held? other = before.held? other)
    (script : ∀ below, below ≠ [] → after.held? (scriptPlace place .commitMessage ++ below) =
      before.held? (scriptPlace place .commitMessage ++ below))
    (backup : ∀ below, below ≠ [] → after.held? (backupPlace place .commitMessage ++ below) =
      before.held? (backupPlace place .commitMessage ++ below)) :
    OnlyEntries place before after := by
  intro other notScript notBackup
  by_cases underScript : scriptPlace place .commitMessage <+: other
  · obtain ⟨below, rfl⟩ := underScript
    exact script below (fun empty => notScript (by rw [empty, List.append_nil]))
  · by_cases underBackup : backupPlace place .commitMessage <+: other
    · obtain ⟨below, rfl⟩ := underBackup
      exact backup below (fun empty => notBackup (by rw [empty, List.append_nil]))
    · exact outside other underScript underBackup

private theorem append_ne_self {place : Place} {below : List String} (inside : below ≠ []) :
    place ++ below ≠ place := by
  intro same
  exact inside (List.append_right_eq_self.mp same)

theorem sameOutside_put (files : FileTree) (place : Place) (node : Node) :
    SameOutside place files (files.put (scriptPlace place .commitMessage) node) := by
  have apart := apart_entries place .commitMessage
  have only : OnlyEntries place files (files.put (scriptPlace place .commitMessage) node) :=
    fun other notScript _notBackup => held?_put_off apart.ne_nil notScript node
  refine ⟨?_, fun _tidy => Or.inl only⟩
  intro other offScript offBackup
  exact only other (fun same => offScript (same ▸ List.prefix_rfl))
    (fun same => offBackup (same ▸ List.prefix_rfl))

theorem sameOutside_replace
    (script : files.node? (scriptPlace place .commitMessage) ≠ some .directory)
    (backup : files.node? (backupPlace place .commitMessage) ≠ some .directory) (node : Node) :
    SameOutside place files ((files.move (scriptPlace place .commitMessage)
      (backupPlace place .commitMessage)).put (scriptPlace place .commitMessage) node) := by
  have apart := apart_entries place .commitMessage
  have outside : ∀ other, ¬scriptPlace place .commitMessage <+: other →
      ¬backupPlace place .commitMessage <+: other →
        ((files.move (scriptPlace place .commitMessage) (backupPlace place .commitMessage)).put
          (scriptPlace place .commitMessage) node).held? other = files.held? other := by
    intro other offScript offBackup
    rw [held?_put_off apart.ne_nil (fun same => offScript (same ▸ List.prefix_rfl)),
      FileTree.held?_move_of_outside files apart offScript offBackup]
  refine ⟨outside, ?_⟩
  intro tidy
  left
  apply onlyEntries_of_inside outside
  · intro below inside
    rw [held?_put_off apart.ne_nil (append_ne_self inside), FileTree.held?_move_source files apart,
      tidy.held?_below script inside]
  · intro below inside
    rw [held?_put_off apart.ne_nil
        (fun same => apart.not_prefix_append below (same ▸ List.prefix_rfl)),
      FileTree.held?_move_target files apart, tidy.held?_below script inside,
      tidy.held?_below backup inside]

theorem sameOutside_erase
    (script : files.node? (scriptPlace place .commitMessage) ≠ some .directory) :
    SameOutside place files (files.erase (scriptPlace place .commitMessage)) := by
  have apart := apart_entries place .commitMessage
  have outside : ∀ other, ¬scriptPlace place .commitMessage <+: other →
      ¬backupPlace place .commitMessage <+: other →
        (files.erase (scriptPlace place .commitMessage)).held? other = files.held? other :=
    fun other offScript _offBackup => FileTree.held?_erase_of_outside apart.ne_nil offScript
  refine ⟨outside, ?_⟩
  intro tidy
  left
  apply onlyEntries_of_inside outside
  · intro below inside
    rw [FileTree.held?_erase_below files apart.ne_nil, tidy.held?_below script inside]
  · intro below _inside
    exact FileTree.held?_erase_of_outside apart.ne_nil (apart.not_prefix_append below)

theorem sameOutside_restore
    (script : files.node? (scriptPlace place .commitMessage) ≠ some .directory) :
    SameOutside place files ((files.erase (scriptPlace place .commitMessage)).move
      (backupPlace place .commitMessage) (scriptPlace place .commitMessage)) := by
  have apart := apart_entries place .commitMessage
  have entries := held?_restore_inside files place .commitMessage
  have outside : ∀ other, ¬scriptPlace place .commitMessage <+: other →
      ¬backupPlace place .commitMessage <+: other →
        ((files.erase (scriptPlace place .commitMessage)).move (backupPlace place .commitMessage)
          (scriptPlace place .commitMessage)).held? other = files.held? other := by
    intro other offScript offBackup
    rw [FileTree.held?_move_of_outside _ apart.symm offBackup offScript,
      FileTree.held?_erase_of_outside apart.ne_nil offScript]
  refine ⟨outside, ?_⟩
  intro tidy
  by_cases directory : files.node? (backupPlace place .commitMessage) = some .directory
  · exact Or.inr ⟨directory, entries⟩
  · left
    apply onlyEntries_of_inside outside
    · intro below inside
      rw [(entries below).1, tidy.held?_below script inside, tidy.held?_below directory inside]
    · intro below inside
      rw [(entries below).2, tidy.held?_below directory inside]

end Entries

/-! ### Requests -/

section Requests

variable {directory : HookDirectory} {files : FileTree}

theorem install_confined
    (unlinked : ∀ place, files.find directory.path = .ok (place, .directory) →
      Unlinked files place .commitMessage) (force block : Bool) :
    (∃ error, directory.install .commitMessage force block files = .error error files) ∨
    ∃ changed, directory.install .commitMessage force block files = .ok () changed ∧
      Confined directory files changed := by
  cases located : files.locate (directory.scriptPath .commitMessage) with
  | error fault => exact Or.inl (install_of_unlocated force located block)
  | ok spot =>
      obtain ⟨place, there⟩ := FileTree.exists_directory_of_locate_child located
      rcases install_cases there (unlinked place there) force block with
        failed | ⟨-, -, ran⟩ | ⟨-, foreign, -, -, closed, ran⟩
      · exact Or.inl failed
      · exact Or.inr ⟨_, ran, Or.inr ⟨place, there, sameOutside_put files place _⟩⟩
      · exact Or.inr ⟨_, ran,
          Or.inr ⟨place, there, sameOutside_replace foreign.not_directory closed _⟩⟩

theorem uninstall_confined
    (unlinked : ∀ place, files.find directory.path = .ok (place, .directory) →
      Unlinked files place .commitMessage) (name : String) :
    (∃ error, directory.uninstall .commitMessage name files = .error error files) ∨
    ∃ changed, directory.uninstall .commitMessage name files = .ok () changed ∧
      Confined directory files changed := by
  cases located : files.locate (directory.scriptPath .commitMessage) with
  | error fault =>
      exact Or.inr ⟨files, uninstall_of_not_holds (holds_of_unlocated located) name, Or.inl rfl⟩
  | ok spot =>
      obtain ⟨place, there⟩ := FileTree.exists_directory_of_locate_child located
      rcases uninstall_cases there (unlinked place there) name with
        failed | idle | ⟨own, ran⟩ | ⟨own, ran⟩
      · exact Or.inl failed
      · exact Or.inr ⟨files, idle, Or.inl rfl⟩
      · exact Or.inr ⟨_, ran, Or.inr ⟨place, there, sameOutside_erase own.not_directory⟩⟩
      · exact Or.inr ⟨_, ran, Or.inr ⟨place, there, sameOutside_restore own.not_directory⟩⟩

/-- Where neither entry of the hook is a link, a request fails and leaves all files as they are, or
succeeds and changes nothing but the two entries, with what is in a directory among them. -/
theorem perform_unchanged_or_confined
    (unlinked : ∀ place, files.find directory.path = .ok (place, .directory) →
      Unlinked files place .commitMessage) (request : Request) :
    (∃ error, directory.perform request files = .error error files) ∨
    ∃ changed, directory.perform request files = .ok () changed ∧
      Confined directory files changed := by
  rcases perform_cases directory files request with
    ⟨-, failed⟩ | ⟨-, idle⟩ | ⟨-, block, ran⟩ | ⟨-, name, ran⟩
  · exact Or.inl failed
  · exact Or.inr ⟨files, idle, Or.inl rfl⟩
  · rw [ran]
    exact install_confined unlinked request.forces block
  · rw [ran]
    exact uninstall_confined unlinked name

end Requests

def linkedHooks : FileTree :=
  ⟨[(["hooks"], .link "shared/hooks"), (["shared"], .node .directory),
    (["shared", "hooks"], .node .directory),
    (["shared", "hooks", "commit-msg"], .node (.file (Text.encode "first") scriptMode))]⟩

theorem perform_unchanged_or_confined_linkedHooks :
    (∀ place, linkedHooks.find atHooks.path = .ok (place, .directory) →
        Unlinked linkedHooks place .commitMessage) ∧
      ∃ changed, atHooks.perform (.installAll true false) linkedHooks = .ok () changed ∧
        Confined atHooks linkedHooks changed := by
  have there : linkedHooks.find atHooks.path = .ok (["shared", "hooks"], .directory) :=
    FileTree.find_eq_ok_iff.mpr ⟨FileTree.locate_eq_ok_iff.mpr
      ⟨FileTree.pathFault?_eq_none_iff.mpr (by decide), 39, .step rfl rfl
        (.enter rfl rfl (.inl rfl) (.step rfl rfl (.step rfl rfl (.done 39 _))))⟩, rfl⟩
  have unlinked : Unlinked linkedHooks ["shared", "hooks"] .commitMessage := ⟨rfl, rfl⟩
  have every : ∀ place, linkedHooks.find atHooks.path = .ok (place, .directory) →
      Unlinked linkedHooks place .commitMessage := by
    intro place found
    rw [there] at found
    cases found
    exact unlinked
  have scriptAt := locate_script_atHooks there unlinked.script
  have backupAt := locateEntry_backup_atHooks there
  have foreign : Scripted (linkedHooks.node? (scriptPlace ["shared", "hooks"] .commitMessage))
      false := ⟨_, scriptMode, "first", rfl, Text.decode?_encode "first", by decide⟩
  have free : linkedHooks.node? (backupPlace ["shared", "hooks"] .commitMessage) ≠
      some .directory := by decide
  have ran := install_forced there unlinked scriptAt foreign backupAt free false
  refine ⟨every, ?_⟩
  rcases perform_unchanged_or_confined every (.installAll true false) with ⟨error, failed⟩ | done
  · rw [show atHooks.perform (.installAll true false) linkedHooks = _ from
      (installAll_eq atHooks true false linkedHooks).trans ran] at failed
    cases failed
  · exact done

def directoryBackup : FileTree :=
  .ofNodes
    [(["hooks"], .directory),
      (["hooks", "commit-msg"], scriptNode .commitMessage true),
      (["hooks", "commit-msg.backup"], .directory),
      (["hooks", "commit-msg.backup", "old"], .file (Text.encode "first") scriptMode)]

private theorem uninstall_carries :
    ∃ changed, atHooks.perform .uninstallAll directoryBackup = .ok () changed ∧
      ¬OnlyEntries ["hooks"] directoryBackup changed := by
  have there : directoryBackup.find atHooks.path = .ok (["hooks"], .directory) :=
    find_atHooks (by decide)
  have scriptAt := locate_script_atHooks there rfl
  have backupAt := locate_backup_atHooks there rfl
  have own : Scripted (directoryBackup.node? (scriptPlace ["hooks"] .commitMessage)) true :=
    scripted_scriptNode .commitMessage true
  have present : directoryBackup.node? (backupPlace ["hooks"] .commitMessage) =
      some .directory := rfl
  refine ⟨_, (uninstallAll_eq atHooks directoryBackup).trans
    (uninstall_restoring there scriptAt own backupAt present _), ?_⟩
  intro only
  have moved := (held?_restore_inside directoryBackup ["hooks"] .commitMessage ["old"]).2
  have same := only ["hooks", "commit-msg.backup", "old"] (by decide) (by decide)
  have gone := moved.symm.trans same
  cases gone

def linkedScript : FileTree :=
  ⟨[(["hooks"], .node .directory), (["hooks", "commit-msg"], .link "../mine"),
    (["mine"], .node (.file (Text.encode Hook.marker) FileTree.plainMode))]⟩

private theorem install_writes_elsewhere :
    ∃ changed, atHooks.perform (.installAll false false) linkedScript = .ok () changed ∧
      ¬OnlyEntries ["hooks"] linkedScript changed := by
  have located : linkedScript.locate (atHooks.scriptPath .commitMessage) = .ok ["mine"] :=
    FileTree.locate_eq_ok_iff.mpr ⟨FileTree.pathFault?_eq_none_iff.mpr (by decide), 39,
      .step rfl rfl (.step rfl rfl (.enter rfl rfl (.inl rfl)
        (.step rfl rfl (.step rfl rfl (.done 39 _)))))⟩
  have own : Scripted (linkedScript.node? ["mine"]) true :=
    ⟨_, FileTree.plainMode, Hook.marker, rfl, Text.decode?_encode Hook.marker, by decide⟩
  refine ⟨_, (installAll_eq atHooks false false linkedScript).trans
    (install_of_not_foreign false located (Or.inr own) false), ?_⟩
  intro only
  have written := FileTree.held?_put_self linkedScript (List.cons_ne_nil "mine" [])
    (scriptNode .commitMessage false)
  have modes := written.symm.trans (only ["mine"] (by decide) (by decide))
  rw [show linkedScript.held? ["mine"] =
    some (.node (.file (Text.encode Hook.marker) FileTree.plainMode)) from rfl] at modes
  unfold scriptNode at modes
  simp only [Option.some.injEq, Entry.node.injEq, Node.file.injEq] at modes
  cases modes.2

def linkedBackup : FileTree :=
  ⟨[(["hooks"], .node .directory), (["hooks", "old"], .node .directory),
    (["hooks", "commit-msg"], .node (.file (Text.encode "first") scriptMode)),
    (["hooks", "commit-msg.backup"], .link "old")]⟩

def throughBackup : HookDirectory :=
  ⟨.ofText "/hooks/commit-msg.backup/.."⟩

private theorem install_fails_late :
    ∃ error changed,
      throughBackup.perform (.installAll true false) linkedBackup = .error error changed ∧
        changed ≠ linkedBackup := by
  have located : linkedBackup.locate (throughBackup.scriptPath .commitMessage) =
      .ok ["hooks", "commit-msg"] :=
    FileTree.locate_eq_ok_iff.mpr ⟨FileTree.pathFault?_eq_none_iff.mpr (by decide), 39,
      .step rfl rfl (.step rfl rfl (.enter rfl rfl (.inl rfl)
        (.step rfl rfl (.step rfl rfl (.step rfl rfl (.done 39 _))))))⟩
  have scriptAt : linkedBackup.locateEntry (throughBackup.scriptPath .commitMessage) =
      .ok ["hooks", "commit-msg"] :=
    FileTree.locateEntry_eq_ok_iff.mpr ⟨FileTree.pathFault?_eq_none_iff.mpr (by decide), 39,
      .step rfl rfl (.step rfl rfl (.enter rfl rfl (.inr (List.cons_ne_nil _ _))
        (.step rfl rfl (.step rfl rfl (.step rfl rfl (.done 39 _))))))⟩
  have backupAt : linkedBackup.locateEntry (throughBackup.backupPath .commitMessage) =
      .ok ["hooks", "commit-msg.backup"] :=
    FileTree.locateEntry_eq_ok_iff.mpr ⟨FileTree.pathFault?_eq_none_iff.mpr (by decide), 39,
      .step rfl rfl (.step rfl rfl (.enter rfl rfl (.inr (List.cons_ne_nil _ _))
        (.step rfl rfl (.step rfl rfl (.stop rfl rfl rfl)))))⟩
  have foreign : Scripted (linkedBackup.node? ["hooks", "commit-msg"]) false :=
    ⟨_, scriptMode, "first", rfl, Text.decode?_encode "first", by decide⟩
  have renamed := FileTree.rename_of_closed scriptAt rfl rfl backupAt (by decide)
  have lost : (linkedBackup.move ["hooks", "commit-msg"] ["hooks", "commit-msg.backup"]).locate
      (throughBackup.scriptPath .commitMessage) = .error .notADirectory := by
    unfold FileTree.locate
    rw [FileTree.pathFault?_eq_none_iff.mpr (by decide)]
    rfl
  obtain ⟨error, failed⟩ := install_forced_lost located foreign renamed lost false
  refine ⟨error, _, (installAll_eq throughBackup true false linkedBackup).trans failed, ?_⟩
  intro same
  have gone := FileTree.held?_move_source linkedBackup (apart_entries ["hooks"] .commitMessage) []
  have kept := congrArg (FileTree.held? · ["hooks", "commit-msg"]) same
  cases kept.symm.trans gone

/-- More than the two entries can change: what is in the backup goes along with it, and a script is
written where a link leads to. A request can also fail too late, when it has replaced a link that
the path of the directory goes through. -/
theorem requests_change_more :
    (∃ changed, atHooks.perform .uninstallAll directoryBackup = .ok () changed ∧
        ¬OnlyEntries ["hooks"] directoryBackup changed) ∧
      (∃ changed, atHooks.perform (.installAll false false) linkedScript = .ok () changed ∧
        ¬OnlyEntries ["hooks"] linkedScript changed) ∧
      ∃ error changed,
        throughBackup.perform (.installAll true false) linkedBackup = .error error changed ∧
          changed ≠ linkedBackup :=
  ⟨uninstall_carries, install_writes_elsewhere, install_fails_late⟩

end CommitCheck.HookDirectory
