import CommitCheck.Proofs.HookEffects

set_option autoImplicit false

/-! What the status of a hook says about requests. The hook can be installed where there is no script
or the status says that it is installed; where someone else's script can be read, force and a free
place for the backup are needed. It can be uninstalled where there is no script or the status says
that it is installed. -/

namespace CommitCheck

def FileAction.Succeeds (action : FileAction Unit) (files : FileTree) : Prop :=
  ∃ changed, action files = .ok () changed

theorem FileAction.not_succeeds_of_error {action : FileAction Unit} {files changed : FileTree}
    {error : Error} (failed : action files = .error error changed) : ¬action.Succeeds files := by
  intro succeeds
  obtain ⟨other, ran⟩ := succeeds
  rw [failed] at ran
  cases ran

namespace HookDirectory

def IsText (entry : Option Node) : Prop :=
  ∃ content mode text, entry = some (.file content mode) ∧ Text.decode? content = some text

def IsExecutable (entry : Option Node) : Prop :=
  ∃ content mode, entry = some (.file content mode) ∧ mode &&& 0o111 = 0o111

/-- The place of the script holds what the place of the backup has held, and that one is free. -/
structure BroughtBack (place : Place) (before after : FileTree) : Prop where
  script : after.held? (scriptPlace place .commitMessage) =
    before.held? (backupPlace place .commitMessage)
  backup : after.held? (backupPlace place .commitMessage) = none
  inside : before.node? (backupPlace place .commitMessage) = some .directory →
    CarriedOver place before after

theorem Scripted.isText {entry : Option Node} {own : Bool} (scripted : Scripted entry own) :
    IsText entry := by
  obtain ⟨content, mode, script, present, decoded, -⟩ := scripted
  exact ⟨content, mode, script, present, decoded⟩

theorem IsText.scripted {entry : Option Node} (text : IsText entry) :
    ∃ own, Scripted entry own := by
  obtain ⟨content, mode, script, present, decoded⟩ := text
  exact ⟨Hook.isOwn script, content, mode, script, present, decoded, rfl⟩

theorem isExecutable_script (hook : Hook) (block : Bool) :
    IsExecutable (some (scriptNode hook block)) :=
  ⟨_, _, rfl, by decide⟩

section Installedness

variable {files : FileTree} {path : Path} {spot : Place}

theorem isInstalled_of_scripted {own : Bool} (located : files.locate path = .ok spot)
    (scripted : Scripted (files.node? spot) own) : isInstalled files path = own := by
  obtain ⟨script, text, owned⟩ := readText_of_scripted located scripted
  unfold isInstalled
  rw [text]
  exact owned

theorem isInstalled_of_unread {fault : Fault} (unread : files.readText path = .error fault) :
    isInstalled files path = false := by
  unfold isInstalled
  rw [unread]

theorem isInstalled_iff (located : files.locate path = .ok spot) :
    isInstalled files path = true ↔ Scripted (files.node? spot) true := by
  constructor
  · intro installed
    rcases entry_cases (files.node? spot) with missing | unreadable | own | foreign
    · have unread : files.readText path = .error .notFound := by
        unfold FileTree.readText FileTree.read
        rw [FileTree.find_of_missing located missing]
      rw [isInstalled_of_unread unread] at installed
      cases installed
    · obtain ⟨fault, unread⟩ := readText_of_unreadable located unreadable
      rw [isInstalled_of_unread unread] at installed
      cases installed
    · exact own
    · rw [isInstalled_of_scripted located foreign] at installed
      cases installed
  · intro own
    exact isInstalled_of_scripted located own

end Installedness

section Requests

variable {files : FileTree} {directory : HookDirectory} {place : Place}

theorem locate_entries (there : files.find directory.path = .ok (place, .directory))
    (unlinked : Unlinked files place .commitMessage)
    (faultless : FileTree.pathFault? (directory.backupPath .commitMessage) = none) :
    files.locate (directory.scriptPath .commitMessage) = .ok (scriptPlace place .commitMessage) ∧
      files.locate (directory.backupPath .commitMessage) =
        .ok (backupPlace place .commitMessage) := by
  have longer := FileTree.text_child_append directory.path Hook.commitMessage.fileName ".backup"
  exact ⟨FileTree.locate_child there (scriptName .commitMessage) unlinked.script
      (FileTree.pathFault?_of_append longer faultless),
    FileTree.locate_child there (backupName .commitMessage) unlinked.backup faultless⟩

theorem install_succeeds_iff (there : files.find directory.path = .ok (place, .directory))
    (unlinked : Unlinked files place .commitMessage)
    (faultless : FileTree.pathFault? (directory.backupPath .commitMessage) = none)
    (force block : Bool) :
    FileAction.Succeeds (directory.install .commitMessage force block) files ↔
      files.node? (scriptPlace place .commitMessage) = none ∨
      Scripted (files.node? (scriptPlace place .commitMessage)) true ∨
      (force = true ∧ IsText (files.node? (scriptPlace place .commitMessage)) ∧
        files.node? (backupPlace place .commitMessage) ≠ some .directory) := by
  obtain ⟨scriptAt, backupAt⟩ := locate_entries there unlinked faultless
  constructor
  · intro succeeds
    rcases install_cases there unlinked force block with
      ⟨error, failed⟩ | ⟨free, -, -⟩ | ⟨forced, foreign, -, -, closed, -⟩
    · exact absurd succeeds (FileAction.not_succeeds_of_error failed)
    · rcases free with missing | own
      · exact Or.inl missing
      · exact Or.inr (Or.inl own)
    · exact Or.inr (Or.inr ⟨forced, foreign.isText, closed⟩)
  · intro free
    rcases free with missing | own | ⟨forced, text, closed⟩
    · exact ⟨_, install_of_not_foreign force scriptAt (Or.inl missing) block⟩
    · exact ⟨_, install_of_not_foreign force scriptAt (Or.inr own) block⟩
    · subst forced
      obtain ⟨own, scripted⟩ := text.scripted
      cases own with
      | true => exact ⟨_, install_of_not_foreign true scriptAt (Or.inr scripted) block⟩
      | false =>
          exact ⟨_, install_forced there unlinked scriptAt scripted
            (locateEntry_backup there backupAt) closed block⟩

theorem installed_of_install (there : files.find directory.path = .ok (place, .directory))
    (unlinked : Unlinked files place .commitMessage) {force block : Bool} {changed : FileTree}
    (ran : directory.install .commitMessage force block files = .ok () changed) :
    directory.status changed = [("commit-msg", true)] ∧
      IsExecutable (changed.node? (scriptPlace place .commitMessage)) := by
  constructor
  · obtain ⟨spot, found⟩ := find_of_install ran
    obtain ⟨located, present⟩ := FileTree.find_eq_ok_iff.mp found
    have own : Scripted (changed.node? spot) true :=
      present ▸ scripted_scriptNode .commitMessage block
    change [("commit-msg", isInstalled changed (directory.scriptPath .commitMessage))] = _
    rw [isInstalled_of_scripted located own]
  · have written (between : FileTree) : IsExecutable ((between.put (scriptPlace place .commitMessage)
        (scriptNode .commitMessage block)).node? (scriptPlace place .commitMessage)) := by
      rw [FileTree.node?_put_self between (apart_entries place .commitMessage).ne_nil]
      exact isExecutable_script .commitMessage block
    rcases install_cases there unlinked force block with
      ⟨error, failed⟩ | ⟨-, -, laid⟩ | ⟨-, -, -, -, -, laid⟩
    · rw [failed] at ran
      cases ran
    · rw [laid] at ran
      cases ran
      exact written files
    · rw [laid] at ran
      cases ran
      exact written _

theorem uninstall_brings_back (there : files.find directory.path = .ok (place, .directory))
    (unlinked : Unlinked files place .commitMessage)
    (faultless : FileTree.pathFault? (directory.backupPath .commitMessage) = none)
    (own : Scripted (files.node? (scriptPlace place .commitMessage)) true) (name : String) :
    ∃ changed, directory.uninstall .commitMessage name files = .ok () changed ∧
      BroughtBack place files changed := by
  obtain ⟨scriptAt, backupAt⟩ := locate_entries there unlinked faultless
  cases present : files.node? (backupPlace place .commitMessage) with
  | none =>
      have missing := FileTree.held?_eq_none present unlinked.backup
      have entries := held?_erase_script files place .commitMessage
      refine ⟨_, uninstall_bare there scriptAt own (not_holds_backup there unlinked present) name,
        entries.1.trans missing.symm, entries.2.trans missing, ?_⟩
      intro impossible
      rw [present] at impossible
      cases impossible
  | some node =>
      have entries := held?_restore_script files place .commitMessage
      exact ⟨_, uninstall_restoring there scriptAt own backupAt present name, entries.1, entries.2,
        fun closed => ⟨closed, held?_restore_inside files place .commitMessage⟩⟩

theorem uninstall_succeeds_iff (there : files.find directory.path = .ok (place, .directory))
    (unlinked : Unlinked files place .commitMessage)
    (faultless : FileTree.pathFault? (directory.backupPath .commitMessage) = none)
    (name : String) :
    FileAction.Succeeds (directory.uninstall .commitMessage name) files ↔
      files.node? (scriptPlace place .commitMessage) = none ∨
      Scripted (files.node? (scriptPlace place .commitMessage)) true := by
  have scriptAt := (locate_entries there unlinked faultless).1
  constructor
  · intro succeeds
    rcases entry_cases (files.node? (scriptPlace place .commitMessage)) with
      missing | unreadable | own | foreign
    · exact Or.inl missing
    · obtain ⟨error, failed⟩ := uninstall_of_unreadable scriptAt unreadable name
      exact absurd succeeds (FileAction.not_succeeds_of_error failed)
    · exact Or.inr own
    · exact absurd succeeds
        (FileAction.not_succeeds_of_error (uninstall_of_foreign scriptAt foreign name))
  · intro free
    rcases free with missing | own
    · exact ⟨files, uninstall_of_not_holds (holds_of_missing scriptAt missing) name⟩
    · obtain ⟨changed, ran, -⟩ := uninstall_brings_back there unlinked faultless own name
      exact ⟨changed, ran⟩

end Requests

/-- Where neither entry is a link, the status says which requests succeed: installing needs a free
place, an installed hook, or force and a script that can be read and kept; uninstalling needs a free
place or an installed hook, and then brings back what is in the place of the backup. -/
theorem status_decides_requests {files : FileTree} {directory : HookDirectory} {place : Place}
    (there : files.find directory.path = .ok (place, .directory))
    (unlinked : Unlinked files place .commitMessage)
    (faultless : FileTree.pathFault? (directory.backupPath .commitMessage) = none) :
    ∃ installed, directory.status files = [("commit-msg", installed)] ∧
      (∀ force block, FileAction.Succeeds (directory.installAll force block) files ↔
        files.node? (scriptPlace place .commitMessage) = none ∨ installed = true ∨
          (force = true ∧ IsText (files.node? (scriptPlace place .commitMessage)) ∧
            files.node? (backupPlace place .commitMessage) ≠ some .directory)) ∧
      (∀ request changed, request.installs = true →
        directory.perform request files = .ok () changed →
          directory.status changed = [("commit-msg", true)] ∧
            IsExecutable (changed.node? (scriptPlace place .commitMessage))) ∧
      (FileAction.Succeeds directory.uninstallAll files ↔
        files.node? (scriptPlace place .commitMessage) = none ∨ installed = true) ∧
      (installed = true → ∃ changed, directory.uninstallAll files = .ok () changed ∧
        BroughtBack place files changed) := by
  have own := isInstalled_iff (locate_entries there unlinked faultless).1
  refine ⟨isInstalled files (directory.scriptPath .commitMessage), rfl, ?_, ?_, ?_, ?_⟩
  · intro force block
    rw [own, ← install_succeeds_iff there unlinked faultless force block]
    unfold FileAction.Succeeds
    rw [installAll_eq]
  · intro request changed installs ran
    rcases perform_cases directory files request with
      ⟨-, error, failed⟩ | ⟨other, -⟩ | ⟨-, block, same⟩ | ⟨other, -⟩
    · rw [failed] at ran
      cases ran
    · rw [installs] at other
      cases other
    · exact installed_of_install there unlinked (same ▸ ran)
    · rw [installs] at other
      cases other
  · rw [own, ← uninstall_succeeds_iff there unlinked faultless Hook.commitMessage.fileName]
    unfold FileAction.Succeeds
    rw [uninstallAll_eq]
  · intro installed
    rw [uninstallAll_eq]
    exact uninstall_brings_back there unlinked faultless (own.mp installed) _

theorem status_decides_requests_directoryBackup :
    directoryBackup.find atHooks.path = .ok (["hooks"], .directory) ∧
      Unlinked directoryBackup ["hooks"] .commitMessage ∧
      FileTree.pathFault? (atHooks.backupPath .commitMessage) = none ∧
      atHooks.status directoryBackup = [("commit-msg", true)] ∧
      (∀ block, FileAction.Succeeds (atHooks.installAll false block) directoryBackup) ∧
      ∃ changed, atHooks.uninstallAll directoryBackup = .ok () changed ∧
        BroughtBack ["hooks"] directoryBackup changed := by
  have there : directoryBackup.find atHooks.path = .ok (["hooks"], .directory) :=
    find_atHooks (by decide)
  have unlinked : Unlinked directoryBackup ["hooks"] .commitMessage := ⟨rfl, rfl⟩
  have faultless : FileTree.pathFault? (atHooks.backupPath .commitMessage) = none :=
    FileTree.pathFault?_eq_none_iff.mpr (by decide)
  have own : Scripted (directoryBackup.node? (scriptPlace ["hooks"] .commitMessage)) true :=
    scripted_scriptNode .commitMessage true
  have status : atHooks.status directoryBackup = [("commit-msg", true)] := by
    change [("commit-msg", isInstalled directoryBackup (atHooks.scriptPath .commitMessage))] = _
    rw [isInstalled_of_scripted (locate_entries there unlinked faultless).1 own]
  obtain ⟨installed, same, installs, -, -, restores⟩ :=
    status_decides_requests there unlinked faultless
  rw [status] at same
  cases same
  have again (block : Bool) : FileAction.Succeeds (atHooks.installAll false block)
      directoryBackup := (installs false block).mpr (Or.inr (Or.inl rfl))
  exact ⟨there, unlinked, faultless, status, again, restores rfl⟩

end HookDirectory

end CommitCheck
