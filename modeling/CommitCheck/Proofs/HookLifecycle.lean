import CommitCheck.Proofs.HookRequests
import Mathlib.Logic.Basic

set_option autoImplicit false

/-! Any number of requests, one after the other. A hooks directory that starts without a backup and
with a script of someone else, or with none, is at every moment as it was at the start or has the
hook installed over that script, and uninstalling the hook leads back to the start. -/

namespace CommitCheck.HookDirectory

def run (directory : HookDirectory) (files : FileTree) (requests : List Request) : FileTree :=
  requests.foldl directory.after files

/-- There is no backup, and the script is missing or someone else's. -/
structure Fresh (files : FileTree) (place : Place) : Prop where
  script : files.held? (scriptPlace place .commitMessage) = none ∨
    Scripted (files.node? (scriptPlace place .commitMessage)) false
  backup : files.held? (backupPlace place .commitMessage) = none

/-- Every path leads to what it has led to before. -/
def Restored (before after : FileTree) : Prop :=
  ∀ path, after.find path = before.find path

/-- A generated script stands in the place of the script, what it has replaced is the backup, and
nothing else has changed. -/
structure Installed (directory : HookDirectory) (place : Place) (before after : FileTree) :
    Prop where
  script : ∃ block, after.find (directory.scriptPath .commitMessage) =
    .ok (scriptPlace place .commitMessage, scriptNode .commitMessage block)
  backup : after.held? (backupPlace place .commitMessage) =
    before.held? (scriptPlace place .commitMessage)
  reached : before.held? (scriptPlace place .commitMessage) ≠ none →
    after.locate (directory.backupPath .commitMessage) = .ok (backupPlace place .commitMessage)
  elsewhere : ∀ path spot node, spot ≠ scriptPlace place .commitMessage →
    spot ≠ backupPlace place .commitMessage →
      (after.find path = .ok (spot, node) ↔ before.find path = .ok (spot, node))

def DifferInEntries (place : Place) (before after : FileTree) : Prop :=
  FileTree.DifferAt [scriptPlace place .commitMessage, backupPlace place .commitMessage]
    before after

private theorem forall_entries {place : Place} {P : Place → Prop}
    (script : P (scriptPlace place .commitMessage))
    (backup : P (backupPlace place .commitMessage)) :
    ∀ spot ∈ [scriptPlace place .commitMessage, backupPlace place .commitMessage], P spot := by
  intro spot member
  rcases List.mem_cons.mp member with rfl | other
  · exact script
  · rw [List.mem_singleton.mp other]
    exact backup

private theorem place_not_entry (place : Place) :
    place ∉ [scriptPlace place .commitMessage, backupPlace place .commitMessage] := by
  have longer (name : String) : place ≠ place ++ [name] := by
    intro same
    have lengths := congrArg List.length same
    rw [List.length_append, List.length_singleton] at lengths
    omega
  intro member
  rcases List.mem_cons.mp member with script | other
  · exact longer _ script
  · exact longer _ (List.mem_singleton.mp other)

section Entries

variable {files : FileTree} {place : Place}

private theorem differ_of_script {changed : FileTree}
    (differ : FileTree.DifferAt [scriptPlace place .commitMessage] files changed)
    (backup : FileTree.Closed files (backupPlace place .commitMessage)) :
    DifferInEntries place files changed := by
  have same := differ.elsewhere (backupPlace place .commitMessage) (by
    intro spot member
    rw [List.mem_singleton.mp member]
    exact (apart_entries place .commitMessage).1)
  apply differ.widen (List.cons_subset_cons _ (List.nil_subset _))
  · exact forall_entries (differ.closedBefore _ List.mem_cons_self) backup
  · exact forall_entries (differ.closedAfter _ List.mem_cons_self) (backup.congr same)

private theorem differ_put
    (script : FileTree.Closed files (scriptPlace place .commitMessage))
    (backup : FileTree.Closed files (backupPlace place .commitMessage)) (block : Bool) :
    DifferInEntries place files
      (files.put (scriptPlace place .commitMessage) (scriptNode .commitMessage block)) :=
  differ_of_script (FileTree.differAt_put script _ scriptMode) backup

private theorem differ_erase
    (script : FileTree.Closed files (scriptPlace place .commitMessage))
    (backup : FileTree.Closed files (backupPlace place .commitMessage)) :
    DifferInEntries place files (files.erase (scriptPlace place .commitMessage)) :=
  differ_of_script (FileTree.differAt_erase script) backup

private theorem differ_restore
    (script : FileTree.Closed files (scriptPlace place .commitMessage))
    (backup : FileTree.Closed files (backupPlace place .commitMessage)) :
    DifferInEntries place files ((files.erase (scriptPlace place .commitMessage)).move
      (backupPlace place .commitMessage) (scriptPlace place .commitMessage)) := by
  have erased := differ_erase script backup
  have backupMember : backupPlace place .commitMessage ∈
      [scriptPlace place .commitMessage, backupPlace place .commitMessage] :=
    List.mem_cons_of_mem _ List.mem_cons_self
  have moved := FileTree.differAt_move (apart_entries place .commitMessage).symm
    (erased.closedAfter _ backupMember) (erased.closedAfter _ List.mem_cons_self)
  apply erased.trans
  apply moved.widen
  · exact List.cons_subset.mpr ⟨backupMember, List.cons_subset_cons _ (List.nil_subset _)⟩
  · exact erased.closedAfter
  · exact forall_entries (moved.closedAfter _ (List.mem_cons_of_mem _ List.mem_cons_self))
      (moved.closedAfter _ List.mem_cons_self)

end Entries

/-! ### The two states -/

structure AtStart (place : Place) (before after : FileTree) : Prop where
  differ : DifferInEntries place before after
  script : after.held? (scriptPlace place .commitMessage) =
    before.held? (scriptPlace place .commitMessage)
  backup : after.held? (backupPlace place .commitMessage) =
    before.held? (backupPlace place .commitMessage)

structure InPlace (directory : HookDirectory) (place : Place) (before after : FileTree) :
    Prop where
  differ : DifferInEntries place before after
  located : after.locate (directory.scriptPath .commitMessage) =
    .ok (scriptPlace place .commitMessage)
  script : ∃ block, after.held? (scriptPlace place .commitMessage) =
    some (.node (scriptNode .commitMessage block))
  backup : after.held? (backupPlace place .commitMessage) =
    before.held? (scriptPlace place .commitMessage)
  reached : before.held? (scriptPlace place .commitMessage) ≠ none →
    after.locate (directory.backupPath .commitMessage) = .ok (backupPlace place .commitMessage)

theorem Fresh.not_own {files : FileTree} {place : Place} (fresh : Fresh files place) :
    ¬Scripted (files.node? (scriptPlace place .commitMessage)) true := by
  intro own
  rcases fresh.script with missing | foreign
  · obtain ⟨content, mode, present⟩ := own.exists_file
    rw [FileTree.node?_eq_some_iff, missing] at present
    cases present
  · cases own.own_unique foreign

theorem Fresh.closed {files : FileTree} {place : Place} (fresh : Fresh files place) :
    FileTree.Closed files (scriptPlace place .commitMessage) ∧
      FileTree.Closed files (backupPlace place .commitMessage) := by
  refine ⟨?_, FileTree.closed_of_none fresh.backup⟩
  rcases fresh.script with missing | foreign
  · exact FileTree.closed_of_none missing
  · obtain ⟨content, mode, present⟩ := foreign.exists_file
    exact FileTree.closed_of_file present

section States

variable {directory : HookDirectory} {place : Place} {before after : FileTree}

private theorem find_directory (differ : DifferInEntries place before after)
    (there : before.find directory.path = .ok (place, .directory)) :
    after.find directory.path = .ok (place, .directory) :=
  (FileTree.DifferAt.find_iff differ (place_not_entry place)).mpr there

private theorem closed_after (differ : DifferInEntries place before after) :
    FileTree.Closed after (scriptPlace place .commitMessage) ∧
      FileTree.Closed after (backupPlace place .commitMessage) :=
  ⟨differ.closedAfter _ List.mem_cons_self,
    differ.closedAfter _ (List.mem_cons_of_mem _ List.mem_cons_self)⟩

private theorem unlinked_after (differ : DifferInEntries place before after) :
    Unlinked after place .commitMessage :=
  ⟨(closed_after differ).1.unlinked, (closed_after differ).2.unlinked⟩

theorem AtStart.refl (fresh : Fresh before place) : AtStart place before before :=
  { differ :=
      { elsewhere := fun _spot _outside => rfl
        closedBefore := forall_entries fresh.closed.1 fresh.closed.2
        closedAfter := forall_entries fresh.closed.1 fresh.closed.2 }
    script := rfl
    backup := rfl }

theorem AtStart.restored (start : AtStart place before after) : Restored before after :=
  FileTree.DifferAt.find_eq start.differ (forall_entries start.script start.backup)

theorem InPlace.own (inPlace : InPlace directory place before after) :
    Scripted (after.node? (scriptPlace place .commitMessage)) true := by
  obtain ⟨block, present⟩ := inPlace.script
  rw [FileTree.node?_eq_some_iff.mpr present]
  exact scripted_scriptNode .commitMessage block

theorem InPlace.installed (inPlace : InPlace directory place before after) :
    Installed directory place before after := by
  obtain ⟨block, present⟩ := inPlace.script
  refine ⟨⟨block, FileTree.find_eq_ok_iff.mpr
    ⟨inPlace.located, FileTree.node?_eq_some_iff.mpr present⟩⟩, inPlace.backup,
    inPlace.reached, ?_⟩
  intro path spot node notScript notBackup
  apply FileTree.DifferAt.find_iff inPlace.differ
  intro member
  rcases List.mem_cons.mp member with script | other
  · exact notScript script
  · exact notBackup (List.mem_singleton.mp other)

theorem Installed.not_restored (fresh : Fresh before place)
    (installed : Installed directory place before after) : ¬Restored before after := by
  intro restored
  obtain ⟨block, found⟩ := installed.script
  rw [restored] at found
  apply fresh.not_own
  rw [(FileTree.find_eq_ok_iff.mp found).2]
  exact scripted_scriptNode .commitMessage block

private theorem AtStart.after_install (fresh : Fresh before place)
    (there : before.find directory.path = .ok (place, .directory))
    (start : AtStart place before after) (force block : Bool) :
    AtStart place before ((directory.install .commitMessage force block).after after) ∨
      InPlace directory place before
        ((directory.install .commitMessage force block).after after) := by
  have closed := closed_after start.differ
  rcases install_cases (find_directory start.differ there) (unlinked_after start.differ) force
      block with
    ⟨error, failed⟩ | ⟨free, located, ran⟩ | ⟨-, foreign, located, backupAt, -, ran⟩
  · rw [FileAction.after_of_error failed]
    exact Or.inl start
  · rw [FileTree.node?_congr start.script] at free
    have missing := free.resolve_right fresh.not_own
    have missing := FileTree.held?_eq_none missing fresh.closed.1.unlinked
    have differ := differ_put closed.1 closed.2 block
    have entries := held?_put_script after place .commitMessage (scriptNode .commitMessage block)
    rw [FileAction.after_of_ok ran]
    right
    exact
      { differ := start.differ.trans differ
        located := (FileTree.DifferAt.locate differ located).1
        script := ⟨block, entries.1⟩
        backup := by rw [entries.2, start.backup, fresh.backup, missing]
        reached := fun present => absurd missing present }
  · have moved := FileTree.differAt_move (apart_entries place .commitMessage) closed.1 closed.2
    have differ := moved.trans (differ_put (closed_after moved).1 (closed_after moved).2 block)
    have entries := held?_put_script (after.move (scriptPlace place .commitMessage)
      (backupPlace place .commitMessage)) place .commitMessage (scriptNode .commitMessage block)
    have whole := start.differ.trans differ
    rw [FileAction.after_of_ok ran]
    right
    exact
      { differ := whole
        located := (differ.locate located).1
        script := ⟨block, entries.1⟩
        backup := by rw [entries.2, held?_move_script, start.script]
        reached := fun _present => FileTree.locate_child (find_directory whole there)
          (backupName .commitMessage) (unlinked_after whole).backup
          (FileTree.locateEntry_eq_ok_iff.mp backupAt).1 }

private theorem AtStart.after_uninstall (fresh : Fresh before place)
    (there : before.find directory.path = .ok (place, .directory))
    (start : AtStart place before after) (name : String) :
    AtStart place before ((directory.uninstall .commitMessage name).after after) := by
  have notOwn := fresh.not_own
  rw [← FileTree.node?_congr start.script] at notOwn
  rcases uninstall_cases (find_directory start.differ there) (unlinked_after start.differ) name with
    ⟨error, failed⟩ | idle | ⟨own, -⟩ | ⟨own, -⟩
  · rw [FileAction.after_of_error failed]
    exact start
  · rw [FileAction.after_of_ok idle]
    exact start
  · exact absurd own notOwn
  · exact absurd own notOwn

private theorem InPlace.after_install
    (there : before.find directory.path = .ok (place, .directory))
    (inPlace : InPlace directory place before after) (force block : Bool) :
    InPlace directory place before
      ((directory.install .commitMessage force block).after after) := by
  have closed := closed_after inPlace.differ
  rcases install_cases (find_directory inPlace.differ there) (unlinked_after inPlace.differ) force
      block with
    ⟨error, failed⟩ | ⟨-, located, ran⟩ | ⟨-, foreign, -⟩
  · rw [FileAction.after_of_error failed]
    exact inPlace
  · have differ := differ_put closed.1 closed.2 block
    have entries := held?_put_script after place .commitMessage (scriptNode .commitMessage block)
    rw [FileAction.after_of_ok ran]
    exact
      { differ := inPlace.differ.trans differ
        located := (FileTree.DifferAt.locate differ located).1
        script := ⟨block, entries.1⟩
        backup := entries.2.trans inPlace.backup
        reached := fun present => (FileTree.DifferAt.locate differ (inPlace.reached present)).1 }
  · cases inPlace.own.own_unique foreign

private theorem InPlace.uninstall (fresh : Fresh before place)
    (there : before.find directory.path = .ok (place, .directory))
    (inPlace : InPlace directory place before after) (name : String) :
    ∃ final, directory.uninstall .commitMessage name after = .ok () final ∧
      AtStart place before final := by
  have there' := find_directory inPlace.differ there
  have closed := closed_after inPlace.differ
  rcases fresh.script with missing | foreign
  · have backup := inPlace.backup.trans missing
    have bare := not_holds_backup there' (unlinked_after inPlace.differ)
      ((FileTree.node?_congr inPlace.backup).trans (FileTree.node?_of_none missing))
    have entries := held?_erase_script after place .commitMessage
    refine ⟨_, uninstall_bare there' inPlace.located inPlace.own bare name, ?_⟩
    exact
      { differ := inPlace.differ.trans (differ_erase closed.1 closed.2)
        script := entries.1.trans missing.symm
        backup := by rw [entries.2, backup, fresh.backup] }
  · obtain ⟨content, mode, present⟩ := foreign.exists_file
    have backupAt := inPlace.reached (by
      rw [FileTree.node?_eq_some_iff.mp present]
      intro impossible
      cases impossible)
    have entries := held?_restore_script after place .commitMessage
    refine ⟨_, uninstall_restoring there' inPlace.located inPlace.own backupAt
      ((FileTree.node?_congr inPlace.backup).trans present) name, ?_⟩
    exact
      { differ := inPlace.differ.trans (differ_restore closed.1 closed.2)
        script := entries.1.trans inPlace.backup
        backup := entries.2.trans fresh.backup.symm }

theorem states_after (fresh : Fresh before place)
    (there : before.find directory.path = .ok (place, .directory))
    (state : AtStart place before after ∨ InPlace directory place before after)
    (request : Request) :
    AtStart place before (directory.after after request) ∨
      InPlace directory place before (directory.after after request) := by
  rcases after_cases directory after request with ⟨same, -⟩ | ⟨block, ran⟩ | ⟨-, name, ran⟩
  · rw [same]
    exact state
  · rw [ran]
    rcases state with start | inPlace
    · exact start.after_install fresh there request.forces block
    · exact Or.inr (inPlace.after_install there request.forces block)
  · rw [ran]
    left
    rcases state with start | inPlace
    · exact start.after_uninstall fresh there name
    · obtain ⟨final, uninstalled, back⟩ := inPlace.uninstall fresh there name
      rw [FileAction.after_of_ok uninstalled]
      exact back

/-! ### Any number of requests -/

theorem states_run (fresh : Fresh before place)
    (there : before.find directory.path = .ok (place, .directory)) (requests : List Request)
    (state : AtStart place before after ∨ InPlace directory place before after) :
    AtStart place before (directory.run after requests) ∨
      InPlace directory place before (directory.run after requests) := by
  induction requests generalizing after with
  | nil => exact state
  | cons request requests ih => exact ih (states_after fresh there state request)

end States

/-- Requests lead from a fresh directory either back to it or to the hook being installed, never to
both and never to anything else, and from there uninstalling succeeds and leads back. -/
theorem run_restored_xor_installed {files : FileTree} {directory : HookDirectory} {place : Place}
    (there : files.find directory.path = .ok (place, .directory)) (fresh : Fresh files place)
    (requests : List Request) :
    Xor (Restored files (directory.run files requests))
        (Installed directory place files (directory.run files requests)) ∧
      (Installed directory place files (directory.run files requests) →
        ∃ final, directory.uninstallAll (directory.run files requests) = .ok () final ∧
          Restored files final) := by
  rcases states_run fresh there requests (Or.inl (AtStart.refl fresh)) with start | inPlace
  · have restored := start.restored
    constructor
    · exact Or.inl ⟨restored, fun installed => installed.not_restored fresh restored⟩
    · intro installed
      exact absurd restored (installed.not_restored fresh)
  · have installed := inPlace.installed
    constructor
    · exact Or.inr ⟨installed, installed.not_restored fresh⟩
    · intro _installed
      obtain ⟨final, uninstalled, back⟩ :=
        inPlace.uninstall fresh there Hook.commitMessage.fileName
      refine ⟨final, ?_, back.restored⟩
      exact FileAction.bind_ok uninstalled

def oneScript : FileTree :=
  .ofNodes
    [(["hooks"], .directory),
      (["hooks", "commit-msg"], .file (Text.encode "first") scriptMode)]

theorem run_restored_xor_installed_oneScript :
    oneScript.find atHooks.path = .ok (["hooks"], .directory) ∧ Fresh oneScript ["hooks"] ∧
      Installed atHooks ["hooks"] oneScript
        (atHooks.run oneScript [.installAll true false, .status]) ∧
      ∃ final, atHooks.uninstallAll
          (atHooks.run oneScript [.installAll true false, .status]) = .ok () final ∧
        Restored oneScript final := by
  have there : oneScript.find atHooks.path = .ok (["hooks"], .directory) :=
    find_atHooks (by decide)
  have foreign : Scripted (oneScript.node? (scriptPlace ["hooks"] .commitMessage)) false :=
    ⟨_, scriptMode, "first", by decide, Text.decode?_encode "first", by decide⟩
  have fresh : Fresh oneScript ["hooks"] := ⟨Or.inr foreign, by decide⟩
  have unlinked : Unlinked oneScript ["hooks"] .commitMessage := ⟨by decide, by decide⟩
  have scriptAt := locate_script_atHooks there unlinked.script
  have backupAt := locateEntry_backup_atHooks there
  have ran := install_forced there unlinked scriptAt foreign backupAt (by decide)
    false
  have first : atHooks.run oneScript [.installAll true false, .status] = _ :=
    FileAction.after_of_ok ((installAll_eq atHooks true false oneScript).trans ran)
  obtain ⟨spot, found⟩ := find_of_install ran
  obtain ⟨states, leadsBack⟩ :=
    run_restored_xor_installed there fresh [.installAll true false, .status]
  have changed : ¬Restored oneScript (atHooks.run oneScript [.installAll true false, .status]) := by
    intro restored
    rw [← first, restored] at found
    obtain ⟨located, present⟩ := FileTree.find_eq_ok_iff.mp found
    obtain rfl := eq_scriptPlace there unlinked located
    apply fresh.not_own
    rw [present]
    exact scripted_scriptNode .commitMessage false
  have installed := (states.resolve_left fun start => changed start.1).1
  exact ⟨there, fresh, installed, leadsBack installed⟩

end CommitCheck.HookDirectory
