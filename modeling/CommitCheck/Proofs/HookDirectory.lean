import CommitCheck.Hook.Directory
import CommitCheck.Proofs.FileTree

set_option autoImplicit false

/-! What installing and uninstalling a hook do to the two entries of a hooks directory. Every
operation either fails and leaves the files alone or ends in one explicit tree; which of them
happens depends on the standing of the script and on whether the backup can be reached. -/

namespace CommitCheck

theorem FileAction.bind_ok {α β : Type} {first : FileAction α} {next : α → FileAction β}
    {files changed : FileTree} {found : α} (ran : first files = .ok found changed) :
    (first >>= next) files = next found changed := by
  change EStateM.bind first next files = _
  unfold EStateM.bind
  rw [ran]

theorem FileAction.exists_of_bind_ok {α β : Type} {first : FileAction α}
    {next : α → FileAction β} {files changed : FileTree} {found : β}
    (ran : (first >>= next) files = .ok found changed) :
    ∃ value between, first files = .ok value between ∧ next value between = .ok found changed := by
  change EStateM.bind first next files = _ at ran
  unfold EStateM.bind at ran
  split at ran
  · rename_i value between done
    exact ⟨value, between, done, ran⟩
  · cases ran

theorem FileAction.bind_error {α β : Type} {first : FileAction α} {next : α → FileAction β}
    {files changed : FileTree} {error : Error} (failed : first files = .error error changed) :
    (first >>= next) files = .error error changed := by
  change EStateM.bind first next files = _
  unfold EStateM.bind
  rw [failed]

def FileAction.after {α : Type} (action : FileAction α) (files : FileTree) : FileTree :=
  match action files with
  | .ok _ changed => changed
  | .error _ changed => changed

theorem FileAction.after_of_ok {α : Type} {action : FileAction α} {files changed : FileTree}
    {found : α} (ran : action files = .ok found changed) : action.after files = changed := by
  unfold after
  rw [ran]

theorem FileAction.after_of_error {α : Type} {action : FileAction α} {files changed : FileTree}
    {error : Error} (failed : action files = .error error changed) :
    action.after files = changed := by
  unfold after
  rw [failed]

theorem FileAction.after_bind {α β : Type} {first : FileAction α} {next : α → FileAction β}
    {files changed : FileTree} {found : α} (ran : first files = .ok found changed) :
    (first >>= next).after files = (next found).after changed := by
  unfold after
  rw [bind_ok ran]

theorem change_ok {report : Fault → Error} {step : FileTree → Except Fault FileTree}
    {files changed : FileTree} (done : step files = .ok changed) :
    change report step files = .ok () changed := by
  unfold change
  rw [done]

theorem change_error {report : Fault → Error} {step : FileTree → Except Fault FileTree}
    {files : FileTree} {fault : Fault} (failed : step files = .error fault) :
    change report step files = .error (report fault) files := by
  unfold change
  rw [failed]

namespace HookDirectory

/-- A script stands in the entry; `own` says whether this program installed it. -/
def Scripted (entry : Option Node) (own : Bool) : Prop :=
  ∃ content mode script, entry = some (.file content mode) ∧
    Text.decode? content = some script ∧ Hook.isOwn script = own

def Unreadable (entry : Option Node) : Prop :=
  entry = some .directory ∨
    ∃ content mode, entry = some (.file content mode) ∧ Text.decode? content = none

theorem entry_cases (entry : Option Node) :
    entry = none ∨ Unreadable entry ∨ Scripted entry true ∨ Scripted entry false := by
  cases entry with
  | none => exact Or.inl rfl
  | some node =>
      right
      cases node with
      | directory => exact Or.inl (Or.inl rfl)
      | file content mode =>
          cases decoded : Text.decode? content with
          | none => exact Or.inl (Or.inr ⟨content, mode, rfl, decoded⟩)
          | some script =>
              right
              cases own : Hook.isOwn script with
              | true => exact Or.inl ⟨content, mode, script, rfl, decoded, own⟩
              | false => exact Or.inr ⟨content, mode, script, rfl, decoded, own⟩

theorem Unreadable.exists_node {entry : Option Node} (unreadable : Unreadable entry) :
    ∃ node, entry = some node := by
  rcases unreadable with present | ⟨content, mode, present, -⟩
  · exact ⟨_, present⟩
  · exact ⟨_, present⟩

theorem Scripted.own_unique {entry : Option Node} {own other : Bool}
    (scripted : Scripted entry own) (again : Scripted entry other) : own = other := by
  obtain ⟨content, mode, script, rfl, decoded, rfl⟩ := scripted
  obtain ⟨content', mode', script', same, decoded', rfl⟩ := again
  cases same
  rw [decoded] at decoded'
  cases decoded'
  rfl

theorem Scripted.exists_file {entry : Option Node} {own : Bool} (scripted : Scripted entry own) :
    ∃ content mode, entry = some (.file content mode) := by
  obtain ⟨content, mode, script, present, -, -⟩ := scripted
  exact ⟨content, mode, present⟩

theorem Scripted.not_directory {entry : Option Node} {own : Bool}
    (scripted : Scripted entry own) : entry ≠ some .directory := by
  obtain ⟨content, mode, present⟩ := scripted.exists_file
  rw [present]
  intro impossible
  cases impossible

section Looking

variable {files : FileTree} {path : Path} {spot : Place}

theorem holds_of_unlocated {fault : Fault} (unlocated : files.locate path = .error fault) :
    files.holds path = false := by
  unfold FileTree.holds
  rw [FileTree.find_of_unlocated unlocated]
  rfl

theorem holds_of_missing (located : files.locate path = .ok spot)
    (missing : files.node? spot = none) : files.holds path = false := by
  unfold FileTree.holds
  rw [FileTree.find_of_missing located missing]
  rfl

theorem holds_of_present {node : Node} (located : files.locate path = .ok spot)
    (present : files.node? spot = some node) : files.holds path = true := by
  unfold FileTree.holds
  rw [FileTree.find_eq_ok_iff.mpr ⟨located, present⟩]
  rfl

theorem readText_of_scripted {own : Bool} (located : files.locate path = .ok spot)
    (scripted : Scripted (files.node? spot) own) :
    ∃ script, files.readText path = .ok script ∧ Hook.isOwn script = own := by
  obtain ⟨content, mode, script, present, decoded, owned⟩ := scripted
  refine ⟨script, ?_, owned⟩
  unfold FileTree.readText
  rw [FileTree.read_eq_ok_iff.mpr ⟨spot, mode, FileTree.find_eq_ok_iff.mpr ⟨located, present⟩⟩]
  simp only [decoded]

theorem readText_of_unreadable (located : files.locate path = .ok spot)
    (unreadable : Unreadable (files.node? spot)) :
    ∃ fault, files.readText path = .error fault := by
  unfold FileTree.readText
  rcases unreadable with present | ⟨content, mode, present, undecoded⟩
  · unfold FileTree.read
    rw [FileTree.find_eq_ok_iff.mpr ⟨located, present⟩]
    exact ⟨.isADirectory, rfl⟩
  · rw [FileTree.read_eq_ok_iff.mpr ⟨spot, mode, FileTree.find_eq_ok_iff.mpr ⟨located, present⟩⟩]
    simp only [undecoded]
    exact ⟨.notText, rfl⟩

theorem readsOwn_of_scripted {own : Bool} (located : files.locate path = .ok spot)
    (scripted : Scripted (files.node? spot) own) : readsOwn path files = .ok own files := by
  obtain ⟨script, text, owned⟩ := readText_of_scripted located scripted
  unfold readsOwn inspect
  simp only [text]
  rw [← owned]
  rfl

theorem readsOwn_of_unreadable (located : files.locate path = .ok spot)
    (unreadable : Unreadable (files.node? spot)) :
    ∃ error, readsOwn path files = .error error files := by
  obtain ⟨fault, text⟩ := readText_of_unreadable located unreadable
  unfold readsOwn inspect
  simp only [text]
  exact ⟨_, rfl⟩

theorem isForeign_of_not_holds (empty : files.holds path = false) :
    isForeign path files = .ok false files := by
  change (if files.holds path then do return !(← readsOwn path) else return false :
    FileAction Bool) files = _
  rw [empty]
  rfl

theorem isForeign_of_scripted {own : Bool} (located : files.locate path = .ok spot)
    (scripted : Scripted (files.node? spot) own) :
    isForeign path files = .ok (!own) files := by
  obtain ⟨content, mode, present⟩ := scripted.exists_file
  change (if files.holds path then do return !(← readsOwn path) else return false :
    FileAction Bool) files = _
  rw [holds_of_present located present, if_pos rfl,
    FileAction.bind_ok (readsOwn_of_scripted located scripted)]
  rfl

theorem isForeign_of_unreadable (located : files.locate path = .ok spot)
    (unreadable : Unreadable (files.node? spot)) :
    ∃ error, isForeign path files = .error error files := by
  obtain ⟨node, present⟩ := unreadable.exists_node
  obtain ⟨error, failed⟩ := readsOwn_of_unreadable located unreadable
  refine ⟨error, ?_⟩
  change (if files.holds path then do return !(← readsOwn path) else return false :
    FileAction Bool) files = _
  rw [holds_of_present located present, if_pos rfl, FileAction.bind_error failed]

theorem readsOwn_cases (path : Path) (files : FileTree) :
    (∃ error, readsOwn path files = .error error files) ∨
    ∃ script, files.readText path = .ok script ∧
      readsOwn path files = .ok (Hook.isOwn script) files := by
  unfold readsOwn inspect
  cases text : files.readText path with
  | error fault =>
      simp only [text]
      exact Or.inl ⟨_, rfl⟩
  | ok script =>
      simp only [text]
      exact Or.inr ⟨script, rfl, rfl⟩

theorem isForeign_of_readText {script : String} (text : files.readText path = .ok script) :
    isForeign path files = .ok (!Hook.isOwn script) files := by
  have held : files.holds path = true := by
    unfold FileTree.readText FileTree.read at text
    unfold FileTree.holds
    cases found : files.find path with
    | error fault =>
        rw [found] at text
        cases text
    | ok entry => rfl
  have owned : readsOwn path files = .ok (Hook.isOwn script) files := by
    unfold readsOwn inspect
    simp only [text]
    rfl
  change (if files.holds path then do return !(← readsOwn path) else return false :
    FileAction Bool) files = _
  rw [held, if_pos rfl, FileAction.bind_ok owned]
  rfl

theorem readText_of_isForeign (looked : isForeign path files = .ok true files) :
    ∃ script, files.readText path = .ok script ∧ Hook.isOwn script = false := by
  cases held : files.holds path with
  | false =>
      rw [isForeign_of_not_holds held] at looked
      cases looked
  | true =>
      change (if files.holds path then do return !(← readsOwn path) else return false :
        FileAction Bool) files = _ at looked
      rw [held, if_pos rfl] at looked
      rcases readsOwn_cases path files with ⟨error, failed⟩ | ⟨script, text, ran⟩
      · rw [FileAction.bind_error failed] at looked
        cases looked
      · rw [FileAction.bind_ok ran] at looked
        cases owned : Hook.isOwn script with
        | false => exact ⟨script, text, owned⟩
        | true =>
            rw [owned] at looked
            cases looked

theorem isForeign_cases (path : Path) (files : FileTree) :
    (∃ error, isForeign path files = .error error files) ∨
    ∃ foreign, isForeign path files = .ok foreign files := by
  cases held : files.holds path with
  | false => exact Or.inr ⟨false, isForeign_of_not_holds held⟩
  | true =>
      change (∃ error, (if files.holds path then do return !(← readsOwn path) else return false :
          FileAction Bool) files = .error error files) ∨
        ∃ foreign, (if files.holds path then do return !(← readsOwn path) else return false :
          FileAction Bool) files = .ok foreign files
      rw [held, if_pos rfl]
      rcases readsOwn_cases path files with ⟨error, failed⟩ | ⟨script, -, ran⟩
      · exact Or.inl ⟨error, FileAction.bind_error failed⟩
      · exact Or.inr ⟨!Hook.isOwn script, FileAction.bind_ok ran⟩

end Looking

/-! ### The entries of a hook -/

def scriptPlace (place : Place) (hook : Hook) : Place :=
  place ++ [hook.fileName]

def backupPlace (place : Place) (hook : Hook) : Place :=
  place ++ [hook.fileName ++ ".backup"]

theorem apart_entries (place : Place) (hook : Hook) :
    FileTree.Apart (scriptPlace place hook) (backupPlace place hook) := by
  unfold FileTree.Apart scriptPlace backupPlace
  rw [List.prefix_append_right_inj, List.prefix_append_right_inj]
  cases hook
  decide

theorem scriptName (hook : Hook) : FileTree.EntryName hook.fileName := by
  cases hook
  exact ⟨by decide, by decide, by decide⟩

theorem backupName (hook : Hook) : FileTree.EntryName (hook.fileName ++ ".backup") := by
  cases hook
  exact ⟨by decide, by decide, by decide⟩

/-- Neither entry of the hook is a link. -/
structure Unlinked (files : FileTree) (place : Place) (hook : Hook) : Prop where
  script : files.link? (scriptPlace place hook) = none
  backup : files.link? (backupPlace place hook) = none

section Places

variable {files : FileTree} {directory : HookDirectory} {place spot : Place} {hook : Hook}

theorem locateEntry_script (there : files.find directory.path = .ok (place, .directory))
    (located : files.locate (directory.scriptPath hook) = .ok spot) :
    files.locateEntry (directory.scriptPath hook) = .ok (scriptPlace place hook) :=
  FileTree.locateEntry_child there (scriptName hook) (FileTree.locate_eq_ok_iff.mp located).1

theorem locateEntry_backup (there : files.find directory.path = .ok (place, .directory))
    (located : files.locate (directory.backupPath hook) = .ok spot) :
    files.locateEntry (directory.backupPath hook) = .ok (backupPlace place hook) :=
  FileTree.locateEntry_child there (backupName hook) (FileTree.locate_eq_ok_iff.mp located).1

theorem eq_scriptPlace (there : files.find directory.path = .ok (place, .directory))
    (unlinked : Unlinked files place hook)
    (located : files.locate (directory.scriptPath hook) = .ok spot) :
    spot = scriptPlace place hook :=
  FileTree.place_of_locate_child there (scriptName hook) unlinked.script located

theorem eq_backupPlace (there : files.find directory.path = .ok (place, .directory))
    (unlinked : Unlinked files place hook)
    (located : files.locate (directory.backupPath hook) = .ok spot) :
    spot = backupPlace place hook :=
  FileTree.place_of_locate_child there (backupName hook) unlinked.backup located

theorem not_holds_backup (there : files.find directory.path = .ok (place, .directory))
    (unlinked : Unlinked files place hook)
    (missing : files.node? (backupPlace place hook) = none) :
    files.holds (directory.backupPath hook) = false := by
  cases located : files.locate (directory.backupPath hook) with
  | error fault => exact holds_of_unlocated located
  | ok spot =>
      obtain rfl := eq_backupPlace there unlinked located
      exact holds_of_missing located missing

end Places

def scriptNode (hook : Hook) (block : Bool) : Node :=
  .file (Text.encode (hook.script block)) scriptMode

/-! The entries in the trees that the operations end in. -/

theorem held?_put_script (files : FileTree) (place : Place) (hook : Hook) (node : Node) :
    (files.put (scriptPlace place hook) node).held? (scriptPlace place hook) =
        some (.node node) ∧
      (files.put (scriptPlace place hook) node).held? (backupPlace place hook) =
        files.held? (backupPlace place hook) := by
  have apart := apart_entries place hook
  refine ⟨FileTree.held?_put_self files apart.ne_nil node, ?_⟩
  rw [FileTree.held?_put files apart.ne_nil, if_neg]
  intro same
  exact apart.1 (same ▸ List.prefix_rfl)

theorem held?_move_script (files : FileTree) (place : Place) (hook : Hook) :
    (files.move (scriptPlace place hook) (backupPlace place hook)).held?
        (backupPlace place hook) = files.held? (scriptPlace place hook) := by
  have moved := FileTree.held?_move_target files (apart_entries place hook) []
  rw [List.append_nil, List.append_nil] at moved
  exact moved

theorem held?_erase_script (files : FileTree) (place : Place) (hook : Hook) :
    (files.erase (scriptPlace place hook)).held? (scriptPlace place hook) = none ∧
      (files.erase (scriptPlace place hook)).held? (backupPlace place hook) =
        files.held? (backupPlace place hook) := by
  have apart := apart_entries place hook
  exact ⟨FileTree.held?_erase_self apart.ne_nil,
    FileTree.held?_erase_of_outside apart.ne_nil apart.1⟩

theorem held?_restore_inside (files : FileTree) (place : Place) (hook : Hook)
    (below : List String) :
    ((files.erase (scriptPlace place hook)).move (backupPlace place hook)
        (scriptPlace place hook)).held? (scriptPlace place hook ++ below) =
          files.held? (backupPlace place hook ++ below) ∧
      ((files.erase (scriptPlace place hook)).move (backupPlace place hook)
        (scriptPlace place hook)).held? (backupPlace place hook ++ below) = none := by
  have apart := apart_entries place hook
  have moved := FileTree.held?_move_target (files.erase (scriptPlace place hook)) apart.symm below
  exact ⟨moved.trans
      (FileTree.held?_erase_of_outside apart.ne_nil (apart.not_prefix_append below)),
    FileTree.held?_move_source (files.erase (scriptPlace place hook)) apart.symm below⟩

theorem held?_restore_script (files : FileTree) (place : Place) (hook : Hook) :
    ((files.erase (scriptPlace place hook)).move (backupPlace place hook)
        (scriptPlace place hook)).held? (scriptPlace place hook) =
          files.held? (backupPlace place hook) ∧
      ((files.erase (scriptPlace place hook)).move (backupPlace place hook)
        (scriptPlace place hook)).held? (backupPlace place hook) = none := by
  have entries := held?_restore_inside files place hook []
  rw [List.append_nil, List.append_nil] at entries
  exact entries

/-! ### Installing -/

section Installing

variable {files : FileTree} {directory : HookDirectory} {hook : Hook} {place : Place}

private def laying (directory : HookDirectory) (hook : Hook) (block : Bool) : FileAction Unit := do
  change (installFailed hook.fileName "Failed to write hook")
    (·.write (directory.scriptPath hook) (Text.encode (hook.script block)))
  change (installFailed hook.fileName "Failed to set permissions")
    (·.setMode (directory.scriptPath hook) scriptMode)

private theorem install_eq (directory : HookDirectory) (hook : Hook) (force block : Bool) :
    directory.install hook force block =
      isForeign (directory.scriptPath hook) >>= fun foreign =>
        if foreign then
          if force then
            change (installFailed hook.fileName "Failed to backup existing hook")
              (·.rename (directory.scriptPath hook) (directory.backupPath hook)) >>= fun _ =>
                laying directory hook block
          else throw (.hook (.alreadyExists hook.fileName))
        else laying directory hook block := by
  cases force <;> rfl

private theorem laying_ok {spot : Place}
    (located : files.locate (directory.scriptPath hook) = .ok spot)
    (noDirectory : files.node? spot ≠ some .directory) (block : Bool) :
    laying directory hook block files = .ok () (files.put spot (scriptNode hook block)) := by
  have closed : FileTree.Closed files spot := ⟨noDirectory, FileTree.link?_of_locate located⟩
  obtain ⟨mode, written⟩ :=
    FileTree.write_of_locate located noDirectory (Text.encode (hook.script block))
  have differ := FileTree.differAt_put closed (Text.encode (hook.script block)) mode
  have found := FileTree.find_eq_ok_iff.mpr
    ⟨(differ.locate located).1, FileTree.node?_put_self files closed.ne_nil _⟩
  unfold laying
  rw [FileAction.bind_ok (change_ok written), change_ok (FileTree.setMode_of_find found scriptMode),
    FileTree.put_put]
  rfl

private theorem laying_unlocated {fault : Fault}
    (unlocated : files.locate (directory.scriptPath hook) = .error fault) (block : Bool) :
    ∃ error, laying directory hook block files = .error error files := by
  have failed : files.write (directory.scriptPath hook) (Text.encode (hook.script block)) =
      .error fault := by
    unfold FileTree.write
    rw [unlocated]
  unfold laying
  rw [FileAction.bind_error (change_error failed)]
  exact ⟨_, rfl⟩

private theorem laying_cases (directory : HookDirectory) (hook : Hook) (block : Bool)
    (files : FileTree) :
    (∃ error, laying directory hook block files = .error error files) ∨
    ∃ spot, files.locate (directory.scriptPath hook) = .ok spot ∧
      files.node? spot ≠ some .directory ∧
      laying directory hook block files = .ok () (files.put spot (scriptNode hook block)) := by
  cases located : files.locate (directory.scriptPath hook) with
  | error fault => exact Or.inl (laying_unlocated located block)
  | ok spot =>
      by_cases present : files.node? spot = some .directory
      · have failed : files.write (directory.scriptPath hook)
            (Text.encode (hook.script block)) = .error .isADirectory := by
          unfold FileTree.write
          rw [located]
          simp only [present]
        left
        unfold laying
        rw [FileAction.bind_error (change_error failed)]
        exact ⟨_, rfl⟩
      · exact Or.inr ⟨spot, rfl, present, laying_ok located present block⟩

private theorem after_laying (directory : HookDirectory) (hook : Hook) (block : Bool)
    (files : FileTree) :
    (laying directory hook block).after files = files ∨
    ∃ spot, files.locate (directory.scriptPath hook) = .ok spot ∧
      files.node? spot ≠ some .directory ∧
      (laying directory hook block).after files = files.put spot (scriptNode hook block) := by
  rcases laying_cases directory hook block files with
    ⟨error, failed⟩ | ⟨spot, located, noDirectory, ran⟩
  · exact Or.inl (FileAction.after_of_error failed)
  · exact Or.inr ⟨spot, located, noDirectory, FileAction.after_of_ok ran⟩

theorem after_install_forced {moved : FileTree}
    (looked : isForeign (directory.scriptPath hook) files = .ok true files)
    (renamed : files.rename (directory.scriptPath hook) (directory.backupPath hook) = .ok moved)
    (block : Bool) :
    (directory.install hook true block).after files = moved ∨
    ∃ spot, moved.locate (directory.scriptPath hook) = .ok spot ∧
      moved.node? spot ≠ some .directory ∧
      (directory.install hook true block).after files = moved.put spot (scriptNode hook block) := by
  rw [install_eq, FileAction.after_bind looked]
  simp only [if_true]
  rw [FileAction.after_bind (change_ok renamed)]
  exact after_laying directory hook block moved

theorem after_install (directory : HookDirectory) (hook : Hook) (force block : Bool)
    (files : FileTree) :
    (directory.install hook force block).after files = files ∨
    (isForeign (directory.scriptPath hook) files = .ok false files ∧
      ∃ spot, files.locate (directory.scriptPath hook) = .ok spot ∧
        files.node? spot ≠ some .directory ∧
        (directory.install hook force block).after files =
          files.put spot (scriptNode hook block)) ∨
    (force = true ∧ isForeign (directory.scriptPath hook) files = .ok true files ∧
      ∃ moved, files.rename (directory.scriptPath hook) (directory.backupPath hook) = .ok moved ∧
        ((directory.install hook force block).after files = moved ∨
          ∃ spot, moved.locate (directory.scriptPath hook) = .ok spot ∧
            moved.node? spot ≠ some .directory ∧
            (directory.install hook force block).after files =
              moved.put spot (scriptNode hook block))) := by
  rw [install_eq]
  rcases isForeign_cases (directory.scriptPath hook) files with ⟨error, failed⟩ | ⟨foreign, looked⟩
  · exact Or.inl (FileAction.after_of_error (FileAction.bind_error failed))
  · rw [FileAction.after_bind looked]
    cases foreign with
    | false =>
        rcases after_laying directory hook block files with same | laid
        · exact Or.inl same
        · exact Or.inr (Or.inl ⟨looked, laid⟩)
    | true =>
        cases force with
        | false => exact Or.inl rfl
        | true =>
            cases renamed :
                files.rename (directory.scriptPath hook) (directory.backupPath hook) with
            | error fault =>
                left
                simp only [if_true]
                rw [FileAction.after_of_error (FileAction.bind_error (change_error renamed))]
            | ok moved =>
                have laid := after_install_forced looked renamed block
                rw [install_eq, FileAction.after_bind looked] at laid
                exact Or.inr (Or.inr ⟨rfl, looked, moved, rfl, laid⟩)

theorem install_of_not_foreign {spot : Place} (force : Bool)
    (located : files.locate (directory.scriptPath hook) = .ok spot)
    (free : files.node? spot = none ∨ Scripted (files.node? spot) true) (block : Bool) :
    directory.install hook force block files = .ok () (files.put spot (scriptNode hook block)) := by
  have looked : isForeign (directory.scriptPath hook) files = .ok false files := by
    rcases free with missing | own
    · exact isForeign_of_not_holds (holds_of_missing located missing)
    · exact isForeign_of_scripted located own
  have closed : files.node? spot ≠ some .directory := by
    rcases free with missing | own
    · rw [missing]
      intro impossible
      cases impossible
    · exact own.not_directory
  rw [install_eq, FileAction.bind_ok looked]
  exact laying_ok located closed block

theorem install_of_unlocated {fault : Fault} (force : Bool)
    (unlocated : files.locate (directory.scriptPath hook) = .error fault) (block : Bool) :
    ∃ error, directory.install hook force block files = .error error files := by
  rw [install_eq, FileAction.bind_ok (isForeign_of_not_holds (holds_of_unlocated unlocated))]
  exact laying_unlocated unlocated block

theorem install_of_unreadable {spot : Place} (force : Bool)
    (located : files.locate (directory.scriptPath hook) = .ok spot)
    (unreadable : Unreadable (files.node? spot)) (block : Bool) :
    ∃ error, directory.install hook force block files = .error error files := by
  obtain ⟨error, failed⟩ := isForeign_of_unreadable located unreadable
  rw [install_eq, FileAction.bind_error failed]
  exact ⟨error, rfl⟩

theorem install_of_foreign {spot : Place}
    (located : files.locate (directory.scriptPath hook) = .ok spot)
    (foreign : Scripted (files.node? spot) false) (block : Bool) :
    directory.install hook false block files =
      .error (.hook (.alreadyExists hook.fileName)) files := by
  rw [install_eq, FileAction.bind_ok (isForeign_of_scripted located foreign)]
  rfl

theorem install_forced (there : files.find directory.path = .ok (place, .directory))
    (unlinked : Unlinked files place hook)
    (located : files.locate (directory.scriptPath hook) = .ok (scriptPlace place hook))
    (foreign : Scripted (files.node? (scriptPlace place hook)) false)
    (backup : files.locateEntry (directory.backupPath hook) = .ok (backupPlace place hook))
    (closed : files.node? (backupPlace place hook) ≠ some .directory) (block : Bool) :
    directory.install hook true block files =
      .ok () ((files.move (scriptPlace place hook) (backupPlace place hook)).put
        (scriptPlace place hook) (scriptNode hook block)) := by
  obtain ⟨content, mode, present⟩ := foreign.exists_file
  have renamed := FileTree.rename_of_closed (locateEntry_script there located)
    (FileTree.node?_eq_some_iff.mp present) rfl backup closed
  have differ := FileTree.differAt_move (apart_entries place hook)
    (FileTree.closed_of_file present) ⟨closed, unlinked.backup⟩
  rw [install_eq, FileAction.bind_ok (isForeign_of_scripted located foreign)]
  simp only [Bool.not_false, if_true]
  rw [FileAction.bind_ok (change_ok renamed)]
  exact laying_ok (differ.locate located).1 (differ.closedAfter _ List.mem_cons_self).noDirectory
    block

theorem install_forced_stuck {spot : Place} {fault : Fault}
    (located : files.locate (directory.scriptPath hook) = .ok spot)
    (foreign : Scripted (files.node? spot) false)
    (stuck : files.rename (directory.scriptPath hook) (directory.backupPath hook) = .error fault)
    (block : Bool) :
    ∃ error, directory.install hook true block files = .error error files := by
  rw [install_eq, FileAction.bind_ok (isForeign_of_scripted located foreign)]
  simp only [Bool.not_false, if_true]
  rw [FileAction.bind_error (change_error stuck)]
  exact ⟨_, rfl⟩

/-- The other script has a new path already when the script of the hook turns out to have none. -/
theorem install_forced_lost {spot : Place} {fault : Fault} {moved : FileTree}
    (located : files.locate (directory.scriptPath hook) = .ok spot)
    (foreign : Scripted (files.node? spot) false)
    (renamed : files.rename (directory.scriptPath hook) (directory.backupPath hook) = .ok moved)
    (lost : moved.locate (directory.scriptPath hook) = .error fault) (block : Bool) :
    ∃ error, directory.install hook true block files = .error error moved := by
  rw [install_eq, FileAction.bind_ok (isForeign_of_scripted located foreign)]
  simp only [Bool.not_false, if_true]
  rw [FileAction.bind_ok (change_ok renamed)]
  exact laying_unlocated lost block

/-- All that an installation can do. -/
theorem install_cases (there : files.find directory.path = .ok (place, .directory))
    (unlinked : Unlinked files place hook) (force block : Bool) :
    (∃ error, directory.install hook force block files = .error error files) ∨
    ((files.node? (scriptPlace place hook) = none ∨
        Scripted (files.node? (scriptPlace place hook)) true) ∧
      files.locate (directory.scriptPath hook) = .ok (scriptPlace place hook) ∧
      directory.install hook force block files =
        .ok () (files.put (scriptPlace place hook) (scriptNode hook block))) ∨
    (force = true ∧ Scripted (files.node? (scriptPlace place hook)) false ∧
      files.locate (directory.scriptPath hook) = .ok (scriptPlace place hook) ∧
      files.locateEntry (directory.backupPath hook) = .ok (backupPlace place hook) ∧
      files.node? (backupPlace place hook) ≠ some .directory ∧
      directory.install hook force block files =
        .ok () ((files.move (scriptPlace place hook) (backupPlace place hook)).put
          (scriptPlace place hook) (scriptNode hook block))) := by
  cases located : files.locate (directory.scriptPath hook) with
  | error fault => exact Or.inl (install_of_unlocated force located block)
  | ok spot =>
      obtain rfl := eq_scriptPlace there unlinked located
      rcases entry_cases (files.node? (scriptPlace place hook)) with
        missing | unreadable | own | foreign
      · exact Or.inr (Or.inl ⟨Or.inl missing, rfl,
          install_of_not_foreign force located (Or.inl missing) block⟩)
      · exact Or.inl (install_of_unreadable force located unreadable block)
      · exact Or.inr (Or.inl ⟨Or.inr own, rfl,
          install_of_not_foreign force located (Or.inr own) block⟩)
      · cases force with
        | false => exact Or.inl ⟨_, install_of_foreign located foreign block⟩
        | true =>
            cases renamed :
                files.rename (directory.scriptPath hook) (directory.backupPath hook) with
            | error fault => exact Or.inl (install_forced_stuck located foreign renamed block)
            | ok changed =>
                obtain ⟨start, goal, entry, startAt, goalAt, present, closed, -⟩ :=
                  FileTree.rename_inv renamed
                rw [locateEntry_script there located] at startAt
                cases startAt
                obtain rfl := FileTree.place_of_locateEntry_child there (backupName hook) goalAt
                obtain ⟨content, mode, isFile⟩ := foreign.exists_file
                rw [FileTree.node?_eq_some_iff.mp isFile] at present
                cases present
                have free := closed rfl
                exact Or.inr (Or.inr ⟨rfl, foreign, rfl, goalAt, free,
                  install_forced there unlinked located foreign goalAt free block⟩)

private theorem find_of_laying {between changed : FileTree} {block : Bool}
    (ran : laying directory hook block between = .ok () changed) :
    ∃ spot, changed.find (directory.scriptPath hook) = .ok (spot, scriptNode hook block) := by
  rcases laying_cases directory hook block between with
    ⟨error, failed⟩ | ⟨spot, located, noDirectory, laid⟩
  · rw [failed] at ran
    cases ran
  · rw [laid] at ran
    cases ran
    have closed : FileTree.Closed between spot :=
      ⟨noDirectory, FileTree.link?_of_locate located⟩
    have differ := FileTree.differAt_put closed (Text.encode (hook.script block)) scriptMode
    exact ⟨spot, FileTree.find_eq_ok_iff.mpr
      ⟨(differ.locate located).1, FileTree.node?_put_self between closed.ne_nil _⟩⟩

theorem find_of_install {changed : FileTree} {force block : Bool}
    (ran : directory.install hook force block files = .ok () changed) :
    ∃ spot, changed.find (directory.scriptPath hook) = .ok (spot, scriptNode hook block) := by
  rw [install_eq] at ran
  obtain ⟨foreign, between, -, ran⟩ := FileAction.exists_of_bind_ok ran
  cases foreign with
  | false => exact find_of_laying ran
  | true =>
      cases force with
      | false => cases ran
      | true =>
          simp only [if_true] at ran
          obtain ⟨_, moved, -, ran⟩ := FileAction.exists_of_bind_ok ran
          exact find_of_laying ran

end Installing

/-! ### Uninstalling -/

section Uninstalling

variable {files : FileTree} {directory : HookDirectory} {hook : Hook} {place : Place}

private def restoring (directory : HookDirectory) (hook : Hook) (name : String) :
    FileAction Unit := do
  if (← get).holds (directory.backupPath hook) then
    change (removeFailed name "Failed to restore backup")
      (·.rename (directory.backupPath hook) (directory.scriptPath hook))

private theorem uninstall_of_holds (held : files.holds (directory.scriptPath hook) = true)
    (name : String) :
    directory.uninstall hook name files =
      (readsOwn (directory.scriptPath hook) >>= fun own =>
        if own then
          change (removeFailed name "Failed to remove hook")
            (·.removeFile (directory.scriptPath hook)) >>= fun _ =>
              restoring directory hook name
        else throw (.hook (.removeFailed name "Hook was not installed by cmc"))) files := by
  change (if files.holds (directory.scriptPath hook) then _ else _ : FileAction Unit) files = _
  rw [held, if_pos rfl]
  change EStateM.bind _ _ files = EStateM.bind _ _ files
  unfold EStateM.bind
  cases readsOwn (directory.scriptPath hook) files with
  | error error changed => rfl
  | ok own changed => cases own <;> rfl

theorem uninstall_of_not_holds (empty : files.holds (directory.scriptPath hook) = false)
    (name : String) : directory.uninstall hook name files = .ok () files := by
  change (if files.holds (directory.scriptPath hook) then _ else _ : FileAction Unit) files = _
  rw [empty]
  rfl

theorem uninstall_of_unreadable {spot : Place}
    (located : files.locate (directory.scriptPath hook) = .ok spot)
    (unreadable : Unreadable (files.node? spot)) (name : String) :
    ∃ error, directory.uninstall hook name files = .error error files := by
  obtain ⟨node, present⟩ := unreadable.exists_node
  obtain ⟨error, failed⟩ := readsOwn_of_unreadable located unreadable
  rw [uninstall_of_holds (holds_of_present located present), FileAction.bind_error failed]
  exact ⟨error, rfl⟩

theorem uninstall_of_foreign {spot : Place}
    (located : files.locate (directory.scriptPath hook) = .ok spot)
    (foreign : Scripted (files.node? spot) false) (name : String) :
    directory.uninstall hook name files =
      .error (.hook (.removeFailed name "Hook was not installed by cmc")) files := by
  obtain ⟨content, mode, present⟩ := foreign.exists_file
  rw [uninstall_of_holds (holds_of_present located present),
    FileAction.bind_ok (readsOwn_of_scripted located foreign)]
  rfl

private theorem uninstall_of_own
    (there : files.find directory.path = .ok (place, .directory))
    (located : files.locate (directory.scriptPath hook) = .ok (scriptPlace place hook))
    (own : Scripted (files.node? (scriptPlace place hook)) true) (name : String) :
    directory.uninstall hook name files =
      restoring directory hook name (files.erase (scriptPlace place hook)) := by
  obtain ⟨content, mode, present⟩ := own.exists_file
  have removed := FileTree.removeFile_of_closed (locateEntry_script there located)
    (FileTree.node?_eq_some_iff.mp present) rfl
  rw [uninstall_of_holds (holds_of_present located present),
    FileAction.bind_ok (readsOwn_of_scripted located own)]
  simp only [if_true]
  rw [FileAction.bind_ok (change_ok removed)]

private theorem restoring_of_holds (held : files.holds (directory.backupPath hook) = true)
    (name : String) :
    restoring directory hook name files =
      change (removeFailed name "Failed to restore backup")
        (·.rename (directory.backupPath hook) (directory.scriptPath hook)) files := by
  change (if files.holds (directory.backupPath hook) then _ else _ : FileAction Unit) files = _
  rw [held, if_pos rfl]

private theorem restoring_of_not_holds (empty : files.holds (directory.backupPath hook) = false)
    (name : String) : restoring directory hook name files = .ok () files := by
  change (if files.holds (directory.backupPath hook) then _ else _ : FileAction Unit) files = _
  rw [empty]
  rfl

theorem after_uninstall (directory : HookDirectory) (hook : Hook) (name : String)
    (files : FileTree) :
    (directory.uninstall hook name).after files = files ∨
    ∃ removed, readsOwn (directory.scriptPath hook) files = .ok true files ∧
      files.removeFile (directory.scriptPath hook) = .ok removed ∧
      ((directory.uninstall hook name).after files = removed ∨
        removed.rename (directory.backupPath hook) (directory.scriptPath hook) =
          .ok ((directory.uninstall hook name).after files)) := by
  cases held : files.holds (directory.scriptPath hook) with
  | false => exact Or.inl (FileAction.after_of_ok (uninstall_of_not_holds held name))
  | true =>
      unfold FileAction.after
      rw [uninstall_of_holds held]
      rcases readsOwn_cases (directory.scriptPath hook) files with ⟨error, failed⟩ | ⟨script, -, ran⟩
      · rw [FileAction.bind_error failed]
        exact Or.inl rfl
      · rw [FileAction.bind_ok ran, ran]
        cases Hook.isOwn script with
        | false => exact Or.inl rfl
        | true =>
            simp only [if_true]
            cases taken : files.removeFile (directory.scriptPath hook) with
            | error fault =>
                rw [FileAction.bind_error (change_error taken)]
                exact Or.inl rfl
            | ok removed =>
                refine Or.inr ⟨removed, trivial, rfl, ?_⟩
                rw [FileAction.bind_ok (change_ok taken)]
                cases backup : removed.holds (directory.backupPath hook) with
                | false =>
                    rw [restoring_of_not_holds backup]
                    exact Or.inl rfl
                | true =>
                    rw [restoring_of_holds backup]
                    cases renamed :
                        removed.rename (directory.backupPath hook) (directory.scriptPath hook) with
                    | error fault =>
                        rw [change_error renamed]
                        exact Or.inl rfl
                    | ok changed =>
                        rw [change_ok renamed]
                        exact Or.inr rfl

theorem uninstall_bare (there : files.find directory.path = .ok (place, .directory))
    (located : files.locate (directory.scriptPath hook) = .ok (scriptPlace place hook))
    (own : Scripted (files.node? (scriptPlace place hook)) true)
    (bare : files.holds (directory.backupPath hook) = false) (name : String) :
    directory.uninstall hook name files = .ok () (files.erase (scriptPlace place hook)) := by
  obtain ⟨content, mode, isFile⟩ := own.exists_file
  have closed := FileTree.closed_of_file isFile
  have differ := FileTree.differAt_erase closed
  have still : (files.erase (scriptPlace place hook)).holds (directory.backupPath hook) =
      false := by
    cases found : (files.erase (scriptPlace place hook)).find (directory.backupPath hook) with
    | error fault =>
        unfold FileTree.holds
        rw [found]
        rfl
    | ok entry =>
        obtain ⟨goal, node⟩ := entry
        obtain ⟨reached, present⟩ := FileTree.find_eq_ok_iff.mp found
        have off : goal ∉ [scriptPlace place hook] := by
          intro member
          obtain rfl := List.mem_singleton.mp member
          rw [FileTree.node?_eq_some_iff, FileTree.held?_erase_self closed.ne_nil] at present
          cases present
        obtain ⟨reached', present'⟩ := FileTree.find_eq_ok_iff.mp ((differ.find_iff off).mp found)
        rw [holds_of_present reached' present'] at bare
        cases bare
  rw [uninstall_of_own there located own, restoring_of_not_holds still]

theorem uninstall_restoring {node : Node}
    (there : files.find directory.path = .ok (place, .directory))
    (located : files.locate (directory.scriptPath hook) = .ok (scriptPlace place hook))
    (own : Scripted (files.node? (scriptPlace place hook)) true)
    (backup : files.locate (directory.backupPath hook) = .ok (backupPlace place hook))
    (present : files.node? (backupPlace place hook) = some node) (name : String) :
    directory.uninstall hook name files =
      .ok () ((files.erase (scriptPlace place hook)).move
        (backupPlace place hook) (scriptPlace place hook)) := by
  obtain ⟨content, mode, isFile⟩ := own.exists_file
  have entries := held?_erase_script files place hook
  have differ := FileTree.differAt_erase (FileTree.closed_of_file isFile)
  have present' := (FileTree.node?_congr entries.2).trans present
  have backup' := (differ.locate backup).1
  have renamed := FileTree.rename_of_free (differ.locateEntry (locateEntry_backup there backup))
    (FileTree.node?_eq_some_iff.mp present')
    (differ.locateEntry (locateEntry_script there located)) entries.1
  rw [uninstall_of_own there located own, restoring_of_holds (holds_of_present backup' present'),
    change_ok renamed]

/-- All that an uninstallation can do. -/
theorem uninstall_cases (there : files.find directory.path = .ok (place, .directory))
    (unlinked : Unlinked files place hook) (name : String) :
    (∃ error, directory.uninstall hook name files = .error error files) ∨
    directory.uninstall hook name files = .ok () files ∨
    (Scripted (files.node? (scriptPlace place hook)) true ∧
      directory.uninstall hook name files = .ok () (files.erase (scriptPlace place hook))) ∨
    (Scripted (files.node? (scriptPlace place hook)) true ∧
      directory.uninstall hook name files =
        .ok () ((files.erase (scriptPlace place hook)).move
          (backupPlace place hook) (scriptPlace place hook))) := by
  cases located : files.locate (directory.scriptPath hook) with
  | error fault =>
      exact Or.inr (Or.inl (uninstall_of_not_holds (holds_of_unlocated located) name))
  | ok spot =>
      obtain rfl := eq_scriptPlace there unlinked located
      rcases entry_cases (files.node? (scriptPlace place hook)) with
        missing | unreadable | own | foreign
      · exact Or.inr (Or.inl (uninstall_of_not_holds (holds_of_missing located missing) name))
      · exact Or.inl (uninstall_of_unreadable located unreadable name)
      · right
        right
        cases held : files.holds (directory.backupPath hook) with
        | false => exact Or.inl ⟨own, uninstall_bare there located own held name⟩
        | true =>
            cases backup : files.locate (directory.backupPath hook) with
            | error fault =>
                rw [holds_of_unlocated backup] at held
                cases held
            | ok goal =>
                obtain rfl := eq_backupPlace there unlinked backup
                cases present : files.node? (backupPlace place hook) with
                | none =>
                    rw [holds_of_missing backup present] at held
                    cases held
                | some node =>
                    exact Or.inr
                      ⟨own, uninstall_restoring there located own backup present name⟩
      · exact Or.inl ⟨_, uninstall_of_foreign located foreign name⟩

end Uninstalling

end HookDirectory

end CommitCheck
