import CommitCheck.Proofs.HookDirectory

set_option autoImplicit false

/-! Requests to a hooks directory, and which scripts of others survive one. A script that this
program did not install is kept by every request except an installation by force that finds
another such script in the place of the hook and this one in the place of its backup. -/

namespace CommitCheck

namespace HookDirectory

inductive Request where
  | install (name : String) (force block : Bool)
  | installAll (force block : Bool)
  | uninstall (name : String)
  | uninstallAll
  | status
deriving DecidableEq, Repr

def perform (directory : HookDirectory) : Request → FileAction Unit
  | .install name force block => directory.installNamed name force block
  | .installAll force block => directory.installAll force block
  | .uninstall name => directory.uninstallNamed name
  | .uninstallAll => directory.uninstallAll
  | .status => discard (directory.status <$> get)

def after (directory : HookDirectory) (files : FileTree) (request : Request) : FileTree :=
  (directory.perform request).after files

def Request.forces : Request → Bool
  | .install name force _ => (Hook.ofName? name).isSome && force
  | .installAll force _ => force
  | _ => false

def Request.installs : Request → Bool
  | .install _ _ _ | .installAll _ _ => true
  | _ => false

theorem Request.forces_eq_false {request : Request} (other : request.installs = false) :
    request.forces = false := by
  cases request with
  | install | installAll => cases other
  | uninstall | uninstallAll | status => rfl

private theorem then_pure (action : FileAction Unit) (files : FileTree) :
    (action >>= fun _ => pure ()) files = action files := by
  cases ran : action files with
  | ok found changed => exact FileAction.bind_ok ran
  | error error changed => exact FileAction.bind_error ran

private theorem after_then_pure (action : FileAction Unit) (files : FileTree) :
    (action >>= fun _ => pure ()).after files = action.after files := by
  unfold FileAction.after
  rw [then_pure]

theorem installAll_eq (directory : HookDirectory) (force block : Bool) (files : FileTree) :
    directory.installAll force block files =
      directory.install .commitMessage force block files :=
  then_pure _ files

theorem uninstallAll_eq (directory : HookDirectory) (files : FileTree) :
    directory.uninstallAll files =
      directory.uninstall .commitMessage Hook.commitMessage.fileName files :=
  then_pure _ files

theorem perform_cases (directory : HookDirectory) (files : FileTree) (request : Request) :
    (request.forces = false ∧ ∃ error, directory.perform request files = .error error files) ∨
    (request.installs = false ∧ directory.perform request files = .ok () files) ∨
    (request.installs = true ∧ ∃ block, directory.perform request files =
      directory.install .commitMessage request.forces block files) ∨
    (request.installs = false ∧ ∃ name, directory.perform request files =
      directory.uninstall .commitMessage name files) := by
  cases request with
  | install name force block =>
      change (((Hook.ofName? name).isSome && force) = false ∧
          ∃ error, (named name >>= fun hook => directory.install hook force block) files =
            .error error files) ∨ _ ∨
        (_ ∧ ∃ block', (named name >>= fun hook => directory.install hook force block) files =
          directory.install .commitMessage ((Hook.ofName? name).isSome && force) block' files) ∨ _
      unfold named
      cases found : Hook.ofName? name with
      | none => exact Or.inl ⟨rfl, _, rfl⟩
      | some hook =>
          cases hook
          exact Or.inr (Or.inr (Or.inl ⟨rfl, block, rfl⟩))
  | installAll force block =>
      exact Or.inr (Or.inr (Or.inl ⟨rfl, block, installAll_eq directory force block files⟩))
  | uninstall name =>
      change (_ ∧ ∃ error, (named name >>= fun hook => directory.uninstall hook name) files =
          .error error files) ∨ _ ∨ _ ∨
        (_ ∧ ∃ name', (named name >>= fun hook => directory.uninstall hook name) files =
          directory.uninstall .commitMessage name' files)
      unfold named
      cases found : Hook.ofName? name with
      | none => exact Or.inl ⟨rfl, _, rfl⟩
      | some hook =>
          cases hook
          exact Or.inr (Or.inr (Or.inr ⟨rfl, name, rfl⟩))
  | uninstallAll => exact Or.inr (Or.inr (Or.inr ⟨rfl, _, uninstallAll_eq directory files⟩))
  | status => exact Or.inr (Or.inl ⟨rfl, rfl⟩)

theorem after_cases (directory : HookDirectory) (files : FileTree) (request : Request) :
    (directory.after files request = files ∧ request.forces = false) ∨
    (∃ block, directory.after files request =
      (directory.install .commitMessage request.forces block).after files) ∨
    (request.forces = false ∧ ∃ name, directory.after files request =
      (directory.uninstall .commitMessage name).after files) := by
  unfold HookDirectory.after
  rcases perform_cases directory files request with
    ⟨mild, error, failed⟩ | ⟨other, idle⟩ | ⟨-, block, ran⟩ | ⟨other, name, ran⟩
  · exact Or.inl ⟨FileAction.after_of_error failed, mild⟩
  · exact Or.inl ⟨FileAction.after_of_ok idle, Request.forces_eq_false other⟩
  · refine Or.inr (Or.inl ⟨block, ?_⟩)
    unfold FileAction.after
    rw [ran]
  · refine Or.inr (Or.inr ⟨Request.forces_eq_false other, name, ?_⟩)
    unfold FileAction.after
    rw [ran]

/-! ### Scripts of others -/

/-- The content is not a script with the marker of this program. -/
def Foreign (content : List UInt8) : Prop :=
  ∀ script, Text.decode? content = some script → Hook.isOwn script = false

/-- One of the two entries of the hook is a file with the content. -/
def Keeps (files : FileTree) (place : Place) (content : List UInt8) : Prop :=
  ∃ mode, files.node? (scriptPlace place .commitMessage) = some (.file content mode) ∨
    files.node? (backupPlace place .commitMessage) = some (.file content mode)

/-- The request puts what leads to a script of someone else, and is no file with the content, in the
place of a backup with the content. -/
def Overwrites (directory : HookDirectory) (files : FileTree) (request : Request)
    (content : List UInt8) : Prop :=
  request.forces = true ∧
    files.read (directory.backupPath .commitMessage) = .ok content ∧
    (∃ script, files.readText (directory.scriptPath .commitMessage) = .ok script ∧
      Hook.isOwn script = false) ∧
    ¬∃ place mode, files.locateEntry (directory.scriptPath .commitMessage) = .ok place ∧
      files.node? place = some (.file content mode)

theorem isOwn_script (hook : Hook) (block : Bool) : Hook.isOwn (hook.script block) = true := by
  cases hook
  cases block <;> decide +kernel

theorem scripted_scriptNode (hook : Hook) (block : Bool) :
    Scripted (some (scriptNode hook block)) true :=
  ⟨_, _, _, rfl, Text.decode?_encode (hook.script block), isOwn_script hook block⟩

theorem foreign_encode {script : String} (unmarked : Hook.isOwn script = false) :
    Foreign (Text.encode script) := by
  intro other decoded
  rw [Text.decode?_encode] at decoded
  cases decoded
  exact unmarked

theorem Foreign.ne_script {content : List UInt8} (foreign : Foreign content) (hook : Hook)
    (block : Bool) : content ≠ Text.encode (hook.script block) := by
  intro same
  subst same
  have marked := foreign _ (Text.decode?_encode (hook.script block))
  rw [isOwn_script] at marked
  cases marked

theorem Foreign.unreadable_or_scripted {content : List UInt8} (foreign : Foreign content)
    (mode : Nat) : Unreadable (some (.file content mode)) ∨
      Scripted (some (.file content mode)) false := by
  cases decoded : Text.decode? content with
  | none => exact Or.inl (Or.inr ⟨content, mode, rfl, decoded⟩)
  | some script => exact Or.inr ⟨content, mode, script, rfl, decoded, foreign script decoded⟩

theorem keeps_iff {files : FileTree} {place : Place} {content : List UInt8} :
    Keeps files place content ↔
      files.content? (scriptPlace place .commitMessage) = some content ∨
        files.content? (backupPlace place .commitMessage) = some content := by
  unfold Keeps
  rw [FileTree.content?_eq_some_iff, FileTree.content?_eq_some_iff, exists_or]

section

variable {files : FileTree} {path : Path} {spot : Place} {content : List UInt8}

theorem Foreign.not_looked (foreign : Foreign content) (located : files.locate path = .ok spot)
    (looked : isForeign path files = .ok false files) : files.content? spot ≠ some content := by
  intro held
  obtain ⟨mode, present⟩ := FileTree.content?_eq_some_iff.mp held
  rcases foreign.unreadable_or_scripted mode with unreadable | scripted
  · obtain ⟨error, failed⟩ := isForeign_of_unreadable located (present ▸ unreadable)
    rw [failed] at looked
    cases looked
  · rw [isForeign_of_scripted located (present ▸ scripted)] at looked
    cases looked

theorem Foreign.not_own (foreign : Foreign content) (located : files.locate path = .ok spot)
    (own : readsOwn path files = .ok true files) : files.content? spot ≠ some content := by
  intro held
  obtain ⟨mode, present⟩ := FileTree.content?_eq_some_iff.mp held
  rcases foreign.unreadable_or_scripted mode with unreadable | scripted
  · obtain ⟨error, failed⟩ := readsOwn_of_unreadable located (present ▸ unreadable)
    rw [failed] at own
    cases own
  · rw [readsOwn_of_scripted located (present ▸ scripted)] at own
    cases own

theorem unlinked_of_content (held : files.content? spot = some content) :
    files.link? spot = none := by
  obtain ⟨mode, present⟩ := FileTree.content?_eq_some_iff.mp held
  exact FileTree.link?_of_node? present

end

section

variable {files : FileTree} {directory : HookDirectory} {place : Place} {content : List UInt8}

private theorem rename_script_eq (there : files.find directory.path = .ok (place, .directory))
    {moved : FileTree}
    (renamed : files.rename (directory.scriptPath .commitMessage)
      (directory.backupPath .commitMessage) = .ok moved) :
    files.locateEntry (directory.scriptPath .commitMessage) =
        .ok (scriptPlace place .commitMessage) ∧
      files.locateEntry (directory.backupPath .commitMessage) =
        .ok (backupPlace place .commitMessage) ∧
      moved = files.move (scriptPlace place .commitMessage) (backupPlace place .commitMessage) := by
  obtain ⟨start, goal, entry, startAt, goalAt, -, -, same⟩ := FileTree.rename_inv renamed
  obtain rfl := FileTree.place_of_locateEntry_child there (scriptName .commitMessage) startAt
  obtain rfl := FileTree.place_of_locateEntry_child there (backupName .commitMessage) goalAt
  exact ⟨startAt, goalAt, same⟩

private theorem eq_script_of_moved (there : files.find directory.path = .ok (place, .directory))
    (held : files.content? (scriptPlace place .commitMessage) = some content) {spot : Place}
    (located : (files.move (scriptPlace place .commitMessage)
      (backupPlace place .commitMessage)).locate (directory.scriptPath .commitMessage) =
        .ok spot) : spot = scriptPlace place .commitMessage := by
  have apart := apart_entries place .commitMessage
  have gone := FileTree.held?_move_source files apart []
  rw [List.append_nil] at gone
  have carried := FileTree.content?_congr (held?_move_script files place .commitMessage)
  obtain ⟨mode, present⟩ := FileTree.content?_eq_some_iff.mp (carried.trans held)
  have closed : ∀ spot ∈ [scriptPlace place .commitMessage, backupPlace place .commitMessage],
      FileTree.Closed (files.move (scriptPlace place .commitMessage)
        (backupPlace place .commitMessage)) spot := by
    intro spot member
    rcases List.mem_cons.mp member with rfl | other
    · exact FileTree.closed_of_none gone
    · rw [List.mem_singleton.mp other]
      exact FileTree.closed_of_file present
  have agree : FileTree.AgreeOff [scriptPlace place .commitMessage,
      backupPlace place .commitMessage] (files.move (scriptPlace place .commitMessage)
        (backupPlace place .commitMessage)) files := by
    intro other outside
    exact (FileTree.held?_move_of_outside files apart (outside _ List.mem_cons_self)
      (outside _ (List.mem_cons_of_mem _ List.mem_cons_self))).symm
  obtain ⟨other, there'⟩ := FileTree.exists_directory_of_locate_child located
  have directory' := (FileTree.find_eq_ok_iff.mp there').2
  have still := FileTree.find_of_agreeOff agree closed
    (fun member => (closed other member).noDirectory directory') there'
  rw [there] at still
  cases still
  exact FileTree.place_of_locate_child there' (scriptName .commitMessage)
    (FileTree.closed_of_none gone).unlinked located

private theorem content?_put_script {spot other : Place} (between : FileTree) (below : spot ≠ [])
    (block : Bool) :
    (between.put spot (scriptNode .commitMessage block)).content? other =
      if other = spot then some (Text.encode (Hook.commitMessage.script block))
      else between.content? other :=
  FileTree.content?_put between below _ scriptMode other

private theorem keeps_of_install (there : files.find directory.path = .ok (place, .directory))
    (foreign : Foreign content) (kept : Keeps files place content) {request : Request}
    (spared : ¬Overwrites directory files request content) (block : Bool) :
    Keeps ((directory.install .commitMessage request.forces block).after files) place content := by
  rcases after_install directory .commitMessage request.forces block files with
    same | ⟨looked, spot, located, noDirectory, laid⟩ | ⟨forced, looked, moved, renamed, left⟩
  · rw [same]
    exact kept
  · -- The script is written where no content of someone else is.
    have stays {other : Place} (held : files.content? other = some content) :
        (files.put spot (scriptNode .commitMessage block)).content? other = some content := by
      rw [content?_put_script _ (FileTree.ne_nil_of_noDirectory noDirectory), if_neg, held]
      intro same
      exact foreign.not_looked located looked (same ▸ held)
    rw [laid]
    exact keeps_iff.mpr ((keeps_iff.mp kept).imp stays stays)
  · obtain ⟨scriptAt, backupAt, rfl⟩ := rename_script_eq there renamed
    by_cases held : files.content? (scriptPlace place .commitMessage) = some content
    · have carried :=
        (FileTree.content?_congr (held?_move_script files place .commitMessage)).trans held
      rcases left with bare | ⟨spot, located, noDirectory, laid⟩
      · rw [bare]
        exact keeps_iff.mpr (Or.inr carried)
      · obtain rfl := eq_script_of_moved there held located
        rw [laid]
        refine keeps_iff.mpr (Or.inr ?_)
        rw [content?_put_script _ (FileTree.ne_nil_of_noDirectory noDirectory), if_neg, carried]
        exact fun same => (apart_entries place .commitMessage).1 (same ▸ List.prefix_rfl)
    · -- The content is in the backup, which goes.
      exfalso
      apply spared
      have atBackup := (keeps_iff.mp kept).resolve_left held
      obtain ⟨mode, present⟩ := FileTree.content?_eq_some_iff.mp atBackup
      have faultless := (FileTree.locateEntry_eq_ok_iff.mp backupAt).1
      have located := FileTree.locate_child there (backupName .commitMessage)
        (unlinked_of_content atBackup) faultless
      refine ⟨forced, FileTree.read_eq_ok_iff.mpr
        ⟨_, mode, FileTree.find_eq_ok_iff.mpr ⟨located, present⟩⟩,
        readText_of_isForeign looked, ?_⟩
      intro same
      obtain ⟨spot, mode', spotAt, present'⟩ := same
      rw [scriptAt] at spotAt
      cases spotAt
      exact held (FileTree.content?_eq_some_iff.mpr ⟨mode', present'⟩)

private theorem find_of_erased (there : files.find directory.path = .ok (place, .directory))
    {name : String} {spot : Place}
    (located : (files.erase (scriptPlace place .commitMessage)).locateEntry
      (directory.path.child name) = .ok spot) :
    (files.erase (scriptPlace place .commitMessage)).find directory.path =
      .ok (place, .directory) := by
  have below := (apart_entries place .commitMessage).ne_nil
  have closed : ∀ spot ∈ [scriptPlace place .commitMessage],
      FileTree.Closed (files.erase (scriptPlace place .commitMessage)) spot := by
    intro spot member
    rw [List.mem_singleton.mp member]
    exact FileTree.closed_of_none (FileTree.held?_erase_self below)
  have agree : FileTree.AgreeOff [scriptPlace place .commitMessage]
      (files.erase (scriptPlace place .commitMessage)) files :=
    fun _other outside =>
      (FileTree.held?_erase_of_outside below (outside _ List.mem_cons_self)).symm
  obtain ⟨other, there'⟩ := FileTree.exists_directory_of_locateEntry_child located
  have directory' := (FileTree.find_eq_ok_iff.mp there').2
  have still := FileTree.find_of_agreeOff agree closed
    (fun member => (closed other member).noDirectory directory') there'
  rw [there] at still
  cases still
  exact there'

private theorem keeps_of_uninstall (there : files.find directory.path = .ok (place, .directory))
    (foreign : Foreign content) (kept : Keeps files place content) (name : String) :
    Keeps ((directory.uninstall .commitMessage name).after files) place content := by
  rcases after_uninstall directory .commitMessage name files with
    same | ⟨removed, own, taken, left⟩
  · rw [same]
    exact kept
  · obtain ⟨spot, scriptAt, rfl⟩ := FileTree.removeFile_inv taken
    obtain rfl := FileTree.place_of_locateEntry_child there (scriptName .commitMessage) scriptAt
    have elsewhere : files.content? (scriptPlace place .commitMessage) ≠ some content := by
      intro held
      have located := FileTree.locate_child there (scriptName .commitMessage)
        (unlinked_of_content held) (FileTree.locateEntry_eq_ok_iff.mp scriptAt).1
      exact foreign.not_own located own held
    have erased := held?_erase_script files place .commitMessage
    have atBackup :=
      (FileTree.content?_congr erased.2).trans ((keeps_iff.mp kept).resolve_left elsewhere)
    rcases left with bare | renamed
    · rw [bare]
      exact keeps_iff.mpr (Or.inr atBackup)
    · obtain ⟨start, goal, entry, startAt, goalAt, -, -, same⟩ := FileTree.rename_inv renamed
      have there' := find_of_erased there startAt
      obtain rfl := FileTree.place_of_locateEntry_child there' (backupName .commitMessage) startAt
      obtain rfl := FileTree.place_of_locateEntry_child there' (scriptName .commitMessage) goalAt
      have restored := (held?_restore_script files place .commitMessage).1
      change _ = ((files.erase (scriptPlace place .commitMessage)).move
        (backupPlace place .commitMessage) (scriptPlace place .commitMessage)) at same
      rw [same]
      exact keeps_iff.mpr (Or.inl ((FileTree.content?_congr (restored.trans erased.2.symm)).trans
        atBackup))

/-- What the path of the script leads to a file with is a link or the file. -/
private theorem exists_entry_of_script {spot : Place} {held : List UInt8} {mode : Nat}
    (there : files.find directory.path = .ok (place, .directory))
    (located : files.locate (directory.scriptPath .commitMessage) = .ok spot)
    (present : files.node? spot = some (.file held mode)) :
    ∃ entry, files.held? (scriptPlace place .commitMessage) = some entry ∧
      entry.isDirectory = false := by
  cases linked : files.link? (scriptPlace place .commitMessage) with
  | some target =>
      obtain ⟨entry, present, isLink⟩ := Option.bind_eq_some_iff.mp linked
      cases entry with
      | node node => cases isLink
      | link target => exact ⟨_, present, rfl⟩
  | none =>
      obtain rfl := FileTree.place_of_locate_child there (scriptName .commitMessage) linked located
      exact ⟨_, FileTree.node?_eq_some_iff.mp present, rfl⟩

private theorem not_keeps_of_overwrites
    (there : files.find directory.path = .ok (place, .directory)) (foreign : Foreign content)
    (kept : Keeps files place content) {request : Request}
    (overwritten : Overwrites directory files request content) (block : Bool) :
    ¬Keeps ((directory.install .commitMessage request.forces block).after files) place content := by
  obtain ⟨forced, backup, ⟨script, text, owned⟩, different⟩ := overwritten
  obtain ⟨goal, mode, foundBackup⟩ := FileTree.read_eq_ok_iff.mp backup
  have backupAt := locateEntry_backup there (FileTree.find_eq_ok_iff.mp foundBackup).1
  obtain ⟨spot, held, mode', found, -⟩ := FileTree.find_of_readText text
  obtain ⟨located, present⟩ := FileTree.find_eq_ok_iff.mp found
  have scriptAt := locateEntry_script there located
  have elsewhere : files.content? (scriptPlace place .commitMessage) ≠ some content := by
    intro same
    obtain ⟨mode, same⟩ := FileTree.content?_eq_some_iff.mp same
    exact different ⟨_, mode, scriptAt, same⟩
  obtain ⟨entry, entryAt, noDirectory⟩ := exists_entry_of_script there located present
  obtain ⟨kind, replaced⟩ := FileTree.content?_eq_some_iff.mp
    ((keeps_iff.mp kept).resolve_left elsewhere)
  have renamed := FileTree.rename_of_closed scriptAt entryAt noDirectory backupAt
    (FileTree.closed_of_file replaced).noDirectory
  have looked := isForeign_of_readText text
  rw [owned] at looked
  have gone := FileTree.held?_move_source files (apart_entries place .commitMessage) []
  rw [List.append_nil] at gone
  have atScript := FileTree.content?_of_none gone
  have atBackup := FileTree.content?_congr (held?_move_script files place .commitMessage)
  rw [forced]
  intro survives
  rcases after_install_forced looked renamed block with bare | ⟨goal, -, noDirectory, laid⟩
  · rw [bare] at survives
    rcases keeps_iff.mp survives with script | backup
    · rw [atScript] at script
      cases script
    · exact elsewhere (atBackup.symm.trans backup)
  · have off {other : Place}
        (lost : (files.move (scriptPlace place .commitMessage)
          (backupPlace place .commitMessage)).content? other ≠ some content) :
        ((files.move (scriptPlace place .commitMessage)
          (backupPlace place .commitMessage)).put goal
            (scriptNode .commitMessage block)).content? other ≠ some content := by
      rw [content?_put_script _ (FileTree.ne_nil_of_noDirectory noDirectory)]
      split
      · intro same
        exact foreign.ne_script .commitMessage block (Option.some.inj same).symm
      · exact lost
    rw [laid] at survives
    rcases keeps_iff.mp survives with script | backup
    · refine off ?_ script
      rw [atScript]
      intro impossible
      cases impossible
    · refine off ?_ backup
      rw [atBackup]
      exact elsewhere

end

/-- A script of someone else survives a request exactly when the request does not put another one
in its place as the backup. -/
theorem keeps_after_iff {files : FileTree} {directory : HookDirectory} {place : Place}
    {content : List UInt8} (there : files.find directory.path = .ok (place, .directory))
    (foreign : Foreign content) (kept : Keeps files place content) (request : Request) :
    Keeps (directory.after files request) place content ↔
      ¬Overwrites directory files request content := by
  constructor
  · intro survives overwritten
    rcases after_cases directory files request with ⟨-, idle⟩ | ⟨block, ran⟩ | ⟨idle, -⟩
    · rw [overwritten.1] at idle
      cases idle
    · rw [ran] at survives
      exact not_keeps_of_overwrites there foreign kept overwritten block survives
    · rw [overwritten.1] at idle
      cases idle
  · intro spared
    rcases after_cases directory files request with ⟨same, -⟩ | ⟨block, ran⟩ | ⟨-, name, ran⟩
    · rw [same]
      exact kept
    · rw [ran]
      exact keeps_of_install there foreign kept spared block
    · rw [ran]
      exact keeps_of_uninstall there foreign kept name

def atHooks : HookDirectory :=
  ⟨.ofText "/hooks"⟩

def twoScripts : FileTree :=
  .ofNodes
    [(["hooks"], .directory),
      (["hooks", "commit-msg"], .file (Text.encode "second") scriptMode),
      (["hooks", "commit-msg.backup"], .file (Text.encode "first") scriptMode)]

theorem find_atHooks {files : FileTree} (there : files.node? ["hooks"] = some .directory) :
    files.find atHooks.path = .ok (["hooks"], .directory) := by
  have faultless : FileTree.pathFault? atHooks.path = none :=
    FileTree.pathFault?_eq_none_iff.mpr (by decide)
  refine FileTree.find_eq_ok_iff.mpr ⟨FileTree.locate_eq_ok_iff.mpr
    ⟨faultless, FileTree.linkLimit, ?_⟩, there⟩
  exact .step rfl rfl (.step rfl (FileTree.link?_of_node? there) (.done _ _))

section

variable {files : FileTree} {place : Place}

theorem locate_script_atHooks (there : files.find atHooks.path = .ok (place, .directory))
    (unlinked : files.link? (scriptPlace place .commitMessage) = none) :
    files.locate (atHooks.scriptPath .commitMessage) = .ok (scriptPlace place .commitMessage) :=
  FileTree.locate_child there (scriptName .commitMessage) unlinked
    (FileTree.pathFault?_eq_none_iff.mpr (by decide))

theorem locate_backup_atHooks (there : files.find atHooks.path = .ok (place, .directory))
    (unlinked : files.link? (backupPlace place .commitMessage) = none) :
    files.locate (atHooks.backupPath .commitMessage) = .ok (backupPlace place .commitMessage) :=
  FileTree.locate_child there (backupName .commitMessage) unlinked
    (FileTree.pathFault?_eq_none_iff.mpr (by decide))

theorem locateEntry_backup_atHooks (there : files.find atHooks.path = .ok (place, .directory)) :
    files.locateEntry (atHooks.backupPath .commitMessage) =
      .ok (backupPlace place .commitMessage) :=
  FileTree.locateEntry_child there (backupName .commitMessage)
    (FileTree.pathFault?_eq_none_iff.mpr (by decide))

end

theorem uninstall_keeps_first :
    twoScripts.find atHooks.path = .ok (["hooks"], .directory) ∧
      Foreign (Text.encode "first") ∧ Keeps twoScripts ["hooks"] (Text.encode "first") ∧
      (Keeps (atHooks.after twoScripts .uninstallAll) ["hooks"] (Text.encode "first") ↔
        ¬Overwrites atHooks twoScripts .uninstallAll (Text.encode "first")) := by
  have there : twoScripts.find atHooks.path = .ok (["hooks"], .directory) :=
    find_atHooks (by decide)
  have foreign : Foreign (Text.encode "first") := foreign_encode (by decide)
  have kept : Keeps twoScripts ["hooks"] (Text.encode "first") :=
    ⟨scriptMode, Or.inr (by decide)⟩
  exact ⟨there, foreign, kept, keeps_after_iff there foreign kept .uninstallAll⟩

/-- The backup of an earlier installation is lost when another script is replaced by force. -/
theorem second_install_loses_first :
    twoScripts.find atHooks.path = .ok (["hooks"], .directory) ∧
      Foreign (Text.encode "first") ∧ Keeps twoScripts ["hooks"] (Text.encode "first") ∧
      ¬Keeps (atHooks.after twoScripts (.installAll true false)) ["hooks"]
        (Text.encode "first") := by
  have there : twoScripts.find atHooks.path = .ok (["hooks"], .directory) :=
    find_atHooks (by decide)
  have foreign : Foreign (Text.encode "first") := foreign_encode (by decide)
  have kept : Keeps twoScripts ["hooks"] (Text.encode "first") :=
    ⟨scriptMode, Or.inr (by decide)⟩
  have backupAt := locate_backup_atHooks there (by decide)
  have scriptAt := locate_script_atHooks there (by decide)
  have backup : twoScripts.read (atHooks.backupPath .commitMessage) =
      .ok (Text.encode "first") :=
    FileTree.read_eq_ok_iff.mpr
      ⟨_, scriptMode, FileTree.find_eq_ok_iff.mpr ⟨backupAt, by decide⟩⟩
  have script : twoScripts.readText (atHooks.scriptPath .commitMessage) = .ok "second" := by
    have held : twoScripts.read (atHooks.scriptPath .commitMessage) =
        .ok (Text.encode "second") :=
      FileTree.read_eq_ok_iff.mpr
        ⟨_, scriptMode, FileTree.find_eq_ok_iff.mpr ⟨scriptAt, by decide⟩⟩
    unfold FileTree.readText
    rw [held]
    simp only [Text.decode?_encode]
  refine ⟨there, foreign, kept, ?_⟩
  have overwritten : Overwrites atHooks twoScripts (.installAll true false)
      (Text.encode "first") := by
    refine ⟨rfl, backup, ⟨"second", script, by decide⟩, ?_⟩
    intro same
    obtain ⟨spot, mode, located, present⟩ := same
    rw [locateEntry_script there scriptAt] at located
    cases located
    have other : twoScripts.node? (scriptPlace ["hooks"] .commitMessage) =
        some (.file (Text.encode "second") scriptMode) := by decide
    rw [other] at present
    cases present
  have ran : atHooks.after twoScripts (.installAll true false) =
      (atHooks.install .commitMessage true false).after twoScripts :=
    after_then_pure _ twoScripts
  rw [ran]
  exact not_keeps_of_overwrites there foreign kept overwritten false

end HookDirectory

end CommitCheck
