import CommitCheck.Proofs.BranchPatterns
import CommitCheck.Proofs.ConfigSearch
import CommitCheck.Proofs.HookRequests
import CommitCheck.Proofs.Lines
import CommitCheck.Proofs.Objects
import CommitCheck.Proofs.Reports

set_option autoImplicit false

/-! From installing a hook to what it does to a commit. The script that an installation leaves hands
over to the program, with words that the program reads as a run of the hook. That run refuses a
message exactly when the message is invalid and blocking was asked for at some moment: by an option
or by the configuration when the hook was installed, or by the configuration when it runs. -/

namespace CommitCheck

theorem Text.splitLines_join {lines : List String} (whole : ∀ line ∈ lines, '\n' ∉ line.toList) :
    splitLines (String.join (lines.map (· ++ "\n"))).toList = lines.map String.toList ++ [[]] := by
  rw [String.toList_join]
  induction lines with
  | nil => rfl
  | cons line lines ih =>
      obtain ⟨first, others⟩ := List.forall_mem_cons.mp whole
      rw [List.map_cons, List.flatMap_cons, String.toList_append, List.append_assoc]
      exact (splitLines_append_feed first _).trans (congrArg (line.toList :: ·) (ih others))

namespace Shell

/-- The words of a line, of which the word in progress has been read so far. Blanks separate words
unless they stand between double quotes, where `$1` stands for the argument of the script. Other
characters stand for themselves, which holds in the shell for those that are in scripts of hooks. -/
def wordsFrom (argument : List Char) :
    Bool → Option (List Char) → List Char → List (List Char)
  | _, word?, [] => word?.toList
  | quoted, word?, '"' :: cs => wordsFrom argument (!quoted) (some (word?.getD [])) cs
  | false, word?, ' ' :: cs => word?.toList ++ wordsFrom argument false none cs
  | true, word?, '$' :: '1' :: cs =>
      wordsFrom argument true (some (word?.getD [] ++ argument)) cs
  | quoted, word?, c :: cs => wordsFrom argument quoted (some (word?.getD [] ++ [c])) cs

def isCommand : List Char → Bool
  | [] => false
  | c :: _ => c != '#'

/-- The words that a program is run with if the first command of a script hands over to it. -/
def handover? (program script argument : String) : Option (List String) :=
  match (Text.splitLines script.toList).find? isCommand with
  | none => none
  | some line =>
      match (wordsFrom argument.toList false none line).map String.ofList with
      | "exec" :: name :: arguments => if name = program then some arguments else none
      | _ => none

end Shell

namespace Hook

private def lastLine (block : Bool) : List Char :=
  if block then "exec cmc hook \"$1\" --block".toList else "exec cmc hook \"$1\"".toList

private theorem feedless_scriptLines (block : Bool) :
    ∀ line ∈ commitMessage.scriptLines block, '\n' ∉ line.toList := by
  cases block <;> decide +kernel

private theorem find?_command (block : Bool) :
    (Text.splitLines (commitMessage.script block).toList).find? Shell.isCommand =
      some (lastLine block) := by
  unfold script
  rw [Text.splitLines_join (feedless_scriptLines block)]
  cases block <;> decide +kernel

private theorem wordsFrom_lastLine (argument : List Char) (block : Bool) :
    Shell.wordsFrom argument false none (lastLine block) =
      "exec".toList :: "cmc".toList :: "hook".toList :: argument ::
        if block then ["--block".toList] else [] := by
  cases block <;> cbv

theorem handover?_script (file : String) (block : Bool) :
    Shell.handover? "cmc" (commitMessage.script block) file = some (arguments file block) := by
  unfold Shell.handover?
  rw [find?_command]
  dsimp only
  rw [wordsFrom_lastLine]
  cases block <;> simp [arguments]

end Hook

namespace CommandLine

private def pendingFile (file : String) : Progress :=
  { pending := some (.operand, some file), operandRead := true }

private theorem take_file {file : String} (operand : Word.ofText file = .plain) :
    Progress.take {} .hook file = .ok (pendingFile file) := by
  unfold Progress.take
  simp only [Bool.false_eq_true, if_false, operand]
  rfl

private theorem settle_file {file : String} (named : file ≠ "") :
    (pendingFile file).settle .hook =
      .ok { given := [(.operand, file)], operandRead := true } := by
  unfold Progress.settle pendingFile Progress.accept
  simp [allows, named]

private theorem take_block {file : String} (named : file ≠ "") :
    Progress.take (pendingFile file) .hook "--block" =
      .ok { given := [(.operand, file), (.block, "")], operandRead := true } := by
  have word : Word.ofText "--block" = .long "block" none := by decide +kernel
  have option : longOption? .hook "block" = some (.flag .block) := by decide
  unfold Progress.take
  rw [word]
  change Progress.takeLong (pendingFile file) .hook "block" none = _
  unfold Progress.takeLong Progress.takeFlag
  rw [option, settle_file named]
  rfl

private theorem finish_hook {progress : Progress} {file : String} {others : Given}
    {fallback? : Option String}
    (settled : progress.settle .hook =
      .ok { given := (.operand, file) :: others, operandRead := true })
    (noConfig : others.lookup .config = none) (unset : fallback? ≠ some "") :
    progress.finish .hook fallback? false = .ok ((.operand, file) :: others) := by
  have unnamed : List.lookup .config ((.operand, file) :: others) = none := noConfig
  unfold Progress.finish
  rw [settled]
  simp only [bind, Except.bind, unnamed, unset]
  rfl

private theorem readLevel_hook {progress next : Progress} {fallback? : Option String}
    {word : String} (taken : progress.take .hook word = .ok next) (words : List String) :
    readLevel fallback? .hook progress (word :: words) =
      readLevel fallback? .hook next words := by
  have unreserved : isCommand .hook word = false := rfl
  rw [readLevel, unreserved, Bool.and_false, taken]
  rfl

private theorem readLevel_arguments {file : String} {fallback? : Option String}
    (operand : Word.ofText file = .plain) (named : file ≠ "") (unset : fallback? ≠ some "")
    (block : Bool) :
    readLevel fallback? .hook {} (file :: if block then ["--block"] else []) =
      .ok [(.hook, (.operand, file) :: if block then [(.block, "")] else [])] := by
  rw [readLevel_hook (take_file operand)]
  cases block with
  | false =>
      simp only [Bool.false_eq_true, if_false]
      rw [readLevel, finish_hook (settle_file named) rfl unset]
      rfl
  | true =>
      simp only [if_true]
      rw [readLevel_hook (take_block named), readLevel, finish_hook rfl rfl unset]
      rfl

theorem read_arguments {environment : String → Option String} {file : String}
    (operand : Word.ofText file = .plain) (named : file ≠ "")
    (unset : environment configVariable ≠ some "") (block : Bool) :
    read environment (Hook.arguments file block) =
      .ok { command := .hook file block, config? := environment configVariable } := by
  have outer : Progress.finish {} .program (environment configVariable) true = .ok [] := by
    unfold Progress.finish Progress.settle
    simp only [bind, Except.bind, unset]
    rfl
  have levels : readLevel (environment configVariable) .program {} (Hook.arguments file block) =
      .ok [(.program, []),
        (.hook, (.operand, file) :: if block then [(.block, "")] else [])] := by
    have below : isCommand .program "hook" = true ∧
        (commands .program).lookup "hook" = some .hook := by decide
    unfold Hook.arguments
    rw [readLevel, below.1, below.2]
    simp only [Bool.not_false, Bool.and_true, if_true]
    rw [readLevel_arguments operand named unset, outer]
    rfl
  unfold read
  dsimp only
  rw [levels]
  cases block <;> rfl

end CommandLine

theorem Host.ne_empty_of_read {host : Host} {name : String} {content : List UInt8}
    (held : host.files.read (host.absolute (Path.ofText name)) host.surroundings.mayOpen =
      .ok content) : name ≠ "" := by
  intro empty
  subst empty
  have slash : (host.absolute (Path.ofText "")).pieces.getLast? = some "" :=
    List.getLast?_concat
  obtain ⟨place, mode, found⟩ := FileTree.exists_file_of_read held
  cases FileTree.directory_of_find slash found

namespace Program

/-! ### Runs of the hook -/

/-- The configuration that counts for a run whose words name none. -/
def inForce (host : Host) : Except ConfigError Config :=
  match host.environment CommandLine.configVariable with
  | some path => Config.loadFrom host (Path.ofText path)
  | none => Config.load host

theorem unset_of_inForce {host : Host} {config : Config} (inForce : inForce host = .ok config) :
    host.environment CommandLine.configVariable ≠ some "" := by
  intro empty
  unfold Program.inForce at inForce
  rw [empty] at inForce
  dsimp only at inForce
  unfold Config.loadFrom Host.readText FileTree.readText at inForce
  split at inForce
  · cases found : host.files.read (host.absolute (Path.ofText "")) host.surroundings.mayOpen with
    | ok content => exact Host.ne_empty_of_read found rfl
    | error fault =>
        rw [found] at inForce
        cases inForce
  · cases inForce

/-- What is printed about the message of a commit, given whether colours can be shown. -/
def hookReport (colors : Bool) (display : DisplayConfig) (message : String) : String :=
  report { surroundings := { colors } } { command := .hook "" false } { ui := display }
    [Validator.standard.validate message]

theorem verdict_single (outcome : Outcome) :
    verdict [outcome] = if outcome.isValid then .ok () else .error (.invalidMessages 1) := by
  cases outcome with
  | mk message commit special failures =>
      cases failures <;> rfl

theorem run_hook {host : Host} {config : Config} {file message : String}
    (held : host.files.read (host.absolute (Path.ofText file)) host.surroundings.mayOpen =
      .ok (Text.encode message))
    (inForce : inForce host = .ok config) (block : Bool) :
    run host { command := .hook file block,
               config? := host.environment CommandLine.configVariable } =
      ({ output := hookReport host.surroundings.colors config.ui message
         result :=
          if Validator.standard.accepts message || !(block || config.hooks.block) then .ok ()
          else .error (.invalidMessages 1) }, host.files) := by
  have configured : configuration host
      { command := .hook file block, config? := host.environment CommandLine.configVariable } =
        .ok config := inForce
  have readable : host.readText (Path.ofText file) = .ok message := by
    unfold Host.readText FileTree.readText
    rw [held]
    simp only [Text.decode?_encode]
  unfold run
  rw [configured]
  dsimp only
  unfold runHook
  rw [readable]
  dsimp only
  rw [verdict_single]
  unfold hookReport Validator.accepts
  cases (Validator.standard.validate message).isValid <;>
    cases block || config.hooks.block <;> rfl

/-! ### Installations -/

theorem prepare_eq {path : Path} {files changed : FileTree} {directory : HookDirectory}
    (ran : HookDirectory.prepare path files = .ok directory changed) : directory = ⟨path⟩ := by
  unfold HookDirectory.prepare at ran
  obtain ⟨present, between, -, ran⟩ := FileAction.exists_of_bind_ok ran
  split at ran
  · obtain ⟨_, made, -, ran⟩ := FileAction.exists_of_bind_ok ran
    cases ran
    rfl
  · cases ran
    rfl

private theorem readText_of_steps {path : Path} {config : Config} {force block : Bool}
    {files changed : FileTree} {lines : List String}
    (ran : (HookDirectory.prepare path >>= fun directory =>
      hookAction config directory (.install force block)) files = .ok lines changed) :
    changed.readText ((HookDirectory.mk path).scriptPath .commitMessage) =
      .ok (Hook.commitMessage.script (block || config.hooks.block)) := by
  obtain ⟨directory, prepared, first, ran⟩ := FileAction.exists_of_bind_ok ran
  obtain rfl := prepare_eq first
  unfold hookAction at ran
  obtain ⟨_, _, ran, last⟩ := FileAction.exists_of_bind_ok ran
  cases last
  change (HookDirectory.install ⟨path⟩ .commitMessage force (block || config.hooks.block) >>=
    fun _ => pure ()) prepared = .ok () changed at ran
  obtain ⟨_, _, ran, last⟩ := FileAction.exists_of_bind_ok ran
  cases last
  obtain ⟨spot, found⟩ := HookDirectory.find_of_install ran
  unfold FileTree.readText
  rw [FileTree.read_eq_ok_iff.mpr ⟨spot, HookDirectory.scriptMode, found⟩]
  simp only [Text.decode?_encode]

theorem readText_of_install {host : Host} {invocation : Invocation} {config : Config}
    {force block : Bool} (asked : invocation.command = .hooks (.install force block))
    (configured : configuration host invocation = .ok config)
    (installed : (run host invocation).1.result = .ok ()) :
    ∃ repository, Repository.discover host host.currentPath = .ok repository ∧
      (run host invocation).2.readText
        ((HookDirectory.mk (repository.path.child "hooks")).scriptPath .commitMessage) =
          .ok (Hook.commitMessage.script (block || config.hooks.block)) := by
  have whole : run host invocation = runHooks host config (.install force block) := by
    unfold run
    rw [configured, asked]
  rw [whole] at installed ⊢
  unfold runHooks at installed ⊢
  cases discovered : Repository.discover host host.currentPath with
  | error error =>
      rw [discovered] at installed
      cases installed
  | ok repository =>
      refine ⟨repository, rfl, ?_⟩
      rw [discovered] at installed
      dsimp only at installed ⊢
      split at installed
      · rename_i lines changed ran
        exact readText_of_steps ran
      · cases installed

/-- Once the hook is installed, what it refuses is the messages that are invalid, provided that
blocking was asked for on the way: when it was installed, or by the configuration that counts when
it runs. What it prints has nothing to do with that. The path of the message is one that no option
looks like, as is every path that a commit passes on. -/
theorem installed_hook_enforces {host later : Host} {invocation : Invocation}
    {config current : Config} {force block : Bool} {file message : String}
    (asked : invocation.command = .hooks (.install force block))
    (configured : configuration host invocation = .ok config)
    (installed : (run host invocation).1.result = .ok ())
    (operand : CommandLine.Word.ofText file = .plain)
    (held : later.files.read (later.absolute (Path.ofText file)) later.surroundings.mayOpen =
      .ok (Text.encode message))
    (inForce : inForce later = .ok current) :
    ∃ repository script arguments call,
      Repository.discover host host.currentPath = .ok repository ∧
      (run host invocation).2.readText
        ((HookDirectory.mk (repository.path.child "hooks")).scriptPath .commitMessage) =
          .ok script ∧
      Shell.handover? "cmc" script file = some arguments ∧
      CommandLine.read later.environment arguments = .ok call ∧
      ((run later call).1.result = .error (.invalidMessages 1) ↔
        Validator.standard.accepts message = false ∧
          (block = true ∨ config.hooks.block = true ∨ current.hooks.block = true)) ∧
      ((run later call).1.result ≠ .error (.invalidMessages 1) →
        (run later call).1.result = .ok ()) ∧
      (run later call).1.output = hookReport later.surroundings.colors current.ui message := by
  obtain ⟨repository, discovered, script⟩ := readText_of_install asked configured installed
  have words := CommandLine.read_arguments operand (Host.ne_empty_of_read held)
    (unset_of_inForce inForce) (block || config.hooks.block)
  refine ⟨repository, _, _, _, discovered, script, Hook.handover?_script file _, words, ?_⟩
  rw [run_hook held inForce]
  cases Validator.standard.accepts message <;> cases block <;> cases config.hooks.block <;>
    cases current.hooks.block <;> simp

theorem run_of_install {host : Host} {invocation : Invocation} {config : Config}
    {force block : Bool} {repository : Repository} {changed : FileTree}
    (asked : invocation.command = .hooks (.install force block))
    (configured : configuration host invocation = .ok config)
    (discovered : Repository.discover host host.currentPath = .ok repository)
    (there : host.files.holds (repository.path.child "hooks") = true)
    (done : (HookDirectory.mk (repository.path.child "hooks")).install .commitMessage force
      (block || config.hooks.block) host.files = .ok () changed) :
    run host invocation = (printed ["✓ Installed commit-msg hook"], changed) := by
  have prepared : HookDirectory.prepare (repository.path.child "hooks") host.files =
      .ok ⟨repository.path.child "hooks"⟩ host.files := by
    change (if !host.files.holds (repository.path.child "hooks") then _ else _ :
      FileAction HookDirectory) host.files = _
    rw [there]
    rfl
  have installed : (HookDirectory.mk (repository.path.child "hooks")).installAll force
      (block || config.hooks.block) host.files = .ok () changed :=
    FileAction.bind_ok done
  have acted : hookAction config ⟨repository.path.child "hooks"⟩ (.install force block) host.files =
      .ok ["✓ Installed commit-msg hook"] changed :=
    FileAction.bind_ok installed
  unfold run
  rw [configured, asked]
  dsimp only
  unfold runHooks
  rw [discovered]
  dsimp only
  unfold EStateM.run
  rw [FileAction.bind_ok prepared, acted]

def committingHost : Host where
  files := .ofNodes
    [([".git"], .directory),
      ([".git", "HEAD"], .file (Text.encode "ref: refs/heads/main\n") FileTree.plainMode),
      ([".git", "objects"], .directory), ([".git", "refs"], .directory),
      ([".git", "hooks"], .directory),
      ([".git", "hooks", "commit-msg"],
        .file (Text.encode "#!/bin/sh\n") HookDirectory.scriptMode),
      ([".git", "COMMIT_EDITMSG"], .file (Text.encode "fix typo\n") FileTree.plainMode),
      (["cmc.toml"], .file (Text.encode "[hooks]\nblock = true\n") FileTree.plainMode)]
  surroundings := { colors := true }

def forcedInstallation : Invocation where
  command := .hooks (.install true false)

theorem load_committingHost :
    Config.load committingHost = .ok { hooks := { block := true } } := by
  have nearest : Config.FirstHeld committingHost
      (Config.candidates committingHost.surroundings committingHost.currentPath)
      (Path.ofText "/cmc.toml") :=
    ⟨by cbv, [], _, rfl, List.forall_mem_nil _⟩
  have readable : committingHost.readText (Path.ofText "/cmc.toml") =
      .ok "[hooks]\nblock = true\n" := by cbv
  have decoded : Config.decoded? "[hooks]\nblock = true\n" =
      some { hooks := { block := true } } := by decide +kernel
  rw [(Config.goesBy_candidates committingHost).readable _ _ nearest readable]
  exact Config.parse_of_compile decoded Config.compile_defaults

theorem configuration_forcedInstallation :
    configuration committingHost forcedInstallation = .ok { hooks := { block := true } } :=
  load_committingHost

theorem inForce_committingHost :
    inForce committingHost = .ok { hooks := { block := true } } :=
  load_committingHost

def committedRepository : Repository where
  directory := [".git"]
  shared := [".git"]
  files := committingHost.files
  history := .empty

theorem result_forcedInstallation :
    (run committingHost forcedInstallation).1.result = .ok () := by
  have discovered : Repository.discover committingHost committingHost.currentPath =
      .ok committedRepository := by cbv
  have hooks : committingHost.files.find (committedRepository.path.child "hooks") =
      .ok ([".git", "hooks"], .directory) := by cbv
  have held : committingHost.files.holds (committedRepository.path.child "hooks") = true := by
    unfold FileTree.holds
    rw [hooks]
    rfl
  have unlinked : HookDirectory.Unlinked committingHost.files [".git", "hooks"] .commitMessage :=
    ⟨by decide, by decide⟩
  have foreign : HookDirectory.Scripted (committingHost.files.node?
      (HookDirectory.scriptPlace [".git", "hooks"] .commitMessage)) false :=
    ⟨_, _, "#!/bin/sh\n", rfl, Text.decode?_encode _, by decide⟩
  have scriptAt := FileTree.locate_child hooks (HookDirectory.scriptName .commitMessage)
    (by decide) (FileTree.pathFault?_eq_none_iff.mpr (by decide))
  have backupAt := FileTree.locateEntry_child hooks (HookDirectory.backupName .commitMessage)
    (FileTree.pathFault?_eq_none_iff.mpr (by decide))
  have done := @HookDirectory.install_forced _ ⟨committedRepository.path.child "hooks"⟩ _ _
    hooks unlinked scriptAt foreign backupAt (by decide) (false || true)
  have ran := run_of_install rfl configuration_forcedInstallation discovered held done
  rw [ran]
  rfl

theorem installed_hook_enforces_forced :
    configuration committingHost forcedInstallation = .ok { hooks := { block := true } } ∧
      (run committingHost forcedInstallation).1.result = .ok () ∧
      CommandLine.Word.ofText ".git/COMMIT_EDITMSG" = .plain ∧
      committingHost.files.read
        (committingHost.absolute (Path.ofText ".git/COMMIT_EDITMSG"))
          committingHost.surroundings.mayOpen = .ok (Text.encode "fix typo\n") ∧
      inForce committingHost = .ok { hooks := { block := true } } ∧
      ∃ (repository : Repository) (script : String) (arguments : List String)
          (call : Invocation),
        (run committingHost forcedInstallation).2.readText
          ((HookDirectory.mk (repository.path.child "hooks")).scriptPath .commitMessage) =
            .ok script ∧
        Shell.handover? "cmc" script ".git/COMMIT_EDITMSG" = some arguments ∧
        CommandLine.read committingHost.environment arguments = .ok call ∧
        (run committingHost call).1.result = .error (.invalidMessages 1) ∧
        (run committingHost call).1.output = hookReport true {} "fix typo\n" := by
  have operand : CommandLine.Word.ofText ".git/COMMIT_EDITMSG" = .plain := by decide
  have held : committingHost.files.read
      (committingHost.absolute (Path.ofText ".git/COMMIT_EDITMSG"))
        committingHost.surroundings.mayOpen = .ok (Text.encode "fix typo\n") := by cbv
  have invalid : Validator.standard.accepts "fix typo\n" = false := by decide
  obtain ⟨repository, script, arguments, call, -, laid, words, read, refused, -, printed⟩ :=
    installed_hook_enforces rfl configuration_forcedInstallation result_forcedInstallation
      operand held inForce_committingHost
  exact ⟨configuration_forcedInstallation, result_forcedInstallation, operand, held,
    inForce_committingHost, repository, script, arguments, call, laid, words, read,
    refused.mpr ⟨invalid, Or.inr (Or.inr rfl)⟩, printed⟩

end Program

end CommitCheck
