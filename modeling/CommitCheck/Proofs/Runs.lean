import CommitCheck.Proofs.Lookups
import CommitCheck.Proofs.Reports
import CommitCheck.Proofs.Retrieval

set_option autoImplicit false

/-! Runs that validate messages. A run either fails before it has printed anything, because what it
has been asked for was not found, or it ends with the report about all of it. What it reports about
is stored, unless the command is asked for one commit by an argument that selects none. -/

namespace CommitCheck

structure Source.FailsByHistory (source : Source) : Prop where
  commit : ∀ reference error, source.commit reference = .error error →
    ∃ cause, error = .history cause
  shas : ∀ range error, source.shas range = .error error → ∃ cause, error = .history cause

namespace Log

private theorem history_of_asked {α : Type} {argument command : String}
    {output? : Option (List UInt8)} {read : List UInt8 → α} {error : Error}
    (failed : (do
      checkRevision argument
      let output ← ran command output?
      .ok (read output)) = Except.error error) : ∃ cause, error = .history cause := by
  rcases bind_eq_error_iff.mp failed with refused | ⟨_, -, failed⟩
  · unfold checkRevision at refused
    split at refused
    · cases refused
      exact ⟨_, rfl⟩
    · cases refused
  · rcases bind_eq_error_iff.mp failed with failed | ⟨_, -, impossible⟩
    · cases output? with
      | none =>
          cases failed
          exact ⟨_, rfl⟩
      | some output => cases failed
    · cases impossible

theorem failsByHistory_source (host : Host) : (source host).FailsByHistory where
  commit _ _ failed := history_of_asked failed
  shas _ _ failed := history_of_asked failed

end Log

namespace Repository

variable {repository : Repository} {error : Error}

theorem history_of_commit {reference : String}
    (failed : repository.commit reference = .error error) : ∃ cause, error = .history cause := by
  unfold commit at failed
  split at failed
  · cases failed
  · cases failed
    exact ⟨_, rfl⟩

theorem history_of_lookUp {reference : String}
    (failed : repository.lookUp reference = .error error) : ∃ cause, error = .history cause := by
  rcases bind_eq_error_iff.mp failed with failed | ⟨position, -, failed⟩
  · exact history_of_commit failed
  · split at failed
    · cases failed
    · cases failed
      exact ⟨_, rfl⟩

private theorem history_of_ends {α : Type} {first second : String}
    {next : Nat → Nat → Except Error α}
    (nextFails : ∀ a b, next a b = .error error → ∃ cause, error = .history cause)
    (failed : (do
      let a ← repository.commit first
      let b ← repository.commit second
      next a b) = .error error) : ∃ cause, error = .history cause := by
  rcases bind_eq_error_iff.mp failed with failed | ⟨a, -, failed⟩
  · exact history_of_commit failed
  · rcases bind_eq_error_iff.mp failed with failed | ⟨b, -, failed⟩
    · exact history_of_commit failed
    · exact nextFails a b failed

theorem history_of_commitsIn {range : String} (failed : repository.commitsIn range = .error error) :
    ∃ cause, error = .history cause := by
  unfold commitsIn at failed
  split at failed
  · exact history_of_commit (map_eq_error_iff.mp failed)
  · split at failed
    · apply history_of_ends _ failed
      intro a b impossible
      cases impossible
    · cases failed
      exact ⟨_, rfl⟩
  · split at failed
    · apply history_of_ends _ failed
      intro a b unrelated
      unfold commitsApart at unrelated
      split at unrelated
      · cases unrelated
      · cases unrelated
        exact ⟨_, rfl⟩
    · cases failed
      exact ⟨_, rfl⟩

private theorem history_of_discovered {α : Type} {host : Host} {path : Path}
    {next : Repository → Except Error α}
    (nextFails : ∀ found, next found = .error error → ∃ cause, error = .history cause)
    (failed : ((discover host path).mapError Error.history >>= next) = .error error) :
    ∃ cause, error = .history cause := by
  rcases bind_eq_error_iff.mp failed with failed | ⟨found, -, failed⟩
  · cases discovered : discover host path with
    | ok found =>
        rw [discovered] at failed
        cases failed
    | error cause =>
        rw [discovered] at failed
        cases failed
        exact ⟨cause, rfl⟩
  · exact nextFails found failed

theorem failsByHistory_source (host : Host) (path : Path) :
    (source host path).FailsByHistory where
  commit _ _ failed := history_of_discovered (fun _ => history_of_lookUp) failed
  shas _ _ failed :=
    history_of_discovered (fun _ failed => history_of_commitsIn (map_eq_error_iff.mp failed)) failed

end Repository

theorem Source.FailsByHistory.commits {source : Source} (fails : source.FailsByHistory)
    {references : List String} {error : Error} (failed : source.commits references = .error error) :
    ∃ cause, error = .history cause := by
  obtain ⟨_, reference, _, -, -, failed⟩ := commits_eq_error_iff.mp failed
  exact fails.commit reference error failed

theorem Source.FailsByHistory.commitsInRange {source : Source} (fails : source.FailsByHistory)
    {range : String} {error : Error} (failed : source.commitsInRange range = .error error) :
    ∃ cause, error = .history cause := by
  rcases bind_eq_error_iff.mp failed with failed | ⟨shas, -, failed⟩
  · exact fails.shas range error failed
  · exact fails.commits failed

/-! ### Messages that are asked for -/

inductive Requested where
  | text (message : String)
  | commit (commit : Commit)
deriving DecidableEq, Repr

def Requested.outcome : Requested → Outcome
  | .text message => Validator.standard.validate message
  | .commit found => Validator.standard.validateCommit found

namespace Program

variable {host : Host} {invocation : Invocation} {config : Config}

def retrieved (source : Source) (target : String) (isRange : Bool) :
    Except Error (List Requested) :=
  (if isRange then source.commitsInRange target else source.commits [target]).map
    (List.map .commit)

/-- The messages that a run has to report about, if it has to report. -/
def requested? (host : Host) (config : Config) : Command → Option (Except Error (List Requested))
  | .check check =>
      let source := if check.byCommand then Log.source host else directSource host
      some (retrieved source check.target check.isRange)
  | .message text? =>
      some (((text?.map Except.ok).getD (inputText host)).map fun text => [.text text])
  | .ci =>
      match Build.plan config.ci host.environment with
      | .error error => some (.error (.build error))
      | .ok (.skip _) => none
      | .ok (.range range) => some (retrieved (directSource host) range true)
      | .ok (.commit commit) => some (retrieved (directSource host) commit false)
  | _ => none

theorem outcomes_eq (source : Source) (target : String) (isRange : Bool) :
    outcomes source target isRange =
      (retrieved source target isRange).map (List.map Requested.outcome) := by
  have each (commits : Except Error (List Commit)) :
      commits.map (List.map Validator.standard.validateCommit) =
        (commits.map (List.map Requested.commit)).map (List.map Requested.outcome) := by
    cases commits with
    | error failure => rfl
    | ok commits =>
        change _ = Except.ok ((commits.map Requested.commit).map Requested.outcome)
        rw [List.map_map]
        rfl
  cases isRange with
  | false => exact each _
  | true => exact each _

theorem run_of_requested (configured : configuration host invocation = .ok config)
    {answer : Except Error (List Requested)}
    (asked : requested? host config invocation.command = some answer) :
    run host invocation =
      (concluded host invocation config (answer.map (List.map Requested.outcome)),
        host.files) := by
  unfold run
  rw [configured]
  dsimp only
  cases command : invocation.command with
  | check check =>
      rw [command] at asked
      cases asked
      unfold runCheck
      dsimp only
      rw [outcomes_eq]
  | message text? =>
      rw [command] at asked
      cases asked
      have validated (text : Except Error String) :
          (text.map fun text => [Validator.standard.validate text]) =
            (text.map fun text => [Requested.text text]).map (List.map Requested.outcome) := by
        cases text <;> rfl
      unfold runMessage
      dsimp only
      rw [validated]
  | ci =>
      rw [command] at asked
      unfold requested? at asked
      dsimp only at asked ⊢
      unfold runBuild
      cases planned : Build.plan config.ci host.environment with
      | error error =>
          rw [planned] at asked
          cases asked
          rfl
      | ok plan =>
          rw [planned] at asked
          cases plan with
          | skip reason => cases asked
          | range range =>
              cases asked
              dsimp only
              rw [outcomes_eq]
          | commit commit =>
              cases asked
              dsimp only
              rw [outcomes_eq]
  | hook | hooks | explain | version =>
      rw [command] at asked
      cases asked

/-- The command is asked for one commit, and prints nothing. -/
def AsksInVain (host : Host) : Command → Prop
  | .check check =>
      check.byCommand = true ∧ check.isRange = false ∧
        Log.newestOutput? host check.target = some []
  | _ => False

theorem requested_cases {command : Command} {answer : Except Error (List Requested)}
    (asked : requested? host config command = some answer) :
    (∃ text?, command = .message text? ∧
      answer = ((text?.map Except.ok).getD (inputText host)).map fun text => [.text text]) ∨
    (∃ error, command = .ci ∧ answer = .error (.build error)) ∨
    (∃ target isRange, ¬AsksInVain host command ∧
      answer = retrieved (directSource host) target isRange) ∨
    ∃ check, command = .check check ∧ check.byCommand = true ∧
      answer = retrieved (Log.source host) check.target check.isRange := by
  cases command with
  | message text? => exact Or.inl ⟨text?, rfl, (Option.some.inj asked).symm⟩
  | check check =>
      have same := (Option.some.inj asked).symm
      cases byCommand : check.byCommand with
      | true =>
          rw [byCommand, if_pos rfl] at same
          exact Or.inr (Or.inr (Or.inr ⟨check, rfl, byCommand, same⟩))
      | false =>
          rw [byCommand, if_neg Bool.false_ne_true] at same
          refine Or.inr (Or.inr (Or.inl ⟨_, _, ?_, same⟩))
          intro inVain
          cases byCommand.symm.trans inVain.1
  | ci =>
      unfold requested? at asked
      dsimp only at asked
      split at asked
      · exact Or.inr (Or.inl ⟨_, rfl, (Option.some.inj asked).symm⟩)
      · cases asked
      · exact Or.inr (Or.inr (Or.inl ⟨_, _, not_false, (Option.some.inj asked).symm⟩))
      · exact Or.inr (Or.inr (Or.inl ⟨_, _, not_false, (Option.some.inj asked).symm⟩))
  | hook | hooks | explain | version => cases asked

theorem not_invalid_of_retrieved {source : Source} (fails : source.FailsByHistory)
    {target : String} {isRange : Bool} {error : Error}
    (failed : retrieved source target isRange = .error error) :
    ∀ count, error ≠ .invalidMessages count := by
  have history : ∃ cause, error = .history cause := by
    have failed := map_eq_error_iff.mp failed
    split at failed
    · exact fails.commitsInRange failed
    · exact fails.commits failed
  obtain ⟨cause, rfl⟩ := history
  intro count impossible
  cases impossible

theorem not_invalid_of_requested {command : Command} {error : Error}
    (asked : requested? host config command = some (.error error)) :
    ∀ count, error ≠ .invalidMessages count := by
  obtain ⟨text?, -, failed⟩ | ⟨cause, -, failed⟩ | ⟨target, isRange, -, failed⟩ |
    ⟨check, -, -, failed⟩ := requested_cases asked
  · have failed := map_eq_error_iff.mp failed.symm
    intro count
    cases text? with
    | some text => cases failed
    | none =>
        change inputText host = .error error at failed
        unfold inputText at failed
        split at failed
        · cases failed
        · cases failed
          intro impossible
          cases impossible
  · cases failed
    intro count impossible
    cases impossible
  · exact not_invalid_of_retrieved (Repository.failsByHistory_source host _) failed.symm
  · exact not_invalid_of_retrieved (Log.failsByHistory_source host) failed.symm

/-! ### Commits that are reported about -/

theorem retrieved_single_eq_ok {source : Source} {target : String} {messages : List Requested}
    (ok : retrieved source target false = .ok messages) :
    ∃ found, source.commit target = .ok found ∧ messages = [.commit found] := by
  change (source.commits [target]).map _ = _ at ok
  rw [Source.commits_singleton] at ok
  obtain ⟨commits, single, rfl⟩ := map_eq_ok_iff.mp ok
  obtain ⟨found, answered, rfl⟩ := map_eq_ok_iff.mp single
  exact ⟨found, answered, rfl⟩

theorem retrieved_range_eq_ok {source : Source} {target : String} {messages : List Requested}
    (ok : retrieved source target true = .ok messages) :
    ∃ shas, source.shas target = .ok shas ∧ ∀ found, .commit found ∈ messages →
      ∃ sha ∈ shas, source.commit sha = .ok found := by
  change (source.commitsInRange target).map _ = _ at ok
  obtain ⟨commits, ranged, rfl⟩ := map_eq_ok_iff.mp ok
  obtain ⟨shas, listed, answered⟩ := bind_eq_ok_iff.mp ranged
  refine ⟨shas, listed, ?_⟩
  intro found member
  obtain ⟨other, inRange, same⟩ := List.mem_map.mp member
  cases same
  exact Source.exists_reference_of_mem answered inRange

theorem stores_of_direct (identified : host.Identified) {target : String} {isRange : Bool}
    {messages : List Requested}
    (ok : retrieved (directSource host) target isRange = .ok messages) {found : Commit}
    (member : .commit found ∈ messages) : host.Stores found := by
  cases isRange with
  | false =>
      obtain ⟨other, answered, rfl⟩ := retrieved_single_eq_ok ok
      cases List.mem_singleton.mp member
      exact Repository.stores_of_source identified answered
  | true =>
      obtain ⟨shas, -, answered⟩ := retrieved_range_eq_ok ok
      obtain ⟨sha, -, answered⟩ := answered found member
      exact Repository.stores_of_source identified answered

theorem stores_iff_not_inVain (identified : host.Identified) {command : Command}
    {messages : List Requested} (asked : requested? host config command = some (.ok messages)) :
    (∀ found, .commit found ∈ messages → host.Stores found) ↔ ¬AsksInVain host command := by
  obtain ⟨text?, rfl, ok⟩ | ⟨cause, -, impossible⟩ | ⟨target, isRange, notInVain, ok⟩ |
    ⟨check, rfl, byCommand, ok⟩ := requested_cases asked
  · obtain ⟨text, -, rfl⟩ := map_eq_ok_iff.mp ok.symm
    refine iff_of_true ?_ not_false
    intro found member
    cases List.mem_singleton.mp member
  · cases impossible
  · exact iff_of_true (fun found => stores_of_direct identified ok.symm) notInVain
  · cases isRange : check.isRange with
    | false =>
        rw [isRange] at ok
        obtain ⟨found, answered, rfl⟩ := retrieved_single_eq_ok ok.symm
        have printed := Log.stores_iff_printed identified answered
        constructor
        · intro stored inVain
          exact printed.mp (stored found (List.mem_singleton_self _)) inVain.2.2
        · intro notInVain other member
          cases List.mem_singleton.mp member
          apply printed.mpr
          intro nothing
          exact notInVain ⟨byCommand, isRange, nothing⟩
    | true =>
        rw [isRange] at ok
        obtain ⟨shas, listed, answered⟩ := retrieved_range_eq_ok ok.symm
        refine iff_of_true ?_ ?_
        · intro found member
          obtain ⟨sha, inRange, answered⟩ := answered found member
          exact Log.stores_of_listed identified listed inRange answered
        · intro inVain
          cases isRange.symm.trans inVain.2.1

theorem eq_of_inVain (identified : host.Identified) {command : Command}
    {messages : List Requested} (asked : requested? host config command = some (.ok messages))
    (inVain : AsksInVain host command) : messages = [.commit ⟨"", ""⟩] := by
  obtain ⟨text?, rfl, -⟩ | ⟨cause, -, impossible⟩ | ⟨target, isRange, notInVain, -⟩ |
    ⟨check, rfl, -, ok⟩ := requested_cases asked
  · exact inVain.elim
  · cases impossible
  · exact absurd inVain notInVain
  · obtain ⟨-, single, unprinted⟩ := inVain
    rw [single] at ok
    obtain ⟨found, answered, rfl⟩ := retrieved_single_eq_ok ok.symm
    rw [Log.eq_of_unprinted identified answered unprinted]

/-- A run that has to report fails without a word if a message is not found. Otherwise it prints the
whole report and its result says how many messages are invalid, and what is reported about is stored
unless the command is asked in vain. -/
theorem run_reports_or_fails (identified : host.Identified)
    (configured : configuration host invocation = .ok config)
    {answer : Except Error (List Requested)}
    (asked : requested? host config invocation.command = some answer) :
    (∀ error, answer = .error error →
      (∀ count, error ≠ .invalidMessages count) ∧
        run host invocation = ({ output := "", result := .error error }, host.files)) ∧
    ∀ messages, answer = .ok messages →
      (∃ invalid, Reported host invocation config (messages.map Requested.outcome) invalid
        (run host invocation).1) ∧
      (run host invocation).2 = host.files ∧
      ((∀ found, .commit found ∈ messages → host.Stores found) ↔
        ¬AsksInVain host invocation.command) ∧
      (AsksInVain host invocation.command → messages = [.commit ⟨"", ""⟩]) := by
  rw [run_of_requested configured asked]
  constructor
  · intro error failed
    subst failed
    exact ⟨not_invalid_of_requested asked, rfl⟩
  · intro messages ok
    subst ok
    exact ⟨⟨_, reported_concluded host invocation config _⟩, rfl,
      stores_iff_not_inVain identified asked, eq_of_inVain identified asked⟩

open Repository (crissCross crissCrossHost crissCrossRepository identified_crissCross)

def checkOf (target : String) : Invocation where
  command := .check { target, byCommand := true }

theorem requested?_checkOf {target : String} (single : ¬"..".toList <:+: target.toList) :
    requested? host config (checkOf target).command =
      some (((Log.source host).commit target).map fun found => [.commit found]) := by
  have isRange : CheckTarget.isRange { target, byCommand := true } = false :=
    Text.occursIn_eq_false_iff.mpr single
  change some (retrieved (Log.source host) target (CheckTarget.isRange _)) = _
  rw [isRange]
  change some ((Source.commits _ [target]).map _) = _
  rw [Source.commits_singleton]
  cases (Log.source host).commit target <;> rfl

theorem configuration_checkOf (target : String) :
    configuration crissCrossHost (checkOf target) = .ok {} := by
  cbv

theorem run_reports_or_fails_crissCross :
    (∀ error, (.ok [.commit ⟨crissCross.sha 1, "\n[BUG] a"⟩] : Except Error (List Requested)) =
        .error error →
      (∀ count, error ≠ .invalidMessages count) ∧
        run crissCrossHost (checkOf (crissCross.sha 1)) =
          ({ output := "", result := .error error }, crissCrossHost.files)) ∧
    ∀ messages, (.ok [.commit ⟨crissCross.sha 1, "\n[BUG] a"⟩] : Except Error (List Requested)) =
        .ok messages →
      (∃ invalid, Reported crissCrossHost (checkOf (crissCross.sha 1)) {}
        (messages.map Requested.outcome) invalid
        (run crissCrossHost (checkOf (crissCross.sha 1))).1) ∧
      (run crissCrossHost (checkOf (crissCross.sha 1))).2 = crissCrossHost.files ∧
      ((∀ found, .commit found ∈ messages → crissCrossHost.Stores found) ↔
        ¬AsksInVain crissCrossHost (checkOf (crissCross.sha 1)).command) ∧
      (AsksInVain crissCrossHost (checkOf (crissCross.sha 1)).command →
        messages = [.commit ⟨"", ""⟩]) := by
  have asked : requested? crissCrossHost {} (checkOf (crissCross.sha 1)).command =
      some (.ok [.commit ⟨crissCross.sha 1, "\n[BUG] a"⟩]) := by
    rw [requested?_checkOf (by decide), logged_crissCross]
    rfl
  exact run_reports_or_fails Log.identified_crissCrossHost (configuration_checkOf _) asked

def excludedCommit : String :=
  "^" ++ crissCross.sha 1

theorem selection?_excludedCommit :
    Log.selection? crissCrossSetting excludedCommit.toList = some (.commits [] [1]) := by
  have reading : Log.reading crissCrossSetting.repository excludedCommit.toList =
      .ok ⟨some (crissCross.sha 1).toList, .commits [] [1]⟩ := by cbv
  unfold Log.selection?
  rw [reading]
  exact if_pos isNoFile_crissCross

theorem commit_excludedCommit :
    Log.newestOutput? crissCrossHost excludedCommit = some [] ∧
      (Log.source crissCrossHost).commit excludedCommit = .ok ⟨"", ""⟩ := by
  have nothing : Log.selected crissCross (.commits [] [1]) = [] := by
    apply Log.selected_eq_nil_iff.mpr
    intro start impossible
    cases impossible
  constructor
  · apply (Log.logged?_map_eq_some_iff one_crissCross.found).mpr
    refine ⟨by decide, _, selection?_excludedCommit, ?_⟩
    exact congrArg (fun commits => (commits.head?.map (Log.entry crissCross)).getD []) nothing
  · apply (@Log.commit_eq_ok_iff crissCrossSetting _ one_crissCross.found identified_crissCross
      _ _).mpr
    refine ⟨⟨by decide, by decide, by decide⟩, _, selection?_excludedCommit, ?_⟩
    exact (congrArg (fun commits => Log.answer crissCross commits.head?) nothing).symm

/-- The command prints nothing, and a report on a message that was not found is printed. -/
theorem excluded_commit_is_reported :
    configuration crissCrossHost (checkOf excludedCommit) = .ok {} ∧
      Log.newestOutput? crissCrossHost excludedCommit = some [] ∧
      run crissCrossHost (checkOf excludedCommit) =
        ({ output := report crissCrossHost (checkOf excludedCommit) {}
            [⟨"", some "", none, [.invalidSummaryFormat, .missingOrInvalidType]⟩]
           result := .error (.invalidMessages 1) }, crissCrossHost.files) := by
  have configured := configuration_checkOf excludedCommit
  obtain ⟨unprinted, answered⟩ := commit_excludedCommit
  have asked : requested? crissCrossHost {} (checkOf excludedCommit).command =
      some (.ok [.commit ⟨"", ""⟩]) := by
    rw [requested?_checkOf (by decide), answered]
    rfl
  refine ⟨configured, unprinted, ?_⟩
  rw [run_of_requested configured asked]
  rfl

end Program

end CommitCheck
