import CommitCheck.Build
import Mathlib.Data.List.Forall2

set_option autoImplicit false

/-! The plan of a build, said by the variables of its environment. A build is skipped exactly when it
is one of a pull request whose branch is ignored; any other build of a service that is known has
something to check, or one variable of that service is missing. No other variables count. -/

namespace CommitCheck.Build

/-- The text is `true`, each of its letters small or capital. -/
def SpellsTrue (value : String) : Prop :=
  List.Forall₂ (fun c letter => c = letter.1 ∨ c = letter.2) value.toList
    [('t', 'T'), ('r', 'R'), ('u', 'U'), ('e', 'E')]

inductive Detected (env : Environment) : Provider → Prop where
  | travis : env "TRAVIS" = some "true" → Detected env .travis
  | appVeyor {value : String} : env "TRAVIS" ≠ some "true" → env "APPVEYOR" = some value →
      SpellsTrue value → Detected env .appVeyor

namespace Provider

/-- The variable that says whether there is a pull request. -/
def requestVariable : Provider → String
  | travis => "TRAVIS_PULL_REQUEST"
  | appVeyor => "APPVEYOR_PULL_REQUEST_NUMBER"

def noRequest : Provider → String
  | travis => "false"
  | appVeyor => ""

def branchVariable : Provider → String
  | travis => "TRAVIS_PULL_REQUEST_BRANCH"
  | appVeyor => "APPVEYOR_PULL_REQUEST_HEAD_REPO_BRANCH"

/-- The variable with the range of a pull request, or with the branch that the range starts at. -/
def rangeVariable : Provider → String
  | travis => "TRAVIS_COMMIT_RANGE"
  | appVeyor => "APPVEYOR_REPO_BRANCH"

def commitVariable : Provider → String
  | travis => "TRAVIS_COMMIT"
  | appVeyor => "APPVEYOR_REPO_COMMIT"

def ownVariables (provider : Provider) : List String :=
  [provider.requestVariable, provider.branchVariable, provider.rangeVariable,
    provider.commitVariable]

def rangeOf : Provider → String → String
  | travis, value => value
  | appVeyor, value => value ++ "..HEAD"

end Provider

def Plan.target? : Plan → Option String
  | .skip _ => none
  | .range target | .commit target => some target

def ForPullRequest (env : Environment) (provider : Provider) : Prop :=
  ∃ value, env provider.requestVariable = some value ∧ value ≠ provider.noRequest

/-- The branch of the pull request is known, and it is one that is ignored. -/
structure FromIgnored (config : CiConfig) (env : Environment) (provider : Provider)
    (branch : String) : Prop where
  known : env provider.branchVariable = some branch
  nonempty : branch ≠ ""
  ignored : config.ignores branch = true

/-- A plan is made from the value of a variable, which must not be empty. -/
inductive Answers (env : Environment) (name : String) (toPlan : String → Plan) :
    Except BuildError Plan → Prop where
  | filled {value : String} : env name = some value → value ≠ "" →
      Answers env name toPlan (.ok (toPlan value))
  | empty : env name = some "" → Answers env name toPlan (.error (.missingVariable name))
  | unset : env name = none → Answers env name toPlan (.error (.missingVariable name))

def AreLetter (small capital : Char) : Prop :=
  small.toLower = small ∧ capital.toLower = small ∧ capital.val + 32 = small.val

theorem AreLetter.toLower_eq_iff {small capital : Char} (letter : AreLetter small capital)
    (c : Char) : c.toLower = small ↔ c = small ∨ c = capital := by
  obtain ⟨smallKept, capitalLowered, apart⟩ := letter
  constructor
  · intro lowered
    by_cases isCapital : c.val ≥ 'A'.val ∧ c.val ≤ 'Z'.val
    · right
      have value : c.toLower.val = c.val + 32 := by
        unfold Char.toLower
        rw [dif_pos isCapital]
        rfl
      rw [lowered, ← apart] at value
      exact Char.ext ((UInt32.add_left_inj 32).mp value.symm)
    · left
      unfold Char.toLower at lowered
      rwa [dif_neg isCapital] at lowered
  · intro either
    rcases either with rfl | rfl
    · exact smallKept
    · exact capitalLowered

theorem map_toLower_eq_iff {letters : List (Char × Char)}
    (paired : ∀ letter ∈ letters, AreLetter letter.1 letter.2) (cs : List Char) :
    cs.map Char.toLower = letters.map Prod.fst ↔
      List.Forall₂ (fun c letter => c = letter.1 ∨ c = letter.2) cs letters := by
  induction letters generalizing cs with
  | nil => rw [List.map_nil, List.map_eq_nil_iff, List.forall₂_nil_right_iff]
  | cons letter letters ih =>
      obtain ⟨first, others⟩ := List.forall_mem_cons.mp paired
      cases cs with
      | nil => simp
      | cons c cs =>
          rw [List.map_cons, List.map_cons, List.cons.injEq, List.forall₂_cons, ih others,
            first.toLower_eq_iff]

theorem sameIgnoringCase_true_iff {value : String} :
    sameIgnoringCase value "true" = true ↔ SpellsTrue value := by
  have paired : ∀ letter ∈ [('t', 'T'), ('r', 'R'), ('u', 'U'), ('e', 'E')],
      AreLetter letter.1 letter.2 := by
    unfold AreLetter
    decide
  unfold SpellsTrue
  rw [← map_toLower_eq_iff paired]
  unfold sameIgnoringCase
  rw [beq_iff_eq]
  rfl

/-! ### Single variables -/

section Variables

variable {config : CiConfig} {env : Environment} {provider : Provider}

theorem filled?_eq_some_iff {name value : String} :
    filled? env name = some value ↔ env name = some value ∧ value ≠ "" := by
  unfold filled?
  rw [Option.filter_eq_some_iff, Bool.not_eq_true', String.isEmpty_eq_false_iff]

theorem provider?_eq_some_iff : provider? env = some provider ↔ Detected env provider := by
  unfold provider?
  by_cases travis : env "TRAVIS" = some "true"
  · rw [if_pos (beq_iff_eq.mpr travis)]
    constructor
    · intro same
      cases same
      exact .travis travis
    · intro detected
      cases detected with
      | travis => rfl
      | appVeyor other => exact absurd travis other
  · rw [if_neg (fun same => travis (beq_iff_eq.mp same))]
    by_cases appVeyor : (env "APPVEYOR").any (sameIgnoringCase · "true") = true
    · rw [if_pos appVeyor]
      obtain ⟨value, set, spelled⟩ := (Option.any_eq_true _ _).mp appVeyor
      constructor
      · intro same
        cases same
        exact .appVeyor travis set (sameIgnoringCase_true_iff.mp spelled)
      · intro detected
        cases detected with
        | travis other => exact absurd other travis
        | appVeyor => rfl
    · rw [if_neg appVeyor]
      constructor
      · intro impossible
        cases impossible
      · intro detected
        cases detected with
        | travis other => exact absurd other travis
        | appVeyor other set spelled =>
            exact absurd ((Option.any_eq_true _ _).mpr
              ⟨_, set, sameIgnoringCase_true_iff.mpr spelled⟩) appVeyor

private theorem isPullRequest_eq (env : Environment) (provider : Provider) :
    isPullRequest env provider =
      (env provider.requestVariable).any (· != provider.noRequest) := by
  cases provider with
  | travis => rfl
  | appVeyor =>
      change (filled? env "APPVEYOR_PULL_REQUEST_NUMBER").isSome =
        (env "APPVEYOR_PULL_REQUEST_NUMBER").any (· != "")
      rw [Bool.eq_iff_iff, Option.isSome_iff_exists, Option.any_eq_true]
      simp only [filled?_eq_some_iff, bne_iff_ne]

private theorem pullRequestRange_eq (env : Environment) (provider : Provider) :
    (pullRequestRange env provider).map Plan.range =
      (require env provider.rangeVariable).map fun value => .range (provider.rangeOf value) := by
  cases provider with
  | travis => rfl
  | appVeyor =>
      change ((require env "APPVEYOR_REPO_BRANCH").map (· ++ "..HEAD")).map Plan.range =
        (require env "APPVEYOR_REPO_BRANCH").map _
      cases require env "APPVEYOR_REPO_BRANCH" <;> rfl

theorem planFor_eq (config : CiConfig) (env : Environment) (provider : Provider) :
    planFor config env provider =
      if (env provider.requestVariable).any (· != provider.noRequest) then
        match (filled? env provider.branchVariable).filter config.ignores with
        | some branch => .ok (.skip (skipReason branch))
        | none =>
            (require env provider.rangeVariable).map fun value => .range (provider.rangeOf value)
      else (require env provider.commitVariable).map .commit := by
  have branch : sourceBranch? env provider = filled? env provider.branchVariable := by
    cases provider <;> rfl
  have commit : pushedCommit env provider = require env provider.commitVariable := by
    cases provider <;> rfl
  rw [← isPullRequest_eq, ← branch, ← pullRequestRange_eq, ← commit]
  rfl

theorem forPullRequest_iff :
    (env provider.requestVariable).any (· != provider.noRequest) = true ↔
      ForPullRequest env provider := by
  rw [Option.any_eq_true]
  unfold ForPullRequest
  simp only [bne_iff_ne]

theorem ignoredBranch_eq_some_iff {branch : String} :
    (filled? env provider.branchVariable).filter config.ignores = some branch ↔
      FromIgnored config env provider branch := by
  rw [Option.filter_eq_some_iff, filled?_eq_some_iff]
  constructor
  · intro both
    exact ⟨both.1.1, both.1.2, both.2⟩
  · intro ignored
    exact ⟨⟨ignored.known, ignored.nonempty⟩, ignored.ignored⟩

theorem answers_require (name : String) (toPlan : String → Plan) :
    Answers env name toPlan ((require env name).map toPlan) := by
  unfold require
  cases filled : filled? env name with
  | some value =>
      obtain ⟨set, nonempty⟩ := filled?_eq_some_iff.mp filled
      exact .filled set nonempty
  | none =>
      cases set : env name with
      | none => exact .unset set
      | some value =>
          by_cases empty : value = ""
          · subst empty
            exact .empty set
          · rw [filled?_eq_some_iff.mpr ⟨set, empty⟩] at filled
            cases filled

/-! ### Plans -/

theorem Answers.target {toPlan : String → Plan} {name : String} {made : Plan}
    {result : Except BuildError Plan} (answers : Answers env name toPlan result)
    (planned : result = .ok made) : ∃ value, value ≠ "" ∧ made = toPlan value := by
  cases answers with
  | filled set nonempty =>
      cases planned
      exact ⟨_, nonempty, rfl⟩
  | empty | unset => cases planned

theorem Answers.detected {toPlan : String → Plan} {name : String}
    {result : Except BuildError Plan} (answers : Answers env name toPlan result) :
    result ≠ .error .notDetected := by
  intro planned
  cases answers <;> cases planned

theorem planFor_of_ignored {branch : String} (request : ForPullRequest env provider)
    (ignored : FromIgnored config env provider branch) :
    planFor config env provider = .ok (.skip (skipReason branch)) := by
  rw [planFor_eq, if_pos (forPullRequest_iff.mpr request),
    ignoredBranch_eq_some_iff.mpr ignored]

theorem planFor_of_request (request : ForPullRequest env provider)
    (heeded : ¬∃ branch, FromIgnored config env provider branch) :
    Answers env provider.rangeVariable (fun value => .range (provider.rangeOf value))
      (planFor config env provider) := by
  have none : (filled? env provider.branchVariable).filter config.ignores = none := by
    rw [Option.eq_none_iff_forall_ne_some]
    intro branch found
    exact heeded ⟨branch, ignoredBranch_eq_some_iff.mp found⟩
  rw [planFor_eq, if_pos (forPullRequest_iff.mpr request), none]
  exact answers_require _ _

theorem planFor_of_push (push : ¬ForPullRequest env provider) :
    Answers env provider.commitVariable .commit (planFor config env provider) := by
  rw [planFor_eq, if_neg (fun request => push (forPullRequest_iff.mp request))]
  exact answers_require _ _

theorem planFor_cases (config : CiConfig) (env : Environment) (provider : Provider) :
    (∃ branch, ForPullRequest env provider ∧ FromIgnored config env provider branch ∧
      planFor config env provider = .ok (.skip (skipReason branch))) ∨
    (ForPullRequest env provider ∧ (¬∃ branch, FromIgnored config env provider branch) ∧
      Answers env provider.rangeVariable (fun value => .range (provider.rangeOf value))
        (planFor config env provider)) ∨
    (¬ForPullRequest env provider ∧
      Answers env provider.commitVariable .commit (planFor config env provider)) := by
  by_cases request : ForPullRequest env provider
  · by_cases heeded : ∃ branch, FromIgnored config env provider branch
    · obtain ⟨branch, ignored⟩ := heeded
      exact Or.inl ⟨branch, request, ignored, planFor_of_ignored request ignored⟩
    · exact Or.inr (Or.inl ⟨request, heeded, planFor_of_request request heeded⟩)
  · exact Or.inr (Or.inr ⟨request, planFor_of_push request⟩)

theorem planFor_eq_skip_iff {reason : String} :
    planFor config env provider = .ok (.skip reason) ↔
      ∃ branch, ForPullRequest env provider ∧ FromIgnored config env provider branch ∧
        reason = skipReason branch := by
  constructor
  · intro skipped
    rcases planFor_cases config env provider with
      ⟨branch, request, ignored, planned⟩ | ⟨-, -, answers⟩ | ⟨-, answers⟩
    · rw [planned] at skipped
      cases skipped
      exact ⟨branch, request, ignored, rfl⟩
    · obtain ⟨value, -, impossible⟩ := answers.target skipped
      cases impossible
    · obtain ⟨value, -, impossible⟩ := answers.target skipped
      cases impossible
  · intro ignored
    obtain ⟨branch, request, fromIgnored, rfl⟩ := ignored
    exact planFor_of_ignored request fromIgnored

theorem planFor_target_ne_empty {made : Plan} (planned : planFor config env provider = .ok made) :
    made.target? ≠ some "" := by
  rcases planFor_cases config env provider with
    ⟨branch, -, -, skipped⟩ | ⟨-, -, answers⟩ | ⟨-, answers⟩
  · rw [skipped] at planned
    cases planned
    intro impossible
    cases impossible
  · obtain ⟨value, nonempty, rfl⟩ := answers.target planned
    intro same
    have empty : provider.rangeOf value = "" := Option.some.inj same
    cases provider with
    | travis => exact nonempty empty
    | appVeyor => exact nonempty (String.append_eq_empty_iff.mp empty).1
  · obtain ⟨value, nonempty, rfl⟩ := answers.target planned
    intro same
    exact nonempty (Option.some.inj same)

theorem planFor_ne_notDetected : planFor config env provider ≠ .error .notDetected := by
  rcases planFor_cases config env provider with
    ⟨branch, -, -, skipped⟩ | ⟨-, -, answers⟩ | ⟨-, answers⟩
  · rw [skipped]
    intro impossible
    cases impossible
  · exact answers.detected
  · exact answers.detected

theorem plan_of_detected (detected : Detected env provider) :
    plan config env = planFor config env provider := by
  unfold plan
  rw [provider?_eq_some_iff.mpr detected]

theorem plan_of_undetected (undetected : ∀ provider, ¬Detected env provider) :
    plan config env = .error .notDetected := by
  unfold plan
  cases found : provider? env with
  | none => rfl
  | some provider => exact absurd (provider?_eq_some_iff.mp found) (undetected provider)

theorem exists_detected_of_ok {made : Plan} (planned : plan config env = .ok made) :
    ∃ provider, Detected env provider ∧ plan config env = planFor config env provider := by
  by_contra missing
  have undetected : plan config env = .error .notDetected :=
    plan_of_undetected fun provider detected =>
      missing ⟨provider, detected, plan_of_detected detected⟩
  rw [undetected] at planned
  cases planned

variable {other : Environment}

theorem planFor_congr (same : ∀ name ∈ provider.ownVariables, other name = env name) :
    planFor config other provider = planFor config env provider := by
  have filled (name : String) (member : name ∈ provider.ownVariables) :
      filled? other name = filled? env name := by
    unfold filled?
    rw [same name member]
  rw [planFor_eq, planFor_eq]
  unfold require
  rw [same provider.requestVariable (by simp [Provider.ownVariables]),
    filled provider.branchVariable (by simp [Provider.ownVariables]),
    filled provider.rangeVariable (by simp [Provider.ownVariables]),
    filled provider.commitVariable (by simp [Provider.ownVariables])]

theorem plan_congr (travis : other "TRAVIS" = env "TRAVIS")
    (appVeyor : other "APPVEYOR" = env "APPVEYOR")
    (same : ∀ provider, Detected env provider → ∀ name ∈ provider.ownVariables,
      other name = env name) : plan config other = plan config env := by
  have detection : provider? other = provider? env := by
    unfold provider?
    rw [travis, appVeyor]
  unfold plan
  rw [detection]
  cases found : provider? env with
  | none => rfl
  | some provider => exact planFor_congr (same provider (provider?_eq_some_iff.mp found))

end Variables

/-- A build is skipped exactly when it is one of a pull request from an ignored branch, whatever else
is set. Any other build of a service that is known is answered by the one variable that says what to
check; without a service none is detected. No plan has an empty target, and none depends on other
variables than those of its service. -/
theorem plan_by_variables (config : CiConfig) (env : Environment) :
    (∀ reason, plan config env = .ok (.skip reason) ↔
      ∃ provider branch, Detected env provider ∧ ForPullRequest env provider ∧
        FromIgnored config env provider branch ∧
        reason = "Not checking commit messages as pull requests from '" ++ branch ++
          "' are ignored") ∧
    (∀ provider, Detected env provider →
      (ForPullRequest env provider → (¬∃ branch, FromIgnored config env provider branch) →
        Answers env provider.rangeVariable (fun value => .range (provider.rangeOf value))
          (plan config env)) ∧
      (¬ForPullRequest env provider →
        Answers env provider.commitVariable .commit (plan config env))) ∧
    (plan config env = .error .notDetected ↔ ∀ provider, ¬Detected env provider) ∧
    (∀ made, plan config env = .ok made → made.target? ≠ some "") ∧
    ∀ other : Environment, other "TRAVIS" = env "TRAVIS" → other "APPVEYOR" = env "APPVEYOR" →
      (∀ provider, Detected env provider → ∀ name ∈ provider.ownVariables,
        other name = env name) → plan config other = plan config env := by
  refine ⟨?_, ?_, ?_, ?_, fun other travis appVeyor same => plan_congr travis appVeyor same⟩
  · intro reason
    constructor
    · intro skipped
      obtain ⟨provider, detected, planned⟩ := exists_detected_of_ok skipped
      rw [planned] at skipped
      obtain ⟨branch, request, ignored, same⟩ := planFor_eq_skip_iff.mp skipped
      exact ⟨provider, branch, detected, request, ignored, same⟩
    · intro skipped
      obtain ⟨provider, branch, detected, request, ignored, same⟩ := skipped
      rw [plan_of_detected detected]
      exact planFor_eq_skip_iff.mpr ⟨branch, request, ignored, same⟩
  · intro provider detected
    rw [plan_of_detected detected]
    exact ⟨planFor_of_request, planFor_of_push⟩
  · constructor
    · intro planned provider detected
      rw [plan_of_detected detected] at planned
      exact planFor_ne_notDetected planned
    · exact plan_of_undetected
  · intro made planned
    obtain ⟨provider, detected, same⟩ := exists_detected_of_ok planned
    exact planFor_target_ne_empty (same.symm.trans planned)

def withoutRange : Environment := fun name =>
  [("TRAVIS", "true"), ("TRAVIS_PULL_REQUEST", "42"),
    ("TRAVIS_PULL_REQUEST_BRANCH", "develop")].lookup name

theorem plan_by_variables_withoutRange :
    Detected withoutRange .travis ∧ ForPullRequest withoutRange .travis ∧
      FromIgnored {} withoutRange .travis "develop" ∧
      withoutRange Provider.travis.rangeVariable = none ∧
      plan {} withoutRange =
        .ok (.skip "Not checking commit messages as pull requests from 'develop' are ignored") := by
  have detected : Detected withoutRange .travis := .travis rfl
  have request : ForPullRequest withoutRange .travis := ⟨"42", rfl, by decide⟩
  have ignored : FromIgnored {} withoutRange .travis "develop" :=
    ⟨rfl, by decide, by cbv⟩
  exact ⟨detected, request, ignored, rfl,
    ((plan_by_variables {} withoutRange).1 _).mpr
      ⟨.travis, "develop", detected, request, ignored, by decide⟩⟩

end CommitCheck.Build
