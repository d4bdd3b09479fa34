import CommitCheck.Config.Decode
import CommitCheck.Proofs.GlobMatching

set_option autoImplicit false

/-! Branch patterns of a configuration. A configuration that is accepted has only patterns that are
glob patterns, so none of them is dead: a branch is ignored when it is one of them or is taken by one
of them. A pattern that is none is reported, the first of several. -/

namespace CommitCheck

namespace Config

def Compiles (pattern : String) : Prop :=
  ∃ elements, Glob.tokens pattern.toList = .ok elements

def decoded? (text : String) : Option Config :=
  (Toml.entries? text.toList).bind ofEntries?

/-- The pattern is refused, and none in front of it is. -/
structure FirstRefused (patterns : List String) (pattern : String)
    (problem : Glob.PatternError) : Prop where
  refused : Glob.tokens pattern.toList = .error problem
  first : ∃ before after, patterns = before ++ pattern :: after ∧
    ∀ earlier ∈ before, Compiles earlier

theorem patternError?_of_compiles {pattern : String} (compiles : Compiles pattern) :
    patternError? pattern = none := by
  obtain ⟨elements, compiled⟩ := compiles
  unfold patternError?
  rw [compiled]

theorem patternError?_of_refused {pattern : String} {problem : Glob.PatternError}
    (refused : Glob.tokens pattern.toList = .error problem) :
    patternError? pattern =
      some (.invalidValue branchKey ("'" ++ pattern ++ "': " ++ problem.message)) := by
  unfold patternError?
  rw [refused]

theorem not_compiles_of_refused {pattern : String} {problem : Glob.PatternError}
    (refused : Glob.tokens pattern.toList = .error problem) : ¬Compiles pattern := by
  intro compiles
  obtain ⟨elements, compiled⟩ := compiles
  rw [refused] at compiled
  cases compiled

theorem compile_defaults : ∀ pattern ∈ ({} : CiConfig).ignoredBranches, Compiles pattern := by
  have master : Glob.tokens "master".toList = .ok ("master".toList.map .literal) := by cbv
  have develop : Glob.tokens "develop".toList = .ok ("develop".toList.map .literal) := by cbv
  intro pattern member
  rcases List.mem_pair.mp member with rfl | rfl
  · exact ⟨_, master⟩
  · exact ⟨_, develop⟩

theorem compile_or_firstRefused (patterns : List String) :
    (∀ pattern ∈ patterns, Compiles pattern) ∨
      ∃ pattern problem, FirstRefused patterns pattern problem := by
  induction patterns with
  | nil =>
      left
      intro pattern impossible
      cases impossible
  | cons pattern patterns ih =>
      cases compiled : Glob.tokens pattern.toList with
      | error problem =>
          right
          refine ⟨pattern, problem, compiled, [], patterns, rfl, ?_⟩
          intro earlier impossible
          cases impossible
      | ok elements =>
          rcases ih with all | ⟨other, problem, refused, before, after, rfl, compile⟩
          · exact Or.inl (List.forall_mem_cons.mpr ⟨⟨elements, compiled⟩, all⟩)
          · right
            exact ⟨other, problem, refused, pattern :: before, after, rfl,
              List.forall_mem_cons.mpr ⟨⟨elements, compiled⟩, compile⟩⟩

theorem parse_of_compile {text : String} {diagnosis : String → String} {config : Config}
    (decoded : decoded? text = some config)
    (compile : ∀ pattern ∈ config.ci.ignoredBranches, Compiles pattern) :
    parse text diagnosis = .ok config := by
  have clean : config.ci.ignoredBranches.findSome? patternError? = none :=
    List.findSome?_eq_none_iff.mpr fun pattern member =>
      patternError?_of_compiles (compile pattern member)
  unfold decoded? at decoded
  unfold parse
  rw [decoded]
  simp only [clean]

theorem parse_of_firstRefused {text : String} {diagnosis : String → String} {config : Config}
    {pattern : String} {problem : Glob.PatternError} (decoded : decoded? text = some config)
    (refused : FirstRefused config.ci.ignoredBranches pattern problem) :
    parse text diagnosis =
      .error (.invalidValue branchKey ("'" ++ pattern ++ "': " ++ problem.message)) := by
  have reported : config.ci.ignoredBranches.findSome? patternError? =
      some (.invalidValue branchKey ("'" ++ pattern ++ "': " ++ problem.message)) := by
    obtain ⟨before, after, whole, compile⟩ := refused.first
    have clean : before.findSome? patternError? = none :=
      List.findSome?_eq_none_iff.mpr fun earlier member =>
        patternError?_of_compiles (compile earlier member)
    rw [whole, List.findSome?_append, clean, Option.none_or,
      List.findSome?_cons_of_isSome (patternError?_of_refused refused.refused ▸ rfl)]
    exact patternError?_of_refused refused.refused
  unfold decoded? at decoded
  unfold parse
  rw [decoded]
  simp only [reported]

theorem decoded?_of_parse {text : String} {diagnosis : String → String} {config : Config}
    (parsed : parse text diagnosis = .ok config) : decoded? text = some config := by
  unfold parse at parsed
  unfold decoded?
  split at parsed
  · cases parsed
  · rename_i found
    split at parsed
    · cases parsed
    · cases parsed
      exact found

theorem parse_eq_ok_iff {text : String} {diagnosis : String → String} {config : Config} :
    parse text diagnosis = .ok config ↔
      decoded? text = some config ∧ ∀ pattern ∈ config.ci.ignoredBranches, Compiles pattern := by
  constructor
  · intro parsed
    have decoded := decoded?_of_parse parsed
    refine ⟨decoded, ?_⟩
    rcases compile_or_firstRefused config.ci.ignoredBranches with
      compile | ⟨pattern, problem, refused⟩
    · exact compile
    · rw [parse_of_firstRefused decoded refused] at parsed
      cases parsed
  · intro both
    exact parse_of_compile both.1 both.2

end Config

theorem Glob.accepts_iff {pattern name : List Char} :
    accepts pattern name = true ↔
      ∃ elements, tokens pattern = .ok elements ∧ Takes elements name := by
  unfold accepts
  constructor
  · intro accepted
    split at accepted
    · rename_i elements compiled
      exact ⟨elements, compiled, matchesAll_iff_takes.mp accepted⟩
    · cases accepted
  · intro taken
    obtain ⟨elements, compiled, taken⟩ := taken
    rw [compiled]
    exact matchesAll_iff_takes.mpr taken

theorem CiConfig.ignores_iff {config : CiConfig} {branch : String} :
    config.ignores branch = true ↔
      ∃ pattern ∈ config.ignoredBranches, pattern = branch ∨
        ∃ elements, Glob.tokens pattern.toList = .ok elements ∧
          Glob.Takes elements branch.toList := by
  unfold ignores
  rw [List.any_eq_true]
  simp only [Bool.or_eq_true, beq_iff_eq, Glob.accepts_iff]

namespace Config

/-- No pattern of an accepted configuration is dead, and a configuration with a pattern that does not
compile is refused for the first such pattern. -/
theorem no_dead_pattern (text : String) (diagnosis : String → String) :
    (∀ config, parse text diagnosis = .ok config →
      (∀ pattern ∈ config.ci.ignoredBranches, Compiles pattern) ∧
      ∀ branch, config.ci.ignores branch = true ↔
        ∃ pattern ∈ config.ci.ignoredBranches, pattern = branch ∨
          ∃ elements, Glob.tokens pattern.toList = .ok elements ∧
            Glob.Takes elements branch.toList) ∧
    ∀ config, decoded? text = some config →
      ((∀ pattern ∈ config.ci.ignoredBranches, Compiles pattern) → parse text diagnosis = .ok config) ∧
      ((∃ pattern ∈ config.ci.ignoredBranches, ¬Compiles pattern) →
        ∃ pattern problem, FirstRefused config.ci.ignoredBranches pattern problem ∧
          parse text diagnosis = .error (.invalidValue "ci.ignore_pull_requests_from_branches"
            ("'" ++ pattern ++ "': " ++ problem.message))) := by
  constructor
  · intro config parsed
    exact ⟨(parse_eq_ok_iff.mp parsed).2, fun _branch => CiConfig.ignores_iff⟩
  · intro config decoded
    refine ⟨parse_of_compile decoded, ?_⟩
    intro dead
    obtain ⟨pattern, member, refused⟩ := dead
    rcases compile_or_firstRefused config.ci.ignoredBranches with
      compile | ⟨first, problem, isFirst⟩
    · exact absurd (compile pattern member) refused
    · exact ⟨first, problem, isFirst, parse_of_firstRefused decoded isFirst⟩

def twoRefused : String :=
  "[ci]\nignore_pull_requests_from_branches = ['release/*', 'a**', '[']\n"

theorem no_dead_pattern_twoRefused :
    decoded? twoRefused = some { ci := ⟨["release/*", "a**", "["]⟩ } ∧
      (∃ pattern ∈ ["release/*", "a**", "["], ¬Compiles pattern) ∧
      (∃ pattern problem, FirstRefused ["release/*", "a**", "["] pattern problem ∧
        parse twoRefused = .error (.invalidValue "ci.ignore_pull_requests_from_branches"
          ("'" ++ pattern ++ "': " ++ problem.message))) ∧
      parse twoRefused = .error (.invalidValue "ci.ignore_pull_requests_from_branches"
        ("'a**': Pattern syntax error near position 0: " ++
          "recursive wildcards must form a single path component")) := by
  have decoded : decoded? twoRefused = some { ci := ⟨["release/*", "a**", "["]⟩ } := by
    decide +kernel
  have dead : ∃ pattern ∈ ["release/*", "a**", "["], ¬Compiles pattern := by
    have refused : Glob.tokens "[".toList = .error ⟨0, .unclosedSet⟩ := by cbv
    exact ⟨"[", by decide, not_compiles_of_refused refused⟩
  have first : FirstRefused ["release/*", "a**", "["] "a**" ⟨0, .partialComponent⟩ := by
    refine ⟨by cbv, ["release/*"], ["["], rfl, ?_⟩
    intro earlier member
    obtain rfl := List.mem_singleton.mp member
    have compiled : Glob.tokens "release/*".toList =
        .ok ("release/".toList.map .literal ++ [.anySequence]) := by cbv
    exact ⟨_, compiled⟩
  exact ⟨decoded, dead, ((no_dead_pattern twoRefused fun _ => "").2 _ decoded).2 dead,
    parse_of_firstRefused decoded first⟩

end Config

end CommitCheck
