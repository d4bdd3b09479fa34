import CommitCheck.Proofs.BranchPatterns
import Mathlib.Data.List.Forall2

set_option autoImplicit false

/-! Branch patterns with single wildcards. Where there are no sets and no two asterisks side by side,
a pattern ignores the branches that come out of it when each question mark is replaced with a
character and each asterisk with any run of characters. The pattern itself is one of them. -/

namespace CommitCheck

namespace Glob

/-- A pattern of literal characters, question marks and single asterisks. -/
structure IsWildcard (pattern : List Char) : Prop where
  noSet : '[' ∉ pattern
  single : ¬['*', '*'] <:+: pattern

/-- What can stand for a character of such a pattern. A run can be empty, and slashes are no
different from other characters. -/
inductive Replaces : Char → List Char → Prop where
  | one (c : Char) : Replaces '?' [c]
  | run (cs : List Char) : Replaces '*' cs
  | itself {c : Char} : c ≠ '?' → c ≠ '*' → Replaces c [c]

/-- The name comes out of the pattern when each character of it is replaced. -/
def Expands (pattern name : List Char) : Prop :=
  ∃ pieces, List.Forall₂ Replaces pattern pieces ∧ name = pieces.flatten

theorem IsWildcard.tail {c : Char} {rest : List Char} (wildcard : IsWildcard (c :: rest)) :
    IsWildcard rest :=
  { noSet := fun member => wildcard.noSet (List.mem_cons_of_mem c member)
    single := fun inside => wildcard.single (List.infix_cons inside) }

theorem IsWildcard.ne_star {rest : List Char} (wildcard : IsWildcard ('*' :: rest))
    (after : List Char) : rest ≠ '*' :: after := by
  intro same
  subst same
  exact wildcard.single (List.prefix_append ['*', '*'] after).isInfix

def wildcardToken (c : Char) : Token :=
  if c = '?' then .anyChar else if c = '*' then .anySequence else .literal c

theorem wildcardToken_of_literal {c : Char} (notOne : c ≠ '?') (notRun : c ≠ '*') :
    wildcardToken c = .literal c := by
  unfold wildcardToken
  rw [if_neg notOne, if_neg notRun]

theorem tokensFrom_wildcard {pattern : List Char} (wildcard : IsWildcard pattern) (position : Nat)
    (atComponent : Bool) :
    tokensFrom position atComponent pattern = .ok (pattern.map wildcardToken) := by
  induction pattern generalizing position atComponent with
  | nil => rw [tokensFrom, List.map_nil]
  | cons c rest ih =>
      have later := ih wildcard.tail
      by_cases one : c = '?'
      · subst one
        rw [tokensFrom, later]
        rfl
      · by_cases run : c = '*'
        · subst run
          have apart := wildcard.ne_star
          rw [tokensFrom, later]
          · rfl
          · exact fun after => apart ('*' :: after)
          · exact apart
        · have noSet : c ≠ '[' := fun same => wildcard.noSet (same ▸ List.mem_cons_self)
          rw [tokensFrom, later, List.map_cons, wildcardToken_of_literal one run]
          · rfl
          · exact one
          · exact fun _ same => absurd same run
          · exact fun _ same => absurd same run
          · exact run
          · exact noSet

theorem takes_wildcardToken_iff {c : Char} {elements : List Token} {name : List Char} :
    Takes (wildcardToken c :: elements) name ↔
      ∃ piece rest, Replaces c piece ∧ Takes elements rest ∧ name = piece ++ rest := by
  by_cases one : c = '?'
  · subst one
    change Takes (.anyChar :: elements) name ↔ _
    constructor
    · intro taken
      cases taken with
      | anyChar d later => exact ⟨[d], _, .one d, later, rfl⟩
    · intro split
      obtain ⟨piece, rest, replaced, later, rfl⟩ := split
      cases replaced with
      | one d => exact .anyChar d later
      | itself notOne => exact absurd rfl notOne
  · by_cases run : c = '*'
    · subst run
      change Takes (.anySequence :: elements) name ↔ _
      constructor
      · intro taken
        cases taken with
        | anySequence cs later => exact ⟨cs, _, .run cs, later, rfl⟩
      · intro split
        obtain ⟨piece, rest, -, later, rfl⟩ := split
        exact .anySequence piece later
    · rw [wildcardToken_of_literal one run]
      constructor
      · intro taken
        cases taken with
        | literal _ later => exact ⟨[c], _, .itself one run, later, rfl⟩
      · intro split
        obtain ⟨piece, rest, replaced, later, rfl⟩ := split
        cases replaced with
        | one => exact absurd rfl one
        | run => exact absurd rfl run
        | itself => exact .literal c later

theorem expands_nil_iff {name : List Char} : Expands [] name ↔ name = [] := by
  unfold Expands
  simp only [List.forall₂_nil_left_iff, exists_eq_left, List.flatten_nil]

theorem expands_cons_iff {c : Char} {pattern name : List Char} :
    Expands (c :: pattern) name ↔
      ∃ piece rest, Replaces c piece ∧ Expands pattern rest ∧ name = piece ++ rest := by
  constructor
  · intro expanded
    obtain ⟨pieces, replaced, rfl⟩ := expanded
    obtain ⟨piece, others, first, later, rfl⟩ := List.forall₂_cons_left_iff.mp replaced
    exact ⟨piece, others.flatten, first, ⟨others, later, rfl⟩, List.flatten_cons⟩
  · intro split
    obtain ⟨piece, rest, first, ⟨others, later, rfl⟩, rfl⟩ := split
    exact ⟨piece :: others, .cons first later, List.flatten_cons.symm⟩

theorem takes_wildcard_iff {pattern name : List Char} :
    Takes (pattern.map wildcardToken) name ↔ Expands pattern name := by
  induction pattern generalizing name with
  | nil =>
      rw [List.map_nil, expands_nil_iff]
      constructor
      · intro taken
        cases taken
        rfl
      · intro empty
        subst empty
        exact .nothing
  | cons c pattern ih =>
      rw [List.map_cons, takes_wildcardToken_iff, expands_cons_iff]
      simp only [ih]

theorem accepts_wildcard_iff {pattern name : List Char} (wildcard : IsWildcard pattern) :
    accepts pattern name = true ↔ Expands pattern name := by
  have read : tokens pattern = .ok (pattern.map wildcardToken) := tokensFrom_wildcard wildcard 0 true
  rw [accepts_iff, read, ← takes_wildcard_iff]
  constructor
  · intro taken
    obtain ⟨elements, same, taken⟩ := taken
    cases same
    exact taken
  · intro taken
    exact ⟨_, rfl, taken⟩

theorem expands_self (pattern : List Char) : Expands pattern pattern := by
  induction pattern with
  | nil => exact expands_nil_iff.mpr rfl
  | cons c pattern ih =>
      have kept : Replaces c [c] := by
        by_cases one : c = '?'
        · exact one ▸ .one '?'
        · by_cases run : c = '*'
          · exact run ▸ .run ['*']
          · exact .itself one run
      exact expands_cons_iff.mpr ⟨[c], pattern, kept, ih, rfl⟩

theorem expands_literal_iff {pattern name : List Char}
    (literal : ∀ c ∈ pattern, c ≠ '?' ∧ c ≠ '*') : Expands pattern name ↔ name = pattern := by
  induction pattern generalizing name with
  | nil => exact expands_nil_iff
  | cons c pattern ih =>
      obtain ⟨⟨notOne, notRun⟩, others⟩ := List.forall_mem_cons.mp literal
      rw [expands_cons_iff]
      constructor
      · intro split
        obtain ⟨piece, rest, replaced, later, rfl⟩ := split
        rw [(ih others).mp later]
        cases replaced with
        | one => exact absurd rfl notOne
        | run => exact absurd rfl notRun
        | itself => rfl
      · intro same
        subst same
        exact ⟨[c], pattern, .itself notOne notRun, (ih others).mpr rfl, rfl⟩

end Glob

namespace CiConfig

/-- A pattern with single wildcards ignores the branches that come out of it by replacing the
wildcards. That a branch may also be equal to the pattern adds nothing, and a pattern without
wildcards ignores the branch of that name alone. -/
theorem ignores_wildcard_iff {pattern : String} (wildcard : Glob.IsWildcard pattern.toList)
    (branch : String) :
    ((⟨[pattern]⟩ : CiConfig).ignores branch = true ↔
        Glob.Expands pattern.toList branch.toList) ∧
      (⟨[pattern]⟩ : CiConfig).ignores branch =
        Glob.accepts pattern.toList branch.toList ∧
      ((∀ c ∈ pattern.toList, c ≠ '?' ∧ c ≠ '*') →
        ((⟨[pattern]⟩ : CiConfig).ignores branch = true ↔ branch = pattern)) := by
  have accepted : Glob.accepts pattern.toList branch.toList = true ↔
      Glob.Expands pattern.toList branch.toList := Glob.accepts_wildcard_iff wildcard
  have whole : (⟨[pattern]⟩ : CiConfig).ignores branch =
      Glob.accepts pattern.toList branch.toList := by
    change (pattern == branch || Glob.accepts pattern.toList branch.toList || false) = _
    rw [Bool.or_false]
    by_cases same : pattern = branch
    · subst same
      rw [accepted.mpr (Glob.expands_self _), Bool.or_true]
    · rw [beq_false_of_ne same, Bool.false_or]
  refine ⟨whole ▸ accepted, whole, ?_⟩
  intro literal
  rw [whole, accepted, Glob.expands_literal_iff literal, String.toList_inj]

theorem ignores_wildcard_iff_twoRuns :
    Glob.IsWildcard "?*-*".toList ∧
      Glob.Expands "?*-*".toList "v1/a-b-".toList ∧
      (⟨["?*-*"]⟩ : CiConfig).ignores "v1/a-b-" = true := by
  have wildcard : Glob.IsWildcard "?*-*".toList := ⟨by decide, by decide⟩
  have replaced : List.Forall₂ Glob.Replaces ['?', '*', '-', '*']
      ["v".toList, "1/a".toList, "-".toList, "b-".toList] :=
    .cons (.one 'v') (.cons (.run _) (.cons (.itself (by decide) (by decide))
      (.cons (.run _) .nil)))
  have expanded : Glob.Expands "?*-*".toList "v1/a-b-".toList := ⟨_, replaced, by decide⟩
  exact ⟨wildcard, expanded, (ignores_wildcard_iff wildcard "v1/a-b-").1.mpr expanded⟩

end CiConfig

end CommitCheck
