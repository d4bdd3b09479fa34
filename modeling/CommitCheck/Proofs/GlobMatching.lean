import CommitCheck.Glob.Match
import Mathlib.Data.List.Infix

set_option autoImplicit false

/-! What a glob pattern matches, said element by element without regard to how a match is found. The
matcher keeps one answer for every text that the name ends with; here each of them is what the
elements so far take, and so the answer for the whole name is what the pattern takes. -/

namespace CommitCheck.Glob

/-- The elements of a pattern take a name, each its part of it from left to right. -/
inductive Takes : List Token → List Char → Prop where
  | nothing : Takes [] []
  | literal {pattern : List Token} {cs : List Char} (c : Char) :
      Takes pattern cs → Takes (.literal c :: pattern) (c :: cs)
  | anyChar {pattern : List Token} {cs : List Char} (c : Char) :
      Takes pattern cs → Takes (.anyChar :: pattern) (c :: cs)
  | anySequence {pattern : List Token} {cs : List Char} (run : List Char) :
      Takes pattern cs → Takes (.anySequence :: pattern) (run ++ cs)
  | noPath {pattern : List Token} {cs : List Char} :
      Takes pattern cs → Takes (.anyPath :: pattern) cs
  | path {pattern : List Token} {cs : List Char} (run : List Char) :
      Takes pattern cs → Takes (.anyPath :: pattern) (run ++ '/' :: cs)
  | wholePath {pattern : List Token} (run : List Char) :
      Takes pattern [] → Takes (.anyPath :: pattern) run
  | oneOf {pattern : List Token} {cs : List Char} {members : List SetMember} (c : Char) :
      (∃ member ∈ members, member.holds c = true) → Takes pattern cs →
        Takes (.oneOf members :: pattern) (c :: cs)
  | noneOf {pattern : List Token} {cs : List Char} {members : List SetMember} (c : Char) :
      (∀ member ∈ members, member.holds c = false) → Takes pattern cs →
        Takes (.noneOf members :: pattern) (c :: cs)

theorem answers_eq_map_tails (pattern : List Token) (name : List Char) :
    answers pattern name = name.tails.map (matchesAll pattern) := by
  induction name with
  | nil =>
      have single := length_answers pattern []
      obtain ⟨answer, alone⟩ := List.length_eq_one_iff.mp single
      change answers pattern [] = [matchesAll pattern []]
      rw [matchesAll, alone]
      rfl
  | cons c cs ih => rw [answers_cons, ih, List.tails_cons, List.map_cons]

private theorem headD_map_tails (later : List Char → Bool) (name : List Char) :
    (name.tails.map later).headD false = later name := by
  cases name <;> rfl

private def stepped (test : Char → Bool) (later : List Char → Bool) : List Char → Bool
  | [] => false
  | c :: cs => test c && later cs

private theorem afterOne_map_tails (test : Char → Bool) (later : List Char → Bool)
    (name : List Char) :
    afterOne test name (name.tails.map later) = name.tails.map (stepped test later) := by
  induction name with
  | nil => rfl
  | cons c cs ih =>
      rw [List.tails_cons, List.map_cons, List.map_cons, afterOne, ih, headD_map_tails]
      rfl

private theorem headD_afterAny (later : List Bool) :
    (afterAny later).headD false = later.any id := by
  induction later with
  | nil => rfl
  | cons answer later ih =>
      rw [afterAny, List.headD_cons, ih, List.any_cons]
      rfl

private theorem headD_afterAny_map_tails {later : List Char → Bool} {name : List Char} :
    (afterAny (name.tails.map later)).headD false = true ↔
      ∃ run cs, name = run ++ cs ∧ later cs = true := by
  rw [headD_afterAny, List.any_eq_true]
  constructor
  · intro found
    obtain ⟨answer, member, yes⟩ := found
    obtain ⟨cs, ending, rfl⟩ := List.mem_map.mp member
    obtain ⟨run, whole⟩ := (List.mem_tails cs name).mp ending
    exact ⟨run, cs, whole.symm, yes⟩
  · intro found
    obtain ⟨run, cs, rfl, yes⟩ := found
    exact ⟨later cs,
      List.mem_map_of_mem ((List.mem_tails cs (run ++ cs)).mpr (List.suffix_append run cs)), yes⟩

private theorem getLastD_map_tails (later : List Char → Bool) (name : List Char) :
    (name.tails.map later).getLastD false = later [] := by
  induction name with
  | nil => rfl
  | cons c cs ih =>
      have nonempty : cs.tails.map later ≠ [] := by cases cs <;> simp
      obtain ⟨answer, others, split⟩ := List.exists_cons_of_ne_nil nonempty
      rw [split] at ih
      rw [List.tails_cons, List.map_cons, split]
      exact ih

private theorem headD_afterPath (name : List Char) (later : List Char → Bool) :
    (afterPath name (name.tails.map later)).headD false =
      ((name.tails.map later).headD false ||
        (afterAny (afterOne (· == '/') name (name.tails.map later))).headD false ||
        (name.tails.map later).getLastD false) := by
  unfold afterPath
  cases name <;> rfl

section Elements

variable {pattern : List Token} {name : List Char}

private theorem headD_afterOne_answers {test : Char → Bool} :
    (afterOne test name (answers pattern name)).headD false = true ↔
      ∃ c cs, name = c :: cs ∧ test c = true ∧ matchesAll pattern cs = true := by
  rw [answers_eq_map_tails, afterOne_map_tails]
  cases name with
  | nil =>
      refine iff_of_false Bool.false_ne_true ?_
      intro impossible
      obtain ⟨c, cs, same, -⟩ := impossible
      cases same
  | cons c cs =>
      change (test c && matchesAll pattern cs) = true ↔ _
      rw [Bool.and_eq_true]
      constructor
      · intro both
        exact ⟨c, cs, rfl, both⟩
      · intro split
        obtain ⟨d, ds, same, both⟩ := split
        cases same
        exact both

theorem matchesAll_anySequence_iff :
    matchesAll (.anySequence :: pattern) name = true ↔
      ∃ run cs, name = run ++ cs ∧ matchesAll pattern cs = true := by
  change (afterAny (answers pattern name)).headD false = true ↔ _
  rw [answers_eq_map_tails, headD_afterAny_map_tails]

theorem matchesAll_anyPath_iff :
    matchesAll (.anyPath :: pattern) name = true ↔
      matchesAll pattern name = true ∨
      (∃ run cs, name = run ++ '/' :: cs ∧ matchesAll pattern cs = true) ∨
      matchesAll pattern [] = true := by
  change (afterPath name (answers pattern name)).headD false = true ↔ _
  rw [answers_eq_map_tails, headD_afterPath, afterOne_map_tails, getLastD_map_tails,
    headD_map_tails, Bool.or_eq_true, Bool.or_eq_true, headD_afterAny_map_tails, or_assoc]
  refine or_congr_right (or_congr_left ?_)
  constructor
  · intro found
    obtain ⟨run, cs, whole, yes⟩ := found
    cases cs with
    | nil => cases yes
    | cons c cs =>
        obtain ⟨slash, yes⟩ := Bool.and_eq_true_iff.mp yes
        rw [eq_of_beq slash] at whole
        exact ⟨run, cs, whole, yes⟩
  · intro found
    obtain ⟨run, cs, whole, yes⟩ := found
    exact ⟨run, '/' :: cs, whole, yes⟩

end Elements

/-- The matcher says what the elements take. -/
theorem matchesAll_iff_takes {pattern : List Token} {name : List Char} :
    matchesAll pattern name = true ↔ Takes pattern name := by
  induction pattern generalizing name with
  | nil =>
      rw [matchesAll_nil, List.isEmpty_iff]
      constructor
      · intro empty
        subst empty
        exact .nothing
      · intro taken
        cases taken
        rfl
  | cons token pattern ih =>
      cases token with
      | literal d =>
          refine headD_afterOne_answers.trans ?_
          constructor
          · intro split
            obtain ⟨c, cs, rfl, same, later⟩ := split
            rw [eq_of_beq same]
            exact .literal d (ih.mp later)
          · intro taken
            cases taken with
            | literal _ later => exact ⟨_, _, rfl, beq_self_eq_true d, ih.mpr later⟩
      | anyChar =>
          refine headD_afterOne_answers.trans ?_
          constructor
          · intro split
            obtain ⟨c, cs, rfl, -, later⟩ := split
            exact .anyChar c (ih.mp later)
          · intro taken
            cases taken with
            | anyChar c later => exact ⟨c, _, rfl, rfl, ih.mpr later⟩
      | anySequence =>
          rw [matchesAll_anySequence_iff]
          constructor
          · intro split
            obtain ⟨run, cs, rfl, later⟩ := split
            exact .anySequence run (ih.mp later)
          · intro taken
            cases taken with
            | anySequence run later => exact ⟨run, _, rfl, ih.mpr later⟩
      | anyPath =>
          rw [matchesAll_anyPath_iff]
          constructor
          · intro split
            rcases split with none | ⟨run, cs, rfl, later⟩ | whole
            · exact .noPath (ih.mp none)
            · exact .path run (ih.mp later)
            · exact .wholePath name (ih.mp whole)
          · intro taken
            cases taken with
            | noPath later => exact Or.inl (ih.mpr later)
            | path run later => exact Or.inr (Or.inl ⟨run, _, rfl, ih.mpr later⟩)
            | wholePath run later => exact Or.inr (Or.inr (ih.mpr later))
      | oneOf members =>
          refine headD_afterOne_answers.trans ?_
          constructor
          · intro split
            obtain ⟨c, cs, rfl, inside, later⟩ := split
            exact .oneOf c (List.any_eq_true.mp inside) (ih.mp later)
          · intro taken
            cases taken with
            | oneOf c inside later =>
                exact ⟨c, _, rfl, List.any_eq_true.mpr inside, ih.mpr later⟩
      | noneOf members =>
          refine headD_afterOne_answers.trans ?_
          constructor
          · intro split
            obtain ⟨c, cs, rfl, outside, later⟩ := split
            rw [Bool.not_eq_true', List.any_eq_false] at outside
            exact .noneOf c (fun member inside => Bool.eq_false_iff.mpr (outside member inside))
              (ih.mp later)
          · intro taken
            cases taken with
            | noneOf c outside later =>
                refine ⟨c, _, rfl, ?_, ih.mpr later⟩
                rw [Bool.not_eq_true', List.any_eq_false]
                intro member inside
                exact Bool.eq_false_iff.mp (outside member inside)

end CommitCheck.Glob
