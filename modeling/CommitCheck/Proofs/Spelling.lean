import CommitCheck.Proofs.Objects
import CommitCheck.Proofs.Search
import Mathlib.Data.List.TakeWhile

set_option autoImplicit false

/-! How revisions that lead to a commit are spelled. Behind a name, such a revision has steps of
three kinds only, and each of them has a text with an end of its own. No two dots follow each other
in the name, nor in the steps. -/

namespace CommitCheck.Revision

def kindWords : List String :=
  "" :: Kind.all.map Kind.word

def Step.IsPlain : Step → Prop
  | .back _ => True
  | .parent _ => True
  | .peel word => word ∈ kindWords
  | _ => False

/-- The text of a step. -/
inductive Spelling : List Char → Step → Prop where
  | back {digits : List Char} {count : Nat} : (∀ c ∈ digits, c.isDigit = true) →
      number? digits = some count → Spelling ('~' :: digits) (.back count)
  | parent {digits : List Char} {number : Nat} : (∀ c ∈ digits, c.isDigit = true) →
      number? digits = some number → Spelling ('^' :: digits) (.parent number)
  | peel {word : String} : word ∈ kindWords →
      Spelling ('^' :: '\x7b' :: (word.toList ++ ['\x7d'])) (.peel word)

/-- The text of several steps. There can be an at sign at its end. -/
inductive Spells : List Char → List Step → Prop where
  | nil : Spells [] []
  | sign : Spells ['@'] []
  | cons {text rest : List Char} {step : Step} {steps : List Step} :
      Spelling text step → Spells rest steps → Spells (text ++ rest) (step :: steps)

/-- What is left of a text that goes on in the given way spells steps. -/
def Within.Spells : Within → List Char → List Step → Prop
  | .between, cs, steps => Revision.Spells cs steps
  | .digits, cs, steps => Revision.Spells (cs.dropWhile Char.isDigit) steps
  | .braces kind, cs, steps => ∃ word rest others, cs = word ++ '\x7d' :: rest ∧
      steps = .peel (String.ofList (kind ++ word)) :: others ∧ Revision.Spells rest others

private theorem spells_of_head {within : Within} {c : Char} {cs : List Char} {steps : List Step}
    (outside : ∀ kind, within = .braces kind → False) (noDigit : c.isDigit = false)
    (spells : Spells (c :: cs) steps) : within.Spells (c :: cs) steps := by
  cases within with
  | between => exact spells
  | digits =>
      change Spells ((c :: cs).dropWhile Char.isDigit) steps
      rw [List.dropWhile_cons_of_neg (by rw [noDigit]; decide)]
      exact spells
  | braces kind => exact (outside kind rfl).elim

theorem number?_takeWhile (cs : List Char) :
    number? (cs.takeWhile Char.isDigit) = number? cs := by
  unfold number?
  rw [List.takeWhile_idem]

private theorem spells_numbered {mark : Char} {cs : List Char} {step : Step} {others : List Step}
    (spelling : Spelling (mark :: cs.takeWhile Char.isDigit) step)
    (rest : Within.digits.Spells cs others) : Spells (mark :: cs) (step :: others) := by
  have whole := Spells.cons spelling rest
  rw [List.cons_append, List.takeWhile_append_dropWhile] at whole
  exact whole

theorem spells_stepsFrom (within : Within) (cs : List Char) :
    (∀ step ∈ stepsFrom within cs, step.IsPlain) → within.Spells cs (stepsFrom within cs) := by
  have digits (cs : List Char) : ∀ c ∈ cs.takeWhile Char.isDigit, c.isDigit = true :=
    fun c member => List.mem_takeWhile_imp member
  fun_induction stepsFrom within cs with
  | case1 kind =>
      intro plain
      exact (plain .malformed List.mem_cons_self).elim
  | case2 kind cs ih =>
      intro plain
      refine ⟨[], cs, stepsFrom .between cs, rfl, ?_, ih (List.forall_mem_cons.mp plain).2⟩
      rw [List.append_nil]
  | case3 kind c cs inside ih =>
      intro plain
      obtain ⟨word, rest, others, rfl, same, spells⟩ := ih plain
      refine ⟨c :: word, rest, others, rfl, ?_, spells⟩
      rw [same, List.append_assoc]
      rfl
  | case4 within outside =>
      intro _
      cases within with
      | between => exact .nil
      | digits => exact .nil
      | braces kind => exact (outside kind rfl).elim
  | case5 within outside =>
      intro _
      exact spells_of_head outside (by decide) .sign
  | case6 within cs outside =>
      intro plain
      exact (plain _ List.mem_cons_self).elim
  | case7 within cs outside ih =>
      intro plain
      obtain ⟨first, others⟩ := List.forall_mem_cons.mp plain
      apply spells_of_head outside (by decide)
      cases found : number? cs with
      | none =>
          rw [found] at first
          exact first.elim
      | some count =>
          apply spells_numbered _ (ih others)
          exact .back (digits cs) (by rw [number?_takeWhile, found])
  | case8 within outside =>
      intro _
      exact spells_of_head outside (by decide) (.cons (.parent (digits []) rfl) .nil)
  | case9 within cs outside ih =>
      intro plain
      obtain ⟨word, rest, others, rfl, same, spells⟩ := ih plain
      rw [same] at plain ⊢
      apply spells_of_head outside (by decide)
      have whole := Spells.cons (.peel (List.forall_mem_cons.mp plain).1) spells
      rw [String.toList_ofList] at whole
      simp only [List.cons_append, List.append_assoc, List.nil_append] at whole
      exact whole
  | case10 within cs outside more apart ih =>
      intro plain
      obtain ⟨first, others⟩ := List.forall_mem_cons.mp plain
      apply spells_of_head outside (by decide)
      cases found : number? cs with
      | none =>
          rw [found] at first
          exact first.elim
      | some count =>
          apply spells_numbered _ (ih others)
          exact .parent (digits cs) (by rw [number?_takeWhile, found])
  | case11 c cs _ _ _ _ _ _ digit ih =>
      intro plain
      change Spells ((c :: cs).dropWhile Char.isDigit) _
      rw [List.dropWhile_cons_of_pos digit]
      exact ih plain
  | case12 =>
      intro plain
      exact (plain _ List.mem_cons_self).elim
  | case13 =>
      intro plain
      exact (plain _ List.mem_cons_self).elim

def isStepCharacter (c : Char) : Bool :=
  c.isDigit || c.isLower || "~^\x7b\x7d@".toList.contains c

private theorem isStepCharacter_of_spelling {text : List Char} {step : Step}
    (spelling : Spelling text step) : ∀ c ∈ text, isStepCharacter c = true := by
  have numbered {mark : Char} {digits : List Char} (marks : isStepCharacter mark = true)
      (all : ∀ c ∈ digits, c.isDigit = true) : ∀ c ∈ mark :: digits, isStepCharacter c = true := by
    rw [List.forall_mem_cons]
    refine ⟨marks, ?_⟩
    intro c member
    unfold isStepCharacter
    rw [all c member]
    rfl
  cases spelling with
  | back digits _ => exact numbered (by decide) digits
  | parent digits _ => exact numbered (by decide) digits
  | @peel word member =>
      have all : ∀ word ∈ kindWords,
          ('^' :: '\x7b' :: (word.toList ++ ['\x7d'])).all isStepCharacter = true := by
        decide +kernel
      exact List.all_eq_true.mp (all word member)

theorem Spells.isStepCharacter {text : List Char} {steps : List Step} (spells : Spells text steps) :
    ∀ c ∈ text, isStepCharacter c = true := by
  induction spells with
  | nil =>
      intro c member
      cases member
  | sign =>
      intro c member
      rw [List.mem_singleton.mp member]
      rfl
  | cons spelling _ ih =>
      rw [List.forall_mem_append]
      exact ⟨isStepCharacter_of_spelling spelling, ih⟩

theorem isPlain_of_takeAll {history : History} {object last : Object} {steps : List Step}
    {position : Nat} (taken : takeAll history object steps = .ok last)
    (found : last.commit? history = some position) : ∀ step ∈ steps, step.IsPlain := by
  induction steps generalizing object with
  | nil =>
      intro step member
      cases member
  | cons step steps ih =>
      obtain ⟨next, first, others⟩ := takeAll_cons taken
      rw [List.forall_mem_cons]
      refine ⟨?_, ih others⟩
      rcases take_cases first with ⟨_, _, _, rfl, -⟩ | ⟨_, _, _, rfl, -⟩ | ⟨rfl, -⟩ |
        ⟨kind, member, rfl, -⟩ | ⟨-, rfl⟩
      · trivial
      · trivial
      · exact List.mem_cons_self
      · exact List.mem_cons_of_mem _ (List.mem_map_of_mem member)
      · rw [eq_tree_of_takeAll others] at found
        cases found

theorem split_append (cs : List Char) : (split cs).1 ++ (split cs).2 = cs :=
  List.takeWhile_append_dropWhile

theorem not_mem_split {cs : List Char} {c : Char} (marks : c = '~' ∨ c = '^' ∨ c = ':') :
    c ∉ (split cs).1 := by
  intro member
  have kept := List.mem_takeWhile_imp member
  simp only [Bool.and_eq_true, bne_iff_ne] at kept
  rcases marks with same | same | same
  · exact kept.1.1 same
  · exact kept.1.2 same
  · exact kept.2 same

theorem spells_of_commit {repository : Repository} {revision : String} {position : Nat}
    (found : commit repository revision = .ok position) :
    Spells (split revision.toList).2 (steps (split revision.toList).2) := by
  obtain ⟨object, resolved, named⟩ := commit_eq_ok_iff.mp found
  rcases (resolve_cases resolved).2 with ⟨nothing, -⟩ | ⟨-, -, start, -, taken⟩
  · rw [nothing]
    exact .nil
  · exact spells_stepsFrom .between _ (isPlain_of_takeAll taken named)

/-! ### Names -/

theorem dotless_of_parts {part cs : List Char}
    (all : (partsFrom part cs).all isPart = true) : ¬"..".toList <:+: part ++ cs := by
  have dotless {part : List Char} (isPart : isPart part = true) : ¬"..".toList <:+: part := by
    unfold Revision.isPart at isPart
    simp only [Bool.and_eq_true, Bool.not_eq_true'] at isPart
    exact Text.occursIn_eq_false_iff.mp isPart.1.1.2
  induction cs generalizing part with
  | nil =>
      rw [List.append_nil]
      exact dotless ((Bool.and_true _).symm.trans all)
  | cons c cs ih =>
      unfold partsFrom at all
      split at all
      · next slash =>
          subst slash
          rw [List.all_cons, Bool.and_eq_true] at all
          intro found
          rcases @Text.infix_of_run '.' 2 part ('/' :: cs) found
              (Or.inr (fun same => by cases same)) with inPart | inRest
          · exact dotless all.1 inPart
          · rcases List.infix_cons_iff.mp inRest with starts | inside
            · cases (List.cons_prefix_cons.mp starts).1
            · exact ih all.2 inside
      · have inside := ih all
        rw [List.append_assoc] at inside
        exact inside

private theorem dotless_of_isName {before after : List Char} {name : String}
    (isName : isName (before ++ name.toList ++ after) = true) : ¬"..".toList <:+: name.toList := by
  intro found
  unfold Revision.isName at isName
  simp only [Bool.and_eq_true] at isName
  apply dotless_of_parts isName.1.1
  exact found.trans ⟨before, after, rfl⟩

private theorem isName_of_firstTarget? {repository : Repository} {names : List String}
    {hash : String} (found : repository.firstTarget? names = .ok (some hash)) :
    ∃ name ∈ names, isName name.toList = true := by
  induction names with
  | nil => cases found
  | cons name names ih =>
      by_cases named : isName name.toList = true
      · exact ⟨name, List.mem_cons_self, named⟩
      · have missed : repository.namedTarget? name = .ok none := by
          unfold Repository.namedTarget?
          rw [if_pos (by rw [Bool.not_eq_true', ← Bool.not_eq_true]; exact named)]
        unfold Repository.firstTarget? at found
        rw [missed] at found
        obtain ⟨other, member, otherNamed⟩ := ih found
        exact ⟨other, List.mem_cons_of_mem name member, otherNamed⟩

private theorem exists_of_mem_candidates {name candidate : String}
    (member : candidate ∈ candidates name) :
    ∃ before after, candidate.toList = before ++ name.toList ++ after := by
  simp only [candidates, List.mem_cons, List.not_mem_nil, or_false] at member
  rcases member with rfl | rfl | rfl | rfl | rfl | rfl
  · exact ⟨[], [], by simp⟩
  · exact ⟨"refs/".toList, [], by simp⟩
  · exact ⟨"refs/tags/".toList, [], by simp⟩
  · exact ⟨"refs/heads/".toList, [], by simp⟩
  · exact ⟨"refs/remotes/".toList, [], by simp⟩
  · exact ⟨"refs/remotes/".toList, "/HEAD".toList, by simp⟩

theorem dotless_of_named {repository : Repository} {name : String} {object : Object}
    (found : named repository name = .ok object) : ¬"..".toList <:+: name.toList := by
  rcases named_cases found with ⟨hash, -⟩ | ⟨hash, targeted, -⟩ | ⟨short, -⟩
  · intro dots
    exact not_mem_of_isHash hash (by decide) (dots.subset (@List.mem_cons_self _ '.' _))
  · obtain ⟨candidate, member, isName⟩ := isName_of_firstTarget? targeted
    obtain ⟨before, after, whole⟩ := exists_of_mem_candidates member
    rw [whole] at isName
    exact dotless_of_isName isName
  · unfold isShortName at short
    rw [String.toList_append, String.toList_append] at short
    exact dotless_of_isName short

/-- A revision that leads to a commit holds no two dots, unless it is short for `HEAD` and longer
than an at sign. -/
theorem dotless_of_commit {repository : Repository} {revision : String} {position : Nat}
    (found : commit repository revision = .ok position)
    (long : revision = "@" ∨ revision.toList.getLast? ≠ some '@') :
    ¬"..".toList <:+: revision.toList := by
  obtain ⟨object, resolved, -⟩ := commit_eq_ok_iff.mp found
  have spells := spells_of_commit found
  have noDot : '.' ∉ (split revision.toList).2 := by
    intro member
    exact absurd (spells.isStepCharacter '.' member) (by decide)
  rcases long with rfl | long
  · decide
  rcases (resolve_cases resolved).2 with ⟨nothing, short, -⟩ | ⟨-, -, start, first, -⟩
  · have whole := split_append revision.toList
    rw [nothing, List.append_nil] at whole
    rw [whole] at short
    exact absurd short long
  · have nameDotless := dotless_of_named first
    rw [@String.toList_ofList (split revision.toList).1] at nameDotless
    intro dots
    rw [← split_append revision.toList] at dots
    have border : (split revision.toList).2.head? ≠ some '.' := by
      intro head
      exact noDot (List.mem_of_head? head)
    rcases @Text.infix_of_run '.' 2 _ _ dots (Or.inr border) with inName | inSteps
    · exact nameDotless inName
    · exact noDot (inSteps.subset List.mem_cons_self)

end CommitCheck.Revision
