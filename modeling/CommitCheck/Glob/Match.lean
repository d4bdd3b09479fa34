import CommitCheck.Glob.Pattern

set_option autoImplicit false

/-! Matching a name against a glob pattern. The elements of the pattern are gone through from the
last to the first. After each there is a list of answers, one for every text that the name ends
with, the longest first: whether the elements so far take the whole of that text. So every element
looks at every text once, and no choice is ever taken back. The rules of matching are the equations
at the end: what an element takes of the first character, and what it leaves to the others. -/

namespace CommitCheck.Glob

def atEnd : List Char → List Bool
  | [] => [true]
  | _ :: cs => false :: atEnd cs

def afterOne (test : Char → Bool) : List Char → List Bool → List Bool
  | c :: cs, _ :: later => (test c && later.headD false) :: afterOne test cs later
  | _, _ => [false]

/-- The answers when any characters come first: some answer from there on is yes. -/
def afterAny : List Bool → List Bool
  | [] => []
  | answer :: later =>
      let after := afterAny later
      (answer || after.headD false) :: after

/-- The answers when path components come first: none, some with the slash after them, or all that
is left. -/
def afterPath (name : List Char) (answers : List Bool) : List Bool :=
  let atLast := answers.getLastD false
  List.zipWith (fun here later => here || later || atLast) answers
    (afterAny (afterOne (· == '/') name answers))

def Token.answers (name : List Char) (later : List Bool) : Token → List Bool
  | literal c => afterOne (· == c) name later
  | anyChar => afterOne (fun _ => true) name later
  | anySequence => afterAny later
  | anyPath => afterPath name later
  | oneOf members => afterOne (fun c => members.any (SetMember.holds c)) name later
  | noneOf members => afterOne (fun c => !members.any (SetMember.holds c)) name later

def answers (pattern : List Token) (name : List Char) : List Bool :=
  pattern.foldr (fun token later => token.answers name later) (atEnd name)

def matchesAll (pattern : List Token) (name : List Char) : Bool :=
  (answers pattern name).headD false

/-- A name matches a pattern; a pattern that is refused matches nothing. -/
def accepts (pattern name : List Char) : Bool :=
  match tokens pattern with
  | .ok elements => matchesAll elements name
  | .error _ => false

theorem length_afterOne (test : Char → Bool) (name : List Char) {later : List Bool}
    (long : later.length = name.length + 1) :
    (afterOne test name later).length = name.length + 1 := by
  induction name generalizing later with
  | nil => rfl
  | cons c cs ih =>
      cases later with
      | nil => simp at long
      | cons answer later => simp [afterOne, ih (Nat.succ.inj long)]

theorem length_afterAny (later : List Bool) : (afterAny later).length = later.length := by
  induction later with
  | nil => rfl
  | cons answer later ih => simp [afterAny, ih]

/-- There is an answer for every text that a name ends with. -/
theorem length_answers (pattern : List Token) (name : List Char) :
    (answers pattern name).length = name.length + 1 := by
  induction pattern with
  | nil =>
      show (atEnd name).length = name.length + 1
      induction name with
      | nil => rfl
      | cons c cs ih => simp [atEnd, ih]
  | cons token pattern ih =>
      show (token.answers name (answers pattern name)).length = name.length + 1
      cases token with
      | anySequence => exact (length_afterAny _).trans ih
      | anyPath =>
          simp [Token.answers, afterPath, length_afterAny, length_afterOne _ _ ih, ih]
      | literal | anyChar | oneOf | noneOf => exact length_afterOne _ _ ih

theorem answers_cons (pattern : List Token) (c : Char) (cs : List Char) :
    answers pattern (c :: cs) = matchesAll pattern (c :: cs) :: answers pattern cs := by
  induction pattern with
  | nil => rfl
  | cons token pattern ih =>
      have whole : answers (token :: pattern) (c :: cs) =
          token.answers (c :: cs) (matchesAll pattern (c :: cs) :: answers pattern cs) := by
        rw [← ih]
        rfl
      have nonempty : answers pattern cs ≠ [] :=
        List.ne_nil_of_length_eq_add_one (length_answers pattern cs)
      have last : (matchesAll pattern (c :: cs) :: answers pattern cs).getLastD false =
          (answers pattern cs).getLastD false := by
        obtain ⟨answer, later, split⟩ := List.exists_cons_of_ne_nil nonempty
        rw [split]
        rfl
      have tail : (answers (token :: pattern) (c :: cs)).tail = answers (token :: pattern) cs := by
        rw [whole]
        cases token with
        | anyPath =>
            show (afterPath (c :: cs) _).tail = afterPath cs (answers pattern cs)
            simp only [afterPath, last]
            rfl
        | literal | anyChar | anySequence | oneOf | noneOf => rfl
      have long := length_answers (token :: pattern) (c :: cs)
      obtain ⟨answer, later, split⟩ := List.exists_cons_of_length_eq_add_one long
      rw [split, List.tail_cons] at tail
      rw [matchesAll, split, List.headD_cons, tail]

theorem matchesAll_nil (name : List Char) : matchesAll [] name = name.isEmpty := by
  cases name <;> rfl

theorem matchesAll_literal (d : Char) (pattern : List Token) (c : Char) (cs : List Char) :
    matchesAll (.literal d :: pattern) (c :: cs) = (c == d && matchesAll pattern cs) := by
  show (afterOne (· == d) (c :: cs) (answers pattern (c :: cs))).headD false = _
  rw [answers_cons]
  rfl

theorem matchesAll_anyChar (pattern : List Token) (c : Char) (cs : List Char) :
    matchesAll (.anyChar :: pattern) (c :: cs) = matchesAll pattern cs := by
  show (afterOne (fun _ => true) (c :: cs) (answers pattern (c :: cs))).headD false = _
  rw [answers_cons]
  exact Bool.true_and _

theorem matchesAll_anySequence (pattern : List Token) (c : Char) (cs : List Char) :
    matchesAll (.anySequence :: pattern) (c :: cs) =
      (matchesAll pattern (c :: cs) || matchesAll (.anySequence :: pattern) cs) := by
  show (afterAny (answers pattern (c :: cs))).headD false = _
  rw [answers_cons]
  rfl

end CommitCheck.Glob
