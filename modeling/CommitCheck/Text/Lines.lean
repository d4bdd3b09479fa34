set_option autoImplicit false

/-! Lines of a text. A line feed alone ends a line; a carriage return is an ordinary character of
its line. A text always has a first line, which may be empty, and `joinLines` puts the lines back.
-/

namespace CommitCheck.Text

/-- The lines of a text, without the line feeds between them. -/
def splitLines : List Char → List (List Char)
  | [] => [[]]
  | c :: cs =>
      if c = '\n' then
        [] :: splitLines cs
      else
        match splitLines cs with
        | [] => [[c]]
        | line :: others => (c :: line) :: others

/-- The text with the given lines, a line feed between every two of them. -/
def joinLines (lines : List (List Char)) : List Char :=
  ['\n'].intercalate lines

theorem splitLines_ne_nil (cs : List Char) : splitLines cs ≠ [] := by
  cases cs with
  | nil => simp [splitLines]
  | cons c cs =>
      simp only [splitLines]
      split
      · simp
      · split <;> simp

theorem head?_splitLines (cs : List Char) :
    (splitLines cs).head? = some (cs.takeWhile (· ≠ '\n')) := by
  induction cs with
  | nil => rfl
  | cons c cs ih =>
      by_cases feed : c = '\n'
      · simp [splitLines, feed]
      · simp only [splitLines, if_neg feed]
        split
        · next none => exact absurd none (splitLines_ne_nil cs)
        · next line others found =>
            rw [found] at ih
            simp only [List.head?_cons, Option.some.injEq] at ih
            simp [feed, ih]

end CommitCheck.Text
