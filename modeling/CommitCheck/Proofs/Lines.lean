import CommitCheck.Outcome
import Mathlib.Data.List.TakeWhile

set_option autoImplicit false

/-! Lines and the views of them. Splitting a text at its line feeds and joining the lines again undo
each other, the number of lines, the first line and the line at a position agree with the lines, and
the first and the second line can be read off the text itself. -/

namespace CommitCheck

namespace Text

theorem splitLines_eq_splitOn (cs : List Char) : splitLines cs = cs.splitOn '\n' := by
  induction cs with
  | nil => rfl
  | cons c cs ih =>
      rw [List.splitOn_cons_eq_if_modifyHead, splitLines, ih]
      by_cases feed : c = '\n'
      · simp [feed]
      · obtain ⟨line, others, lines⟩ := List.exists_cons_of_ne_nil (List.splitOn_ne_nil '\n' cs)
        simp [feed, lines]

theorem splitLines_of_notMem {line : List Char} (whole : '\n' ∉ line) :
    splitLines line = [line] := by
  rw [splitLines_eq_splitOn]
  exact List.splitOn_eq_singleton whole

theorem splitLines_append_feed {line : List Char} (whole : '\n' ∉ line) (rest : List Char) :
    splitLines (line ++ '\n' :: rest) = line :: splitLines rest := by
  rw [splitLines_eq_splitOn, splitLines_eq_splitOn]
  exact List.splitOn_append_cons_self_of_not_mem whole rest

theorem joinLines_splitLines (cs : List Char) : joinLines (splitLines cs) = cs := by
  rw [splitLines_eq_splitOn]
  exact List.intercalate_splitOn '\n'

theorem splitLines_joinLines {lines : List (List Char)} (some : lines ≠ [])
    (whole : ∀ line ∈ lines, '\n' ∉ line) : splitLines (joinLines lines) = lines := by
  rw [splitLines_eq_splitOn]
  exact List.splitOn_intercalate '\n' whole some

theorem splitLines_cons {c : Char} (other : c ≠ '\n') {cs line : List Char}
    {others : List (List Char)} (lines : splitLines cs = line :: others) :
    splitLines (c :: cs) = (c :: line) :: others := by
  conv => lhs; unfold splitLines
  rw [if_neg other, lines]

theorem notMem_of_mem_splitLines {cs : List Char} : ∀ line ∈ splitLines cs, '\n' ∉ line := by
  induction cs with
  | nil => simp [splitLines]
  | cons c cs ih =>
      by_cases feed : c = '\n'
      · subst feed
        rw [← List.nil_append ('\n' :: cs), splitLines_append_feed List.not_mem_nil cs]
        exact List.forall_mem_cons.mpr ⟨List.not_mem_nil, ih⟩
      · obtain ⟨line, others, lines⟩ := List.exists_cons_of_ne_nil (splitLines_ne_nil cs)
        rw [lines, List.forall_mem_cons] at ih
        rw [splitLines_cons feed lines, List.forall_mem_cons]
        refine ⟨?_, ih.2⟩
        rw [List.mem_cons, not_or]
        exact ⟨Ne.symm feed, ih.1⟩

theorem length_splitLines (cs : List Char) : (splitLines cs).length = cs.count '\n' + 1 := by
  induction cs with
  | nil => rfl
  | cons c cs ih =>
      by_cases feed : c = '\n'
      · subst feed
        rw [← List.nil_append ('\n' :: cs), splitLines_append_feed List.not_mem_nil cs,
          List.length_cons, ih, List.nil_append, List.count_cons_self]
      · obtain ⟨line, others, lines⟩ := List.exists_cons_of_ne_nil (splitLines_ne_nil cs)
        rw [splitLines_cons feed lines, List.count_cons_of_ne feed, ← ih, lines, List.length_cons,
          List.length_cons]

def firstLine (text : String) : List Char :=
  text.toList.takeWhile (· ≠ '\n')

theorem firstLine_firstLine (text : String) :
    firstLine (String.ofList (firstLine text)) = firstLine text := by
  unfold firstLine
  rw [String.toList_ofList, List.takeWhile_idem]

/-- The text between the first line feed and the next one; nothing if there is no line feed. -/
def secondLine (text : String) : List Char :=
  ((text.toList.dropWhile (· ≠ '\n')).drop 1).takeWhile (· ≠ '\n')

end Text

namespace Message

theorem summary_toList (text : String) :
    (Message.mk text).summary.toList = Text.firstLine text := by
  have first := Text.head?_splitLines text.toList
  unfold summary line? lines Text.firstLine
  rw [List.getElem?_map, ← List.head?_eq_getElem?, first, Option.map_some, Option.getD_some,
    String.toList_ofList]

theorem line?_one_of_notMem {text : String} (single : '\n' ∉ text.toList) :
    (Message.mk text).line? 1 = none := by
  unfold line? lines
  rw [Text.splitLines_of_notMem single]
  rfl

theorem line?_one_of_mem {text : String} (several : '\n' ∈ text.toList) :
    (Message.mk text).line? 1 = some (String.ofList (Text.secondLine text)) := by
  obtain ⟨line, rest, whole, notIn⟩ := List.eq_append_cons_of_mem several
  have inLine : ∀ c ∈ line, decide (c ≠ '\n') = true := by
    intro c member
    exact decide_eq_true (fun same => notIn (same ▸ member))
  have second : Text.secondLine text = rest.takeWhile (· ≠ '\n') := by
    unfold Text.secondLine
    rw [whole, List.dropWhile_append_of_pos inLine]
    rfl
  unfold line? lines
  rw [whole, Text.splitLines_append_feed notIn, List.getElem?_map, List.getElem?_cons_succ,
    ← List.head?_eq_getElem?, Text.head?_splitLines, second]
  rfl

theorem intercalate_lines (message : Message) : "\n".intercalate message.lines = message.text := by
  have back : (Text.splitLines message.text.toList).map (String.toList ∘ String.ofList) =
      Text.splitLines message.text.toList := by
    simp [Function.comp_def]
  rw [← String.toList_inj, String.toList_intercalate]
  unfold lines
  rw [List.map_map, back]
  exact Text.joinLines_splitLines message.text.toList

theorem lines_intercalate {lines : List String} (some : lines ≠ [])
    (whole : ∀ line ∈ lines, '\n' ∉ line.toList) :
    (Message.mk ("\n".intercalate lines)).lines = lines := by
  have wholeChars : ∀ line ∈ lines.map String.toList, '\n' ∉ line := by
    rw [List.forall_mem_map]
    exact whole
  have split := Text.splitLines_joinLines (mt List.map_eq_nil_iff.mp some) wholeChars
  unfold Message.lines
  rw [String.toList_intercalate]
  change (Text.splitLines (Text.joinLines (lines.map String.toList))).map String.ofList = lines
  rw [split, List.map_map]
  simp [Function.comp_def]

theorem notMem_of_mem_lines {message : Message} : ∀ line ∈ message.lines, '\n' ∉ line.toList := by
  unfold lines
  rw [List.forall_mem_map]
  intro line member
  rw [String.toList_ofList]
  exact Text.notMem_of_mem_splitLines line member

theorem lineCount_eq (message : Message) :
    message.lineCount = message.text.toList.count '\n' + 1 := by
  unfold lineCount lines
  rw [List.length_map, Text.length_splitLines]

theorem isSingleLine_iff {message : Message} :
    message.isSingleLine = true ↔ '\n' ∉ message.text.toList := by
  unfold isSingleLine
  rw [beq_iff_eq, lineCount_eq, ← List.count_eq_zero]
  omega

theorem line?_eq_none_iff {message : Message} {index : Nat} :
    message.line? index = none ↔ message.lineCount ≤ index := by
  unfold line? lineCount
  exact List.getElem?_eq_none_iff

theorem head?_lines (message : Message) : message.lines.head? = some message.summary := by
  have more : message.lines ≠ [] := by
    unfold lines
    exact mt List.map_eq_nil_iff.mp (Text.splitLines_ne_nil message.text.toList)
  obtain ⟨first, others, found⟩ := List.exists_cons_of_ne_nil more
  unfold summary line?
  rw [found]
  rfl

/-- Joining the lines of a message gives its text back, and lines that are joined are found again. All
that is said about lines without listing them agrees with the list. -/
theorem lines_agree :
    (∀ message : Message,
      "\n".intercalate message.lines = message.text ∧
      (∀ line ∈ message.lines, '\n' ∉ line.toList) ∧
      message.lineCount = message.lines.length ∧
      message.lineCount = message.text.toList.count '\n' + 1 ∧
      (message.isSingleLine = true ↔ '\n' ∉ message.text.toList) ∧
      (∀ index, message.line? index = message.lines[index]? ∧
        (message.line? index = none ↔ message.lineCount ≤ index)) ∧
      message.lines.head? = some message.summary) ∧
    (∀ outcome : Outcome, (Message.mk outcome.message).lines.head? = some outcome.summaryLine) ∧
    ∀ lines : List String, lines ≠ [] → (∀ line ∈ lines, '\n' ∉ line.toList) →
      (Message.mk ("\n".intercalate lines)).lines = lines := by
  refine ⟨?_, fun outcome => head?_lines ⟨outcome.message⟩, fun lines => lines_intercalate⟩
  intro message
  exact ⟨intercalate_lines message, notMem_of_mem_lines, rfl, lineCount_eq message,
    isSingleLine_iff, fun index => ⟨rfl, line?_eq_none_iff⟩, head?_lines message⟩

theorem lines_agree_emptyLines :
    ["a", "", "\r", ""] ≠ [] ∧ (∀ line ∈ ["a", "", "\r", ""], '\n' ∉ line.toList) ∧
      (Message.mk ("\n".intercalate ["a", "", "\r", ""])).lines = ["a", "", "\r", ""] := by
  have some : ["a", "", "\r", ""] ≠ [] := List.cons_ne_nil _ _
  have whole : ∀ line ∈ ["a", "", "\r", ""], '\n' ∉ line.toList := by decide
  exact ⟨some, whole, lines_agree.2.2 _ some whole⟩

end Message

end CommitCheck
