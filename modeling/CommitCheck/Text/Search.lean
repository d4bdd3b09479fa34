set_option autoImplicit false

/-! Looking for one text inside another. -/

namespace CommitCheck.Text

/-- One text occurs in another: it starts the other text or occurs in what follows its first
character. The empty text occurs everywhere. -/
def occursIn (needle : List Char) : List Char → Bool
  | [] => needle.isEmpty
  | c :: cs => needle.isPrefixOf (c :: cs) || occursIn needle cs

/-- The text before the first occurrence of a separator and the text after it, if it occurs. -/
def splitOnce? (separator : List Char) : List Char → Option (List Char × List Char)
  | [] => if separator.isEmpty then some ([], []) else none
  | c :: cs =>
      match separator.isPrefixOf? (c :: cs) with
      | some after => some ([], after)
      | none => (splitOnce? separator cs).map fun parts => (c :: parts.1, parts.2)

theorem eq_of_isPrefixOf? {start cs rest : List Char} (found : start.isPrefixOf? cs = some rest) :
    cs = start ++ rest := by
  induction start generalizing cs with
  | nil => exact Option.some.inj found
  | cons c start ih =>
      cases cs with
      | nil => cases found
      | cons d cs =>
          change (if c == d then start.isPrefixOf? cs else none) = some rest at found
          by_cases same : c = d
          · subst same
            rw [if_pos (beq_self_eq_true c)] at found
            rw [ih found, List.cons_append]
          · rw [if_neg (by simpa using same)] at found
            cases found

theorem eq_of_splitOnce? {separator cs before after : List Char}
    (found : splitOnce? separator cs = some (before, after)) :
    cs = before ++ separator ++ after := by
  induction cs generalizing before with
  | nil =>
      simp only [splitOnce?, List.isEmpty_iff] at found
      split at found <;> simp_all
  | cons c cs ih =>
      simp only [splitOnce?] at found
      split at found
      · next rest starts =>
          have whole := eq_of_isPrefixOf? starts
          simp_all
      · obtain ⟨parts, split, same⟩ := Option.map_eq_some_iff.1 found
        obtain ⟨rfl, rfl⟩ := Prod.mk.inj same
        simp [ih split]

end CommitCheck.Text
