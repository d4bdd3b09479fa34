import CommitCheck.Text.Wrap
import Mathlib.Data.List.Chain

set_option autoImplicit false

/-! Greedy line filling. The lines of a wrapped text hold its words, all of them and in their order,
and a line is longer than the width only if it is a single word. A line is closed only when the next
word does not fit, and for that reason no other lines that fit are fewer. -/

namespace CommitCheck.Text

structure IsWord (word : List Char) : Prop where
  nonempty : word ≠ []
  solid : ∀ c ∈ word, isBlank c = false

/-- The words of a text: what stands between its blanks. A word goes on up to the next blank or the
end of the text. -/
inductive HasWords : List Char → List (List Char) → Prop where
  | none {gap : List Char} : (∀ c ∈ gap, isBlank c = true) → HasWords gap []
  | word {gap word rest : List Char} {others : List (List Char)} :
      (∀ c ∈ gap, isBlank c = true) → IsWord word → (∀ c ∈ rest.head?, isBlank c = true) →
        HasWords rest others → HasWords (gap ++ (word ++ rest)) (word :: others)

theorem wordsFrom_gap {gap : List Char} (blank : ∀ c ∈ gap, isBlank c = true) (cs : List Char) :
    wordsFrom [] (gap ++ cs) = wordsFrom [] cs := by
  induction gap with
  | nil => rfl
  | cons c gap ih =>
      obtain ⟨first, others⟩ := List.forall_mem_cons.mp blank
      rw [List.cons_append, wordsFrom, if_pos first, if_pos List.isEmpty_nil]
      exact ih others

theorem wordsFrom_run {run : List Char} (solid : ∀ c ∈ run, isBlank c = false)
    (word cs : List Char) : wordsFrom word (run ++ cs) = wordsFrom (word ++ run) cs := by
  induction run generalizing word with
  | nil => rw [List.nil_append, List.append_nil]
  | cons c run ih =>
      obtain ⟨first, others⟩ := List.forall_mem_cons.mp solid
      rw [List.cons_append, wordsFrom, if_neg (Bool.eq_false_iff.mp first), ih others,
        List.append_assoc, List.singleton_append]

theorem wordsFrom_closed {word rest : List Char} (nonempty : word ≠ [])
    (closed : ∀ c ∈ rest.head?, isBlank c = true) :
    wordsFrom word rest = word :: wordsFrom [] rest := by
  have some : ¬word.isEmpty = true := mt List.isEmpty_iff.mp nonempty
  cases rest with
  | nil => rw [wordsFrom, if_neg some, wordsFrom, if_pos List.isEmpty_nil]
  | cons c rest =>
      have blank : isBlank c = true := closed c rfl
      rw [wordsFrom, if_pos blank, if_neg some, wordsFrom, if_pos blank, if_pos List.isEmpty_nil]

theorem words_of_hasWords {text : List Char} {found : List (List Char)}
    (parted : HasWords text found) : words text = found := by
  induction parted with
  | @none gap blank =>
      have skipped := wordsFrom_gap blank []
      rw [List.append_nil] at skipped
      exact skipped
  | @word gap word rest others blank isWord closed _ ih =>
      unfold words at ih ⊢
      rw [wordsFrom_gap blank, wordsFrom_run isWord.solid, List.nil_append,
        wordsFrom_closed isWord.nonempty closed, ih]

theorem HasWords.cons_blank {c : Char} (blank : isBlank c = true) {text : List Char}
    {found : List (List Char)} (parted : HasWords text found) : HasWords (c :: text) found := by
  cases parted with
  | none gap => exact .none (List.forall_mem_cons.mpr ⟨blank, gap⟩)
  | word gap isWord closed rest =>
      rw [← List.cons_append]
      exact .word (List.forall_mem_cons.mpr ⟨blank, gap⟩) isWord closed rest

theorem hasWords_wordsFrom {word : List Char} (solid : ∀ c ∈ word, isBlank c = false)
    (cs : List Char) : HasWords (word ++ cs) (wordsFrom word cs) := by
  induction cs generalizing word with
  | nil =>
      rw [wordsFrom]
      by_cases empty : word = []
      · subst empty
        exact .none (List.forall_mem_nil _)
      · rw [if_neg (mt List.isEmpty_iff.mp empty)]
        exact .word (List.forall_mem_nil _) ⟨empty, solid⟩ (by simp) (.none (List.forall_mem_nil _))
  | cons c cs ih =>
      have later := ih (List.forall_mem_nil _)
      by_cases blank : isBlank c = true
      · rw [wordsFrom, if_pos blank]
        by_cases empty : word = []
        · subst empty
          exact later.cons_blank blank
        · rw [if_neg (mt List.isEmpty_iff.mp empty)]
          exact .word (List.forall_mem_nil _) ⟨empty, solid⟩ (by simp [blank])
            (later.cons_blank blank)
      · have longer : ∀ d ∈ word ++ [c], isBlank d = false := by
          simp only [List.forall_mem_append, List.forall_mem_singleton]
          exact ⟨solid, Bool.eq_false_iff.mpr blank⟩
        rw [wordsFrom, if_neg blank, List.append_cons]
        exact ih longer

theorem words_eq_iff {text : List Char} {found : List (List Char)} :
    words text = found ↔ HasWords text found := by
  constructor
  · intro same
    subst same
    exact hasWords_wordsFrom (List.forall_mem_nil _) text
  · exact words_of_hasWords

theorem HasWords.isWord {text : List Char} {found : List (List Char)}
    (parted : HasWords text found) : ∀ word ∈ found, IsWord word := by
  induction parted with
  | none => exact List.forall_mem_nil _
  | word _ isWord _ _ ih => exact List.forall_mem_cons.mpr ⟨isWord, ih⟩

theorem HasWords.mem {text : List Char} {found : List (List Char)} (parted : HasWords text found)
    {c : Char} : ∀ word ∈ found, c ∈ word → c ∈ text := by
  induction parted with
  | none => exact List.forall_mem_nil _
  | word _ _ _ _ ih =>
      rw [List.forall_mem_cons]
      constructor
      · intro inWord
        exact List.mem_append_right _ (List.mem_append_left _ inWord)
      · intro word member inWord
        exact List.mem_append_right _ (List.mem_append_right _ (ih word member inWord))

theorem lineText_singleton (word : List Char) : lineText [word] = word :=
  List.intercalate_singleton

theorem lineText_cons {line : List (List Char)} (more : line ≠ []) (word : List Char) :
    lineText (word :: line) = word ++ ' ' :: lineText line := by
  unfold lineText
  rw [List.intercalate_cons_of_ne_nil more, List.append_assoc, List.singleton_append]

theorem lineText_append {first second : List (List Char)} (some : first ≠ [])
    (more : second ≠ []) :
    lineText (first ++ second) = lineText first ++ ' ' :: lineText second := by
  induction first with
  | nil => exact absurd rfl some
  | cons word first ih =>
      by_cases last : first = []
      · subst last
        rw [List.singleton_append, lineText_cons more, lineText_singleton]
      · rw [List.cons_append, lineText_cons (List.append_ne_nil_of_left_ne_nil last _), ih last,
          lineText_cons last, List.append_assoc, List.cons_append]

theorem mem_lineText {line : List (List Char)} {c : Char} (member : c ∈ lineText line) :
    c = ' ' ∨ ∃ word ∈ line, c ∈ word := by
  induction line with
  | nil => cases member
  | cons word line ih =>
      by_cases last : line = []
      · subst last
        rw [lineText_singleton] at member
        exact Or.inr ⟨word, List.mem_cons_self, member⟩
      · rw [lineText_cons last, List.mem_append, List.mem_cons] at member
        rcases member with inWord | space | inRest
        · exact Or.inr ⟨word, List.mem_cons_self, inWord⟩
        · exact Or.inl space
        · refine (ih inRest).imp_right ?_
          intro found
          obtain ⟨other, inLine, inOther⟩ := found
          exact ⟨other, List.mem_cons_of_mem word inLine, inOther⟩

theorem words_lineText {line : List (List Char)} (isWord : ∀ word ∈ line, IsWord word) :
    words (lineText line) = line := by
  rw [words_eq_iff]
  induction line with
  | nil => exact .none (List.forall_mem_nil _)
  | cons word line ih =>
      obtain ⟨first, others⟩ := List.forall_mem_cons.mp isWord
      by_cases last : line = []
      · subst last
        have alone : HasWords ([] ++ (word ++ [])) [word] :=
          .word (List.forall_mem_nil _) first (by simp) (.none (List.forall_mem_nil _))
        rw [List.nil_append, List.append_nil] at alone
        rw [lineText_singleton]
        exact alone
      · have space : isBlank ' ' = true := by decide
        rw [lineText_cons last]
        exact .word (List.forall_mem_nil _) first (by simp [space]) ((ih others).cons_blank space)

theorem byteLength_append (first second : List Char) :
    byteLength (first ++ second) = byteLength first + byteLength second := by
  unfold byteLength
  induction first with
  | nil => simp
  | cons c first ih =>
      rw [List.cons_append, List.foldr_cons, List.foldr_cons, ih]
      omega

theorem byteLength_lineText_append {first second : List (List Char)} (some : first ≠ [])
    (more : second ≠ []) :
    byteLength (lineText (first ++ second)) =
      byteLength (lineText first) + 1 + byteLength (lineText second) := by
  have space (cs : List Char) : byteLength (' ' :: cs) = 1 + byteLength cs := rfl
  rw [lineText_append some more, byteLength_append, space]
  omega

theorem byteLength_lineText_concat {line : List (List Char)} (some : line ≠ [])
    (word : List Char) :
    byteLength (lineText (line ++ [word])) = byteLength (lineText line) + 1 + byteLength word := by
  rw [byteLength_lineText_append some (List.cons_ne_nil word []), lineText_singleton]

theorem byteLength_lineText_le_of_infix {inner line : List (List Char)} (inside : inner <:+: line) :
    byteLength (lineText inner) ≤ byteLength (lineText line) := by
  have left (before : List (List Char)) :
      byteLength (lineText inner) ≤ byteLength (lineText (before ++ inner)) := by
    by_cases none : before = []
    · rw [none, List.nil_append]
    · by_cases empty : inner = []
      · rw [empty]
        exact Nat.zero_le _
      · rw [byteLength_lineText_append none empty]
        omega
  obtain ⟨before, after, rfl⟩ := inside
  refine (left before).trans ?_
  by_cases none : after = []
  · rw [none, List.append_nil]
  · by_cases empty : before ++ inner = []
    · rw [empty]
      exact Nat.zero_le _
    · rw [byteLength_lineText_append empty none]
      omega

/-! ### Lines that fit, lines that are closed -/

/-- The line is no longer than the width, or it is a word that is. -/
def Fits (width : Nat) (line : List (List Char)) : Prop :=
  width < byteLength (lineText line) → line.length = 1

/-- The first word of the next line does not fit into the line. -/
def Overflows (width : Nat) (line next : List (List Char)) : Prop :=
  ∀ word ∈ next.head?, width < byteLength (lineText line) + 1 + byteLength word

variable {width : Nat}

theorem flatten_fillFrom (line found : List (List Char)) :
    (fillFrom width line found).flatten = line ++ found := by
  fun_induction fillFrom width line found with
  | case1 line => simp
  | case2 line word rest tooLong ih => simp [ih]
  | case3 line word rest fits ih => simp [ih]

theorem ne_nil_of_mem_fillFrom {line found : List (List Char)} (some : line ≠ []) :
    ∀ filled ∈ fillFrom width line found, filled ≠ [] := by
  fun_induction fillFrom width line found with
  | case1 line => exact List.forall_mem_singleton.mpr some
  | case2 line word rest tooLong ih =>
      exact List.forall_mem_cons.mpr ⟨some, ih (List.cons_ne_nil word [])⟩
  | case3 line word rest fits ih => exact ih (List.concat_ne_nil word line)

theorem fits_of_mem_fillFrom {line found : List (List Char)} (some : line ≠ [])
    (fits : Fits width line) : ∀ filled ∈ fillFrom width line found, Fits width filled := by
  fun_induction fillFrom width line found with
  | case1 line => exact List.forall_mem_singleton.mpr fits
  | case2 line word rest tooLong ih =>
      exact List.forall_mem_cons.mpr ⟨fits, ih (List.cons_ne_nil word []) (fun _ => rfl)⟩
  | case3 line word rest within ih =>
      apply ih (List.concat_ne_nil word line)
      intro long
      rw [byteLength_lineText_concat some] at long
      omega

theorem exists_head?_fillFrom (line found : List (List Char)) :
    ∃ more, (fillFrom width line found).head? = some (line ++ more) := by
  fun_induction fillFrom width line found with
  | case1 line => exact ⟨[], by simp⟩
  | case2 line word rest tooLong ih => exact ⟨[], by simp⟩
  | case3 line word rest fits ih =>
      obtain ⟨more, head⟩ := ih
      exact ⟨word :: more, by rw [head]; simp⟩

theorem isChain_fillFrom (line found : List (List Char)) :
    (fillFrom width line found).IsChain (Overflows width) := by
  fun_induction fillFrom width line found with
  | case1 line => exact .singleton line
  | case2 line word rest tooLong ih =>
      rw [List.isChain_cons]
      refine ⟨?_, ih⟩
      intro next first
      have begun : ∃ more, (fillFrom width [word] rest).head? = some ([word] ++ more) :=
        exists_head?_fillFrom [word] rest
      obtain ⟨more, head⟩ := begun
      rw [head] at first
      cases first
      intro next begins
      cases begins
      exact tooLong
  | case3 line word rest fits ih => exact ih

/-! ### The number of lines -/

theorem not_fits_of_overflow {line : List (List Char)} {word : List Char} (some : line ≠ [])
    (tooLong : width < byteLength (lineText line) + 1 + byteLength word)
    (before beyond : List (List Char)) : ¬Fits width (before ++ line ++ word :: beyond) := by
  intro fits
  have inside : line ++ [word] <:+: before ++ line ++ word :: beyond := ⟨before, beyond, by simp⟩
  have long := byteLength_lineText_le_of_infix inside
  rw [byteLength_lineText_concat some] at long
  have single := fits (by omega)
  have positive := List.length_pos_iff.mpr some
  simp only [List.length_append, List.length_cons] at single
  omega

/-- A line that fits ends no later than a closed line that starts no earlier: what comes after it has
all the words of the lines after the closed one. -/
theorem exists_extra_of_fits {line other after extra : List (List Char)}
    {lines : List (List (List Char))} (some : line ≠ []) (nonempty : ∀ line ∈ lines, line ≠ [])
    (overflows : ∀ next ∈ lines.head?, Overflows width line next) (fits : Fits width other)
    (same : other ++ after = extra ++ line ++ lines.flatten) :
    ∃ left, after = left ++ lines.flatten := by
  rcases List.append_eq_append_iff.mp same with ⟨left, -, rest⟩ | ⟨beyond, whole, rest⟩
  · exact ⟨left, rest⟩
  · cases beyond with
    | nil => exact ⟨[], rest.symm⟩
    | cons word beyond =>
        -- The other line would have the first word of the next one too.
        cases lines with
        | nil => cases rest
        | cons next later =>
            obtain ⟨first, more, rfl⟩ :=
              List.exists_cons_of_ne_nil (nonempty next List.mem_cons_self)
            obtain ⟨rfl, -⟩ := List.cons.inj rest
            subst whole
            exact absurd fits (not_fits_of_overflow some (overflows _ rfl first rfl) extra beyond)

/-- Lines that are closed only when the next word does not fit are the fewest. Line by line, the words
that are left for any others that fit are the remaining ones with some more (`extra`) in front. -/
theorem length_le_of_overflows {lines others : List (List (List Char))} {extra : List (List Char)}
    (nonempty : ∀ line ∈ lines, line ≠ []) (chain : lines.IsChain (Overflows width))
    (fits : ∀ line ∈ others, Fits width line) (same : others.flatten = extra ++ lines.flatten) :
    lines.length ≤ others.length := by
  induction lines generalizing others extra with
  | nil => exact Nat.zero_le _
  | cons line lines ih =>
      obtain ⟨some, nonempty⟩ := List.forall_mem_cons.mp nonempty
      obtain ⟨overflows, chain⟩ := List.isChain_cons.mp chain
      cases others with
      | nil =>
          rw [List.flatten_nil, List.flatten_cons] at same
          have empty := (List.append_eq_nil_iff.mp same.symm).2
          exact absurd (List.append_eq_nil_iff.mp empty).1 some
      | cons other others =>
          obtain ⟨fit, fits⟩ := List.forall_mem_cons.mp fits
          rw [List.flatten_cons, List.flatten_cons, ← List.append_assoc] at same
          obtain ⟨left, rest⟩ := exists_extra_of_fits some nonempty overflows fit same
          rw [List.length_cons, List.length_cons, Nat.add_le_add_iff_right]
          exact ih nonempty chain fits rest

theorem flatten_fill (width : Nat) (found : List (List Char)) :
    (fill width found).flatten = found := by
  cases found with
  | nil => rfl
  | cons word rest => exact flatten_fillFrom [word] rest

theorem ne_nil_of_mem_fill (width : Nat) (found : List (List Char)) :
    ∀ line ∈ fill width found, line ≠ [] := by
  cases found with
  | nil => exact List.forall_mem_nil _
  | cons word rest => exact ne_nil_of_mem_fillFrom (List.cons_ne_nil word [])

theorem fits_of_mem_fill (width : Nat) (found : List (List Char)) :
    ∀ line ∈ fill width found, Fits width line := by
  cases found with
  | nil => exact List.forall_mem_nil _
  | cons word rest => exact fits_of_mem_fillFrom (List.cons_ne_nil word []) (fun _ => rfl)

theorem isChain_fill (width : Nat) (found : List (List Char)) :
    (fill width found).IsChain (Overflows width) := by
  cases found with
  | nil => exact .nil
  | cons word rest => exact isChain_fillFrom [word] rest

theorem words_of_mem_fill (width : Nat) (text : List Char) :
    ∀ line ∈ fill width (words text), words (lineText line) = line := by
  have isWord := (words_eq_iff.mp (rfl : words text = words text)).isWord
  intro line member
  apply words_lineText
  intro word inLine
  apply isWord
  rw [← flatten_fill width (words text)]
  exact List.mem_flatten_of_mem member inLine

/-- Lines that hold certain words, in order and with one space between every two in a line, and that
fit into a width or are a single word. -/
structure Arranges (width : Nat) (lines found : List (List Char)) : Prop where
  words_eq : lines.flatMap words = found
  spaced : ∀ line ∈ lines, lineText (words line) = line
  fits : ∀ line ∈ lines, width < byteLength line → (words line).length = 1

theorem arranges_wrap (width : Nat) (text : List Char) :
    Arranges width (wrap width text) (words text) := by
  have back := words_of_mem_fill width text
  unfold wrap
  constructor
  · rw [List.flatMap_map, List.flatMap_congr back, List.flatMap_id', flatten_fill]
  · rw [List.forall_mem_map]
    intro line member
    rw [back line member]
  · rw [List.forall_mem_map]
    intro line member
    rw [back line member]
    exact fits_of_mem_fill width (words text) line member

theorem mem_of_mem_wrap {text line : List Char} (member : line ∈ wrap width text) {c : Char}
    (inLine : c ∈ line) : c = ' ' ∨ c ∈ text := by
  have arranged := arranges_wrap width text
  rw [← arranged.spaced line member] at inLine
  refine (mem_lineText inLine).imp_right ?_
  intro found
  obtain ⟨word, inWords, inWord⟩ := found
  have among : word ∈ words text := by
    rw [← arranged.words_eq]
    exact List.mem_flatMap_of_mem member inWords
  exact (words_eq_iff.mp rfl).mem word among inWord

/-- A wrapped text has the words of the text in lines that fit, none of them empty. A line is closed
only when the next word does not fit, and no lines that fit are fewer. -/
theorem wrap_greedy (width : Nat) (text : List Char) :
    HasWords text (words text) ∧
      Arranges width (wrap width text) (words text) ∧
      (∀ line ∈ wrap width text, words line ≠ []) ∧
      (wrap width text).IsChain (fun line next =>
        ∀ word ∈ (words next).head?, width < byteLength line + 1 + byteLength word) ∧
      ∀ lines, Arranges width lines (words text) → (wrap width text).length ≤ lines.length := by
  have back := words_of_mem_fill width text
  refine ⟨words_eq_iff.mp rfl, arranges_wrap width text, ?_, ?_, ?_⟩
  · unfold wrap
    rw [List.forall_mem_map]
    intro line member
    rw [back line member]
    exact ne_nil_of_mem_fill width (words text) line member
  · unfold wrap
    rw [List.isChain_map]
    refine (isChain_fill width (words text)).imp_of_mem_imp ?_
    intro line next _ member overflows
    rw [back next member]
    exact overflows
  · intro lines arranged
    have fits : ∀ line ∈ lines.map words, Fits width line := by
      rw [List.forall_mem_map]
      intro line member long
      rw [arranged.spaced line member] at long
      exact arranged.fits line member long
    have same : (lines.map words).flatten = [] ++ (fill width (words text)).flatten := by
      rw [flatten_fill, List.nil_append]
      exact arranged.words_eq
    have fewest := length_le_of_overflows (ne_nil_of_mem_fill width (words text))
      (isChain_fill width (words text)) fits same
    unfold wrap
    rw [List.length_map]
    rw [List.length_map] at fewest
    exact fewest

theorem wrap_greedy_exactWidth :
    wrap 4 " a bb  ccé".toList = ["a bb".toList, "ccé".toList] ∧
      Arranges 4 ["a".toList, "bb".toList, "ccé".toList] (words " a bb  ccé".toList) ∧
      (wrap 4 " a bb  ccé".toList).length ≤ ["a".toList, "bb".toList, "ccé".toList].length := by
  have arranged : Arranges 4 ["a".toList, "bb".toList, "ccé".toList] (words " a bb  ccé".toList) :=
    { words_eq := by decide
      spaced := by decide
      fits := by decide }
  exact ⟨by decide, arranged, (wrap_greedy 4 _).2.2.2.2 _ arranged⟩

end CommitCheck.Text
