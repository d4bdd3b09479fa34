import CommitCheck.Summary
import CommitCheck.Text.Search
import Mathlib.Data.List.Basic
import Mathlib.Data.List.TakeWhile

set_option autoImplicit false

/-! The grammar of first lines, beside the readers of `Summary`. A conforming line is the text of
its parts and determines them. The strict ticket tag and the lenient one overlap without either
containing the other, so the type of a conforming line is found exactly when its ticket, if it has
one, is in capitals. -/

namespace CommitCheck.Summary

/-- The parts of a strict ticket tag, as in `[J#PROJ-123]`. -/
structure Ticket where
  letter : Char
  project : List Char
  number : List Char
  capital : letter.isUpper = true
  project_ne_nil : project ≠ []
  project_alphanum : ∀ c ∈ project, c.isAlphanum = true
  number_ne_nil : number ≠ []
  number_digits : ∀ c ∈ number, c.isDigit = true

namespace Ticket

def tag (ticket : Ticket) : List Char :=
  '[' :: ticket.letter :: '#' ::
    (ticket.project ++ '-' :: (ticket.number ++ [']']))

def InCapitals (ticket : Ticket) : Prop :=
  ∀ c ∈ ticket.project, c.isUpper = true ∨ c.isDigit = true

instance (ticket : Ticket) : Decidable ticket.InCapitals :=
  inferInstanceAs (Decidable (∀ c ∈ ticket.project, c.isUpper = true ∨ c.isDigit = true))

end Ticket

structure Parts where
  ticket? : Option Ticket
  kind : CommitType
  subject : List Char
  subject_ne_nil : subject ≠ []

namespace Parts

def tag (parts : Parts) : List Char :=
  (parts.ticket?.map Ticket.tag).getD []

/-- The line with the given parts: `[TYPE] text` or `[X#ID-1][TYPE] text`. -/
def text (parts : Parts) : List Char :=
  parts.tag ++ (bracketed parts.kind ++ ' ' :: parts.subject)

theorem text_plain (kind : CommitType) {subject : List Char} (subject_ne_nil : subject ≠ []) :
    (⟨none, kind, subject, subject_ne_nil⟩ : Parts).text =
      '[' :: (kind.token.toList ++ ']' :: ' ' :: subject) := by
  simp [text, tag, bracketed]

theorem text_ticketed (ticket : Ticket) (kind : CommitType) {subject : List Char}
    (subject_ne_nil : subject ≠ []) :
    (⟨some ticket, kind, subject, subject_ne_nil⟩ : Parts).text =
      '[' :: ticket.letter :: '#' :: (ticket.project ++ '-' :: (ticket.number ++
        ']' :: '[' :: (kind.token.toList ++ ']' :: ' ' :: subject))) := by
  simp [text, tag, Ticket.tag, bracketed]

def InCapitals (parts : Parts) : Prop :=
  ∀ ticket ∈ parts.ticket?, ticket.InCapitals

instance (parts : Parts) : Decidable parts.InCapitals :=
  inferInstanceAs (Decidable (∀ ticket ∈ parts.ticket?, ticket.InCapitals))

end Parts

theorem cut_unique {mark : Char} {before before' after after' : List Char}
    (absent : mark ∉ before) (absent' : mark ∉ before')
    (same : before ++ mark :: after = before' ++ mark :: after') :
    before = before' ∧ after = after' := by
  induction before generalizing before' with
  | nil =>
      cases before' with
      | nil => exact ⟨rfl, (List.cons.inj same).2⟩
      | cons c before' =>
          have first : mark = c := (List.cons.inj same).1
          subst c
          exact absurd List.mem_cons_self absent'
  | cons c before ih =>
      cases before' with
      | nil =>
          have first : c = mark := (List.cons.inj same).1
          subst c
          exact absurd List.mem_cons_self absent
      | cons d before' =>
          obtain ⟨first, others⟩ := List.cons.inj same
          subst d
          obtain ⟨rfl, rfl⟩ := ih (fun member => absent (List.mem_cons_of_mem c member))
            (fun member => absent' (List.mem_cons_of_mem c member)) others
          exact ⟨rfl, rfl⟩

private theorem token_closed (kind : CommitType) : ']' ∉ kind.token.toList := by
  cases kind <;> decide

theorem bracketed_append_inj {kind other : CommitType} {rest after : List Char}
    (same : bracketed kind ++ rest = bracketed other ++ after) :
    kind = other ∧ rest = after := by
  unfold bracketed at same
  simp only [List.cons_append, List.append_assoc, List.nil_append, List.cons.injEq,
    true_and] at same
  obtain ⟨tokens, rests⟩ := cut_unique (token_closed kind) (token_closed other) same
  exact ⟨CommitType.token_injective (String.toList_inj.mp tokens), rests⟩

theorem readType?_bracketed (kind : CommitType) (rest : List Char) :
    readType? (bracketed kind ++ rest) = some (kind, rest) := by
  unfold readType?
  cases found : CommitType.all.findSome? fun other =>
      ((bracketed other).isPrefixOf? (bracketed kind ++ rest)).map fun after => (other, after) with
  | none =>
      have missed := List.findSome?_eq_none_iff.mp found kind kind.mem_all
      rw [List.isPrefixOf?_eq_some_iff_append_eq.mpr rfl] at missed
      cases missed
  | some read =>
      obtain ⟨other, -, reads⟩ := List.exists_of_findSome?_eq_some found
      obtain ⟨after, starts, rfl⟩ := Option.map_eq_some_iff.mp reads
      obtain ⟨rfl, rfl⟩ := bracketed_append_inj (Text.eq_of_isPrefixOf? starts)
      rfl

theorem readType?_eq_some_iff {cs rest : List Char} {kind : CommitType} :
    readType? cs = some (kind, rest) ↔ cs = bracketed kind ++ rest := by
  constructor
  · intro read
    obtain ⟨other, -, reads⟩ := List.exists_of_findSome?_eq_some read
    obtain ⟨after, starts, same⟩ := Option.map_eq_some_iff.mp reads
    cases same
    exact Text.eq_of_isPrefixOf? starts
  · intro whole
    subst whole
    exact readType?_bracketed kind rest

theorem readRun?_append {inClass : Char → Bool} {run rest : List Char} (some_read : run ≠ [])
    (all : ∀ c ∈ run, inClass c = true) (stop : ∀ c ∈ rest.head?, inClass c = false) :
    readRun? inClass (run ++ rest) = some rest := by
  have ends : rest.takeWhile inClass = [] ∧ rest.dropWhile inClass = rest := by
    cases rest with
    | nil => exact ⟨rfl, rfl⟩
    | cons c rest =>
        have outside : inClass c = false := stop c rfl
        simp [outside]
  unfold readRun?
  rw [List.takeWhile_append_of_pos all, List.dropWhile_append_of_pos all, ends.1, ends.2,
    List.append_nil, if_neg (by simpa using some_read)]

theorem exists_of_readRun? {inClass : Char → Bool} {cs rest : List Char}
    (read : readRun? inClass cs = some rest) :
    ∃ run, run ≠ [] ∧ (∀ c ∈ run, inClass c = true) ∧ cs = run ++ rest := by
  unfold readRun? at read
  split at read
  · cases read
  · rename_i taken
    cases read
    refine ⟨cs.takeWhile inClass, by simpa using taken, ?_, List.takeWhile_append_dropWhile.symm⟩
    intro c member
    exact List.mem_takeWhile_imp member

theorem readChar?_eq_some_iff {c : Char} {cs rest : List Char} :
    readChar? c cs = some rest ↔ cs = c :: rest := by
  cases cs with
  | nil => simp [readChar?]
  | cons d cs =>
      by_cases same : d = c
      · simp [readChar?, same]
      · simp [readChar?, same]

theorem readTicket?_tag (ticket : Ticket) (rest : List Char) :
    readTicket? (ticket.tag ++ rest) = some rest := by
  have project : readRun? Char.isAlphanum
      (ticket.project ++ '-' :: (ticket.number ++ ']' :: rest)) =
        some ('-' :: (ticket.number ++ ']' :: rest)) := by
    apply readRun?_append ticket.project_ne_nil ticket.project_alphanum
    intro c first
    cases first
    rfl
  have number : readRun? Char.isDigit (ticket.number ++ ']' :: rest) = some (']' :: rest) := by
    apply readRun?_append ticket.number_ne_nil ticket.number_digits
    intro c first
    cases first
    rfl
  unfold Ticket.tag readTicket?
  simp only [List.cons_append, List.append_assoc, List.nil_append, ticket.capital, if_true,
    project, number, readChar?, Option.bind_eq_bind, Option.bind_some]

theorem exists_of_readTicket? {cs rest : List Char} (read : readTicket? cs = some rest) :
    ∃ ticket : Ticket, cs = ticket.tag ++ rest := by
  unfold readTicket? at read
  split at read
  · rename_i letter after
    split at read
    · rename_i capital
      obtain ⟨afterProject, readProject, step⟩ := Option.bind_eq_some_iff.mp read
      obtain ⟨afterDash, readDash, step⟩ := Option.bind_eq_some_iff.mp step
      obtain ⟨afterNumber, readNumber, readEnd⟩ := Option.bind_eq_some_iff.mp step
      obtain ⟨project, project_ne_nil, project_alphanum, rfl⟩ := exists_of_readRun? readProject
      obtain rfl := readChar?_eq_some_iff.mp readDash
      obtain ⟨number, number_ne_nil, number_digits, rfl⟩ := exists_of_readRun? readNumber
      obtain rfl := readChar?_eq_some_iff.mp readEnd
      refine ⟨⟨letter, project, number, capital, project_ne_nil, project_alphanum,
        number_ne_nil, number_digits⟩, ?_⟩
      simp only [Ticket.tag, List.cons_append, List.append_assoc, List.nil_append]
    · cases read
  · cases read

theorem readTag?_eq_some_iff {cs rest : List Char} :
    readTag? cs = some rest ↔
      ∃ letter identifier, identifier ≠ [] ∧ (∀ c ∈ identifier, isTagChar c = true) ∧
        cs = '[' :: letter :: '#' :: (identifier ++ ']' :: rest) := by
  constructor
  · intro read
    unfold readTag? at read
    split at read
    · rename_i letter after
      obtain ⟨afterRun, readRun, readEnd⟩ := Option.bind_eq_some_iff.mp read
      obtain ⟨identifier, identifier_ne_nil, inClass, rfl⟩ := exists_of_readRun? readRun
      obtain rfl := readChar?_eq_some_iff.mp readEnd
      exact ⟨letter, identifier, identifier_ne_nil, inClass, rfl⟩
    · cases read
  · intro tagged
    obtain ⟨letter, identifier, identifier_ne_nil, inClass, rfl⟩ := tagged
    have run : readRun? isTagChar (identifier ++ ']' :: rest) = some (']' :: rest) := by
      apply readRun?_append identifier_ne_nil inClass
      intro c first
      cases first
      rfl
    unfold readTag?
    simp only [run, readChar?, Option.bind_eq_bind, Option.bind_some, if_true]

/-! ### Conforming lines -/

theorem isSubject_iff {cs : List Char} :
    isSubject cs = true ↔ ∃ subject, subject ≠ [] ∧ cs = ' ' :: subject := by
  constructor
  · intro accepted
    unfold isSubject at accepted
    split at accepted
    · rename_i c subject
      exact ⟨c :: subject, List.cons_ne_nil c subject, rfl⟩
    · cases accepted
  · intro spaced
    obtain ⟨subject, subject_ne_nil, rfl⟩ := spaced
    cases subject with
    | nil => exact absurd rfl subject_ne_nil
    | cons c subject => rfl

theorem isTypedSubject_iff {cs : List Char} :
    isTypedSubject cs = true ↔
      ∃ kind subject, subject ≠ [] ∧ cs = bracketed kind ++ ' ' :: subject := by
  unfold isTypedSubject
  constructor
  · intro accepted
    split at accepted
    · rename_i kind after read
      obtain ⟨subject, subject_ne_nil, rfl⟩ := isSubject_iff.mp accepted
      exact ⟨kind, subject, subject_ne_nil, readType?_eq_some_iff.mp read⟩
    · cases accepted
  · intro typed
    obtain ⟨kind, subject, subject_ne_nil, rfl⟩ := typed
    rw [readType?_bracketed]
    exact isSubject_iff.mpr ⟨subject, subject_ne_nil, rfl⟩

theorem conforms_iff {cs : List Char} :
    conforms cs = true ↔ ∃ parts : Parts, parts.text = cs := by
  unfold conforms
  rw [Bool.or_eq_true]
  constructor
  · intro accepted
    rcases accepted with plain | ticketed
    · obtain ⟨kind, subject, subject_ne_nil, rfl⟩ := isTypedSubject_iff.mp plain
      exact ⟨⟨none, kind, subject, subject_ne_nil⟩, rfl⟩
    · split at ticketed
      · rename_i after read
        obtain ⟨ticket, rfl⟩ := exists_of_readTicket? read
        obtain ⟨kind, subject, subject_ne_nil, rfl⟩ := isTypedSubject_iff.mp ticketed
        exact ⟨⟨some ticket, kind, subject, subject_ne_nil⟩, rfl⟩
      · cases ticketed
  · intro composed
    obtain ⟨⟨ticket?, kind, subject, subject_ne_nil⟩, rfl⟩ := composed
    have typed : isTypedSubject (bracketed kind ++ ' ' :: subject) = true :=
      isTypedSubject_iff.mpr ⟨kind, subject, subject_ne_nil, rfl⟩
    cases ticket? with
    | none => exact Or.inl typed
    | some ticket =>
        have whole : (⟨some ticket, kind, subject, subject_ne_nil⟩ : Parts).text =
            ticket.tag ++ (bracketed kind ++ ' ' :: subject) := rfl
        right
        rw [whole, readTicket?_tag]
        exact typed

private theorem readTag?_bracketed (kind : CommitType) (rest : List Char) :
    readTag? (bracketed kind ++ rest) = none := by
  cases kind <;> rfl

private theorem readType?_tag (letter : Char) (rest : List Char) :
    readType? ('[' :: letter :: '#' :: rest) = none := by
  cases read : readType? ('[' :: letter :: '#' :: rest) with
  | none => rfl
  | some reading =>
      obtain ⟨kind, after⟩ := reading
      have same := readType?_eq_some_iff.mp read
      cases kind <;> cases same

private theorem isTagChar_iff {c : Char} :
    isTagChar c = true ↔ (c.isUpper = true ∨ c.isDigit = true) ∨ c = '-' := by
  unfold isTagChar
  rw [Bool.or_eq_true, Bool.or_eq_true, beq_iff_eq]

private theorem tag_append (ticket : Ticket) (rest : List Char) :
    ticket.tag ++ rest =
      '[' :: ticket.letter :: '#' :: ((ticket.project ++ '-' :: ticket.number) ++ ']' :: rest) := by
  unfold Ticket.tag
  simp only [List.cons_append, List.append_assoc, List.nil_append]

private theorem bracket_notMem {inClass : Char → Bool} {run : List Char}
    (outside : inClass ']' = false) (all : ∀ c ∈ run, inClass c = true) : ']' ∉ run := by
  intro member
  rw [all ']' member] at outside
  cases outside

theorem readTag?_tag {ticket : Ticket} (capitals : ticket.InCapitals) (rest : List Char) :
    readTag? (ticket.tag ++ rest) = some rest := by
  refine readTag?_eq_some_iff.mpr
    ⟨ticket.letter, ticket.project ++ '-' :: ticket.number, ?_, ?_, tag_append ticket rest⟩
  · exact List.append_ne_nil_of_left_ne_nil ticket.project_ne_nil _
  · intro c member
    rw [isTagChar_iff]
    rcases List.mem_append.mp member with project | later
    · exact Or.inl (capitals c project)
    · rcases List.mem_cons.mp later with dash | number
      · exact Or.inr dash
      · exact Or.inl (Or.inr (ticket.number_digits c number))

theorem inCapitals_of_readTag? {ticket : Ticket} {rest after : List Char}
    (read : readTag? (ticket.tag ++ rest) = some after) : ticket.InCapitals := by
  obtain ⟨letter, identifier, -, inClass, same⟩ := readTag?_eq_some_iff.mp read
  rw [tag_append] at same
  simp only [List.cons.injEq, true_and] at same
  have strict : ']' ∉ ticket.project ++ '-' :: ticket.number := by
    intro member
    rcases List.mem_append.mp member with project | later
    · exact bracket_notMem rfl ticket.project_alphanum project
    · rcases List.mem_cons.mp later with dash | number
      · cases dash
      · exact bracket_notMem rfl ticket.number_digits number
  obtain ⟨whole, -⟩ := cut_unique strict (bracket_notMem rfl inClass) same.2
  subst whole
  intro c member
  have tagChar := isTagChar_iff.mp (inClass c (List.mem_append_left _ member))
  rcases tagChar with capital | dash
  · exact capital
  · subst c
    cases ticket.project_alphanum '-' member

private theorem type?_plain (kind : CommitType) (rest : List Char) :
    type? (bracketed kind ++ rest) = some kind := by
  unfold type?
  rw [readTag?_bracketed, readType?_bracketed]
  rfl

private theorem readType?_tag_append (ticket : Ticket) (rest : List Char) :
    readType? (ticket.tag ++ rest) = none := by
  rw [tag_append]
  exact readType?_tag _ _

/-- The type of a conforming line is the one it names, unless its ticket is not in capitals; then
no type is found. -/
theorem type?_text (parts : Parts) :
    type? parts.text = if parts.InCapitals then some parts.kind else none := by
  obtain ⟨ticket?, kind, subject, subject_ne_nil⟩ := parts
  cases ticket? with
  | none =>
      have capitals : Parts.InCapitals ⟨none, kind, subject, subject_ne_nil⟩ := by
        intro ticket impossible
        cases impossible
      rw [if_pos capitals]
      exact type?_plain kind _
  | some ticket =>
      change type? (ticket.tag ++ (bracketed kind ++ ' ' :: subject)) = _
      unfold type?
      rw [readType?_tag_append]
      by_cases capitals : ticket.InCapitals
      · have whole : Parts.InCapitals ⟨some ticket, kind, subject, subject_ne_nil⟩ := by
          intro other same
          cases same
          exact capitals
        rw [if_pos whole, readTag?_tag capitals, Option.bind_some, readType?_bracketed]
      · have missed : readTag? (ticket.tag ++ (bracketed kind ++ ' ' :: subject)) = none := by
          cases read : readTag? (ticket.tag ++ (bracketed kind ++ ' ' :: subject)) with
          | none => rfl
          | some after => exact absurd (inCapitals_of_readTag? read) capitals
        rw [if_neg (fun whole => capitals (whole ticket rfl)), missed]
        rfl

/-! ### The type that a line names -/

/-- What names a type at the start of a line: the type in brackets, after a lenient ticket tag or
not. -/
inductive Opening (kind : CommitType) : List Char → Prop where
  | plain : Opening kind ('[' :: (kind.token.toList ++ [']']))
  | tagged (letter : Char) {identifier : List Char} (nonempty : identifier ≠ [])
      (characters : ∀ c ∈ identifier, c.isUpper = true ∨ c.isDigit = true ∨ c = '-') :
      Opening kind ('[' :: letter :: '#' ::
        (identifier ++ ']' :: '[' :: (kind.token.toList ++ [']'])))

/-- A line names a type: it starts with an opening for it, whatever follows. -/
def Names (kind : CommitType) (cs : List Char) : Prop :=
  ∃ opening, Opening kind opening ∧ opening <+: cs

theorem type?_eq_some_iff {cs : List Char} {kind : CommitType} :
    type? cs = some kind ↔ Names kind cs := by
  constructor
  · intro found
    unfold type? at found
    split at found
    · next other after read =>
        cases found
        obtain ⟨rest, readTag, readType⟩ := Option.bind_eq_some_iff.mp read
        obtain ⟨letter, identifier, nonempty, inClass, whole⟩ := readTag?_eq_some_iff.mp readTag
        obtain rfl := readType?_eq_some_iff.mp readType
        refine ⟨_, .tagged letter nonempty ?_, after, ?_⟩
        · intro c member
          exact or_assoc.mp (isTagChar_iff.mp (inClass c member))
        · rw [whole]
          simp [bracketed]
    · obtain ⟨⟨other, after⟩, readType, rfl⟩ := Option.map_eq_some_iff.mp found
      exact ⟨_, .plain, after, (readType?_eq_some_iff.mp readType).symm⟩
  · rintro ⟨opening, opens, rest, rfl⟩
    cases opens with
    | plain => exact type?_plain kind rest
    | @tagged letter identifier nonempty characters =>
        have read : readTag? ('[' :: letter :: '#' :: (identifier ++ ']' :: bracketed kind) ++ rest) =
            some (bracketed kind ++ rest) := by
          refine readTag?_eq_some_iff.mpr ⟨letter, identifier, nonempty, ?_, by simp⟩
          intro c member
          exact isTagChar_iff.mpr (or_assoc.mpr (characters c member))
        change type? ('[' :: letter :: '#' :: (identifier ++ ']' :: bracketed kind) ++ rest) = _
        unfold type?
        rw [read, Option.bind_some, readType?_bracketed]

theorem type?_eq_none_iff {cs : List Char} : type? cs = none ↔ ∀ kind, ¬Names kind cs := by
  rw [Option.eq_none_iff_forall_ne_some]
  exact forall_congr' fun kind => not_congr type?_eq_some_iff

theorem Names.unique {kind other : CommitType} {cs : List Char} (names : Names kind cs)
    (again : Names other cs) : kind = other := by
  have found := type?_eq_some_iff.mpr names
  rw [type?_eq_some_iff.mpr again] at found
  exact (Option.some.inj found).symm

theorem isMerge_iff {cs : List Char} :
    isMerge cs = true ↔ ∃ text, text ≠ [] ∧ cs = "Merge ".toList ++ text := by
  unfold isMerge
  constructor
  · intro accepted
    split at accepted
    · rename_i text starts
      exact ⟨text, by simpa using accepted, Text.eq_of_isPrefixOf? starts⟩
    · cases accepted
  · intro merging
    obtain ⟨text, text_ne_nil, rfl⟩ := merging
    rw [List.isPrefixOf?_eq_some_iff_append_eq.mpr rfl]
    simpa using text_ne_nil

theorem isRevert_iff {cs : List Char} :
    isRevert cs = true ↔ ∃ title, title ≠ [] ∧ cs = "Revert \"".toList ++ (title ++ ['"']) := by
  unfold isRevert
  constructor
  · intro accepted
    split at accepted
    · rename_i after starts
      simp only [Bool.and_eq_true, beq_iff_eq, decide_eq_true_eq] at accepted
      obtain ⟨title, rfl⟩ := List.getLast?_eq_some_iff.mp accepted.1
      refine ⟨title, ?_, Text.eq_of_isPrefixOf? starts⟩
      intro empty
      subst empty
      exact absurd accepted.2 (by decide)
    · cases accepted
  · intro reverting
    obtain ⟨title, title_ne_nil, rfl⟩ := reverting
    have positive : 0 < title.length := List.length_pos_iff.mpr title_ne_nil
    have long : 2 ≤ (title ++ ['"']).length := by
      rw [List.length_append, List.length_singleton]
      omega
    rw [List.isPrefixOf?_eq_some_iff_append_eq.mpr rfl]
    simp only [List.getLast?_concat, beq_self_eq_true, long, decide_true, Bool.and_self]

end CommitCheck.Summary
