import CommitCheck.FileTree
import Mathlib.Data.List.Infix

set_option autoImplicit false

/-! Where paths lead. Following pieces is a relation that composes, so a path into a directory leads
to the entry that it names, whatever links there are on the way. -/

namespace CommitCheck.FileTree

theorem node?_eq_some_iff {files : FileTree} {place : Place} {node : Node} :
    files.node? place = some node ↔ files.held? place = some (.node node) := by
  unfold node?
  cases files.held? place with
  | none => simp
  | some entry => cases entry <;> simp [Entry.node?]

theorem link?_of_node? {files : FileTree} {place : Place} {node : Node}
    (present : files.node? place = some node) : files.link? place = none := by
  unfold link?
  rw [node?_eq_some_iff.mp present]
  rfl

theorem node?_of_none {files : FileTree} {place : Place} (missing : files.held? place = none) :
    files.node? place = none := by
  unfold node?
  rw [missing]
  rfl

theorem held?_eq_none {files : FileTree} {place : Place} (missing : files.node? place = none)
    (unlinked : files.link? place = none) : files.held? place = none := by
  unfold node? at missing
  unfold link? at unlinked
  cases present : files.held? place with
  | none => rfl
  | some entry =>
      rw [present] at missing unlinked
      cases entry with
      | node node => cases missing
      | link target => cases unlinked

theorem node?_congr {files other : FileTree} {place spot : Place}
    (same : files.held? place = other.held? spot) : files.node? place = other.node? spot := by
  unfold node?
  rw [same]

theorem link?_congr {files other : FileTree} {place spot : Place}
    (same : files.held? place = other.held? spot) : files.link? place = other.link? spot := by
  unfold link?
  rw [same]

theorem node?_nil (files : FileTree) : files.node? [] = some .directory :=
  rfl

private theorem split_ne_nil (piece : List Char) (cs : List Char) : Path.split piece cs ≠ [] := by
  induction cs generalizing piece with
  | nil => exact List.cons_ne_nil _ _
  | cons c cs ih =>
      unfold Path.split
      split
      · exact List.cons_ne_nil _ _
      · exact ih _

private theorem pieces_ne_nil {files : FileTree} {place : Place} {target : Path}
    (linked : files.link? place = some target) : target.pieces ≠ [] := by
  unfold link? at linked
  obtain ⟨entry, -, linked⟩ := Option.bind_eq_some_iff.mp linked
  cases entry with
  | node node => cases linked
  | link text =>
      cases linked
      exact split_ne_nil [] text.toList

/-- The pieces lead from one place to another, and of the links that may be gone through so many are
left. -/
inductive Leads (files : FileTree) (mayOpen : Place → Bool) (through : Bool) :
    Nat → Place → List String → Place → Nat → Prop where
  | done (links : Nat) (place : Place) :
      Leads files mayOpen through links place [] place links
  | step {links left : Nat} {place next last : Place} {piece : String} {pieces : List String}
      (followed : files.follow mayOpen place piece = .ok next)
      (unlinked : files.link? next = none)
      (rest : Leads files mayOpen through links next pieces last left) :
      Leads files mayOpen through links place (piece :: pieces) last left
  | enter {links left : Nat} {place next last : Place} {piece : String} {pieces : List String}
      {target : Path} (followed : files.follow mayOpen place piece = .ok next)
      (linked : files.link? next = some target) (goes : through = true ∨ pieces ≠ [])
      (rest : Leads files mayOpen through links (linkStart target next)
        (target.pieces ++ pieces) last left) :
      Leads files mayOpen through (links + 1) place (piece :: pieces) last left
  | stop {links : Nat} {place next : Place} {piece : String} {target : Path}
      (followed : files.follow mayOpen place piece = .ok next)
      (linked : files.link? next = some target) (stops : through = false) :
      Leads files mayOpen through links place [piece] next links

section Walks

variable {files : FileTree} {mayOpen : Place → Bool} {through : Bool}

theorem walk_nil (links : Nat) (place : Place) :
    files.walk mayOpen through links place [] = .ok place := by
  cases links <;> rfl

theorem walk_cons (links : Nat) (place : Place) (piece : String) (pieces : List String) :
    files.walk mayOpen through links place (piece :: pieces) =
      match files.follow mayOpen place piece with
      | .error fault => .error fault
      | .ok next =>
          match files.link? next with
          | none => files.walk mayOpen through links next pieces
          | some target =>
              if through || !pieces.isEmpty then
                match links with
                | 0 => .error .tooManyLinks
                | links + 1 =>
                    files.walk mayOpen through links (linkStart target next)
                      (target.pieces ++ pieces)
              else
                .ok next := by
  cases links <;> rfl

private theorem exists_leads_of_walkTo {enter : Place → List String → Except Fault Place}
    {links : Nat}
    (entered : ∀ place pieces last, enter place pieces = .ok last →
      ∃ fewer left, links = fewer + 1 ∧ Leads files mayOpen through fewer place pieces last left)
    {pieces : List String} {place last : Place}
    (walked : files.walkTo mayOpen through enter place pieces = .ok last) :
    ∃ left, Leads files mayOpen through links place pieces last left := by
  induction pieces generalizing place with
  | nil =>
      cases walked
      exact ⟨links, .done links last⟩
  | cons piece pieces ih =>
      unfold walkTo at walked
      cases followed : files.follow mayOpen place piece with
      | error fault =>
          rw [followed] at walked
          cases walked
      | ok next =>
          rw [followed] at walked
          dsimp only at walked
          cases linked : files.link? next with
          | none =>
              rw [linked] at walked
              obtain ⟨left, rest⟩ := ih walked
              exact ⟨left, .step followed linked rest⟩
          | some target =>
              rw [linked] at walked
              dsimp only at walked
              split at walked
              · rename_i goes
                obtain ⟨fewer, left, same, rest⟩ := entered _ _ _ walked
                subst same
                exact ⟨left, .enter followed linked (by simpa using goes) rest⟩
              · rename_i stays
                rw [Bool.not_eq_true, Bool.or_eq_false_iff, Bool.not_eq_false',
                  List.isEmpty_iff] at stays
                obtain ⟨stops, rfl⟩ := stays
                cases walked
                exact ⟨links, .stop followed linked stops⟩

private theorem exists_leads_of_walk {links : Nat} {place last : Place} {pieces : List String}
    (walked : files.walk mayOpen through links place pieces = .ok last) :
    ∃ left, Leads files mayOpen through links place pieces last left := by
  induction links generalizing place pieces last with
  | zero =>
      refine exists_leads_of_walkTo ?_ walked
      intro place pieces last impossible
      cases impossible
  | succ links ih =>
      refine exists_leads_of_walkTo ?_ walked
      intro place pieces last walked
      obtain ⟨left, rest⟩ := ih walked
      exact ⟨links, left, rfl, rest⟩

private theorem Leads.walk {links left : Nat} {place last : Place} {pieces : List String}
    (leads : Leads files mayOpen through links place pieces last left) :
    files.walk mayOpen through links place pieces = .ok last := by
  induction leads with
  | done links place => exact walk_nil links place
  | step followed unlinked rest ih =>
      rw [walk_cons, followed]
      simp only [unlinked]
      exact ih
  | enter followed linked goes rest ih =>
      rw [walk_cons, followed]
      simp only [linked]
      rw [if_pos (by simpa using goes)]
      exact ih
  | stop followed linked stops =>
      rw [walk_cons, followed]
      simp only [linked, stops]
      rfl

theorem walk_eq_ok_iff {links : Nat} {place last : Place} {pieces : List String} :
    files.walk mayOpen through links place pieces = .ok last ↔
      ∃ left, Leads files mayOpen through links place pieces last left :=
  ⟨exists_leads_of_walk, fun leads => Exists.elim leads fun _left leads => leads.walk⟩

theorem node?_of_follow {place next : Place} {piece : String}
    (followed : files.follow mayOpen place piece = .ok next) :
    files.node? place = some .directory := by
  unfold follow at followed
  split at followed
  · cases followed
  · cases followed
  · assumption

theorem follow_cases {place next : Place} {piece : String}
    (followed : files.follow mayOpen place piece = .ok next) :
    next = place ∨ next = place.dropLast ∨ next = place ++ [piece] := by
  have there := node?_of_follow followed
  unfold follow at followed
  rw [there] at followed
  dsimp only at followed
  repeat' split at followed
  all_goals cases followed
  · exact Or.inl rfl
  · exact Or.inl rfl
  · exact Or.inr (Or.inl rfl)
  · exact Or.inr (Or.inr rfl)

theorem follow_empty {place : Place} (there : files.node? place = some .directory) :
    files.follow mayOpen place "" = .ok place := by
  unfold follow
  rw [there]
  rfl

theorem Leads.node?_start {links left : Nat} {place last : Place} {piece : String}
    {pieces : List String}
    (leads : Leads files mayOpen through links place (piece :: pieces) last left) :
    files.node? place = some .directory := by
  cases leads with
  | step followed => exact node?_of_follow followed
  | enter followed => exact node?_of_follow followed
  | stop followed => exact node?_of_follow followed

theorem Leads.eq_of_slash {links left : Nat} {place last : Place}
    (leads : Leads files mayOpen through links place [""] last left) :
    last = place ∧ left = links := by
  have there := leads.node?_start
  cases leads with
  | step followed unlinked rest =>
      rw [follow_empty there] at followed
      cases followed
      cases rest
      exact ⟨rfl, rfl⟩
  | enter followed linked goes rest =>
      rw [follow_empty there] at followed
      cases followed
      rw [link?_of_node? there] at linked
      cases linked
  | stop followed linked stops =>
      rw [follow_empty there] at followed
      cases followed
      rw [link?_of_node? there] at linked
      cases linked

theorem Leads.append {links between left : Nat} {place middle last : Place}
    {front back : List String}
    (first : Leads files mayOpen true links place front middle between)
    (second : Leads files mayOpen through between middle back last left) (more : back ≠ []) :
    Leads files mayOpen through links place (front ++ back) last left := by
  induction first with
  | done links place => exact second
  | step followed unlinked rest ih => exact .step followed unlinked (ih second)
  | enter followed linked goes rest ih =>
      have onward := ih second
      rw [List.append_assoc] at onward
      exact .enter followed linked (Or.inr (List.append_ne_nil_of_right_ne_nil _ more)) onward
  | stop followed linked stops => cases stops

theorem Leads.split {links left : Nat} {place last : Place} {front back : List String}
    (whole : Leads files mayOpen through links place (front ++ back) last left)
    (more : back ≠ []) :
    ∃ middle between, Leads files mayOpen true links place front middle between ∧
      Leads files mayOpen through between middle back last left := by
  generalize all : front ++ back = pieces at whole
  induction whole generalizing front with
  | done links place => exact absurd (List.append_eq_nil_iff.mp all).2 more
  | step followed unlinked rest ih =>
      cases front with
      | nil =>
          subst all
          exact ⟨_, _, .done _ _, .step followed unlinked rest⟩
      | cons head front =>
          cases all
          obtain ⟨middle, between, first, second⟩ := ih rfl
          exact ⟨middle, between, .step followed unlinked first, second⟩
  | enter followed linked goes rest ih =>
      cases front with
      | nil =>
          subst all
          exact ⟨_, _, .done _ _, .enter followed linked goes rest⟩
      | cons head front =>
          cases all
          obtain ⟨middle, between, first, second⟩ := ih (List.append_assoc _ _ _)
          exact ⟨middle, between, .enter followed linked (Or.inl rfl) first, second⟩
  | stop followed linked stops =>
      cases front with
      | nil =>
          subst all
          exact ⟨_, _, .done _ _, .stop followed linked stops⟩
      | cons head front =>
          rw [List.cons_append, List.cons.injEq, List.append_eq_nil_iff] at all
          exact absurd all.2.2 more

theorem Leads.unlinked {links left : Nat} {place last : Place} {pieces : List String}
    (leads : Leads files mayOpen true links place pieces last left) (some : pieces ≠ []) :
    files.link? last = none := by
  induction leads with
  | done links place => exact absurd rfl some
  | @step _ _ _ _ _ _ pieces followed unlinked rest ih =>
      cases pieces with
      | nil =>
          cases rest
          exact unlinked
      | cons piece pieces => exact ih (List.cons_ne_nil piece pieces)
  | enter followed linked goes rest ih =>
      exact ih (List.append_ne_nil_of_left_ne_nil (pieces_ne_nil linked) _)
  | stop followed linked stops => cases stops

theorem Leads.through_of_unlinked {links left : Nat} {place last : Place} {pieces : List String}
    (leads : Leads files mayOpen through links place pieces last left)
    (unlinked : files.link? last = none) : Leads files mayOpen true links place pieces last left := by
  induction leads with
  | done links place => exact .done links place
  | step followed unlinked' rest ih => exact .step followed unlinked' (ih unlinked)
  | enter followed linked goes rest ih => exact .enter followed linked (Or.inl rfl) (ih unlinked)
  | stop followed linked stops =>
      rw [linked] at unlinked
      cases unlinked

end Walks

theorem locate_eq_ok_iff {files : FileTree} {path : Path} {mayOpen : Place → Bool}
    {place : Place} :
    files.locate path mayOpen = .ok place ↔
      pathFault? path = none ∧
        ∃ left, Leads files mayOpen true linkLimit [] path.pieces place left := by
  unfold locate
  cases pathFault? path with
  | some fault => simp
  | none => simp [walk_eq_ok_iff]

theorem locateEntry_eq_ok_iff {files : FileTree} {path : Path} {place : Place} :
    files.locateEntry path = .ok place ↔
      pathFault? path = none ∧
        ∃ left, Leads files everywhere false linkLimit [] path.pieces place left := by
  unfold locateEntry
  cases pathFault? path with
  | some fault => simp
  | none => simp [walk_eq_ok_iff]

theorem link?_of_locate {files : FileTree} {path : Path} {mayOpen : Place → Bool}
    {place : Place} (located : files.locate path mayOpen = .ok place) :
    files.link? place = none := by
  obtain ⟨-, left, leads⟩ := locate_eq_ok_iff.mp located
  by_cases some : path.pieces = []
  · rw [some] at leads
    cases leads
    exact link?_of_node? (node?_nil files)
  · exact leads.unlinked some

theorem find_eq_ok_iff {files : FileTree} {path : Path} {mayOpen : Place → Bool}
    {place : Place} {node : Node} :
    files.find path mayOpen = .ok (place, node) ↔
      files.locate path mayOpen = .ok place ∧ files.node? place = some node := by
  unfold find
  constructor
  · intro found
    split at found
    · cases found
    · rename_i located
      split at found
      · rename_i present
        cases found
        exact ⟨located, present⟩
      · cases found
  · intro both
    obtain ⟨located, present⟩ := both
    rw [located]
    simp only [present]

theorem find_of_missing {files : FileTree} {path : Path} {place : Place}
    (located : files.locate path = .ok place) (missing : files.node? place = none) :
    files.find path = .error .notFound := by
  unfold find
  rw [located]
  simp only [missing]

theorem find_of_unlocated {files : FileTree} {path : Path} {fault : Fault}
    (unlocated : files.locate path = .error fault) : files.find path = .error fault := by
  unfold find
  rw [unlocated]

theorem exists_file_of_read {files : FileTree} {path : Path} {mayOpen : Place → Bool}
    {content : List UInt8} (done : files.read path mayOpen = .ok content) :
    ∃ place mode, files.find path mayOpen = .ok (place, .file content mode) := by
  unfold read at done
  split at done
  · cases done
  · rename_i place node found
    split at done
    · cases done
    · cases node with
      | directory => cases done
      | file content' mode =>
          cases done
          exact ⟨place, mode, found⟩

theorem read_eq_ok_iff {files : FileTree} {path : Path} {content : List UInt8} :
    files.read path = .ok content ↔
      ∃ place mode, files.find path = .ok (place, .file content mode) := by
  refine ⟨exists_file_of_read, ?_⟩
  intro isFile
  obtain ⟨place, mode, found⟩ := isFile
  unfold read
  rw [found]
  rfl

theorem find_of_readText {files : FileTree} {path : Path} {text : String}
    (done : files.readText path = .ok text) :
    ∃ place content mode, files.find path = .ok (place, .file content mode) ∧
      Text.decode? content = some text := by
  unfold readText at done
  cases held : files.read path with
  | error fault =>
      rw [held] at done
      cases done
  | ok content =>
      rw [held] at done
      dsimp only at done
      cases decoded : Text.decode? content with
      | none =>
          rw [decoded] at done
          cases done
      | some script =>
          rw [decoded] at done
          cases done
          obtain ⟨place, mode, found⟩ := read_eq_ok_iff.mp held
          exact ⟨place, content, mode, found, decoded⟩

theorem directory_of_find {files : FileTree} {path : Path} {mayOpen : Place → Bool}
    {place : Place} {node : Node} (slash : path.pieces.getLast? = some "")
    (found : files.find path mayOpen = .ok (place, node)) : node = .directory := by
  obtain ⟨located, present⟩ := find_eq_ok_iff.mp found
  obtain ⟨-, left, leads⟩ := locate_eq_ok_iff.mp located
  obtain ⟨pieces, whole⟩ := List.getLast?_eq_some_iff.mp slash
  rw [whole] at leads
  obtain ⟨middle, between, -, last⟩ := leads.split (List.cons_ne_nil "" [])
  rw [last.eq_of_slash.1, last.node?_start] at present
  exact (Option.some.inj present).symm

/-! ### Paths into a directory -/

/-- A name that can stand for an entry of a directory. -/
structure EntryName (name : String) : Prop where
  proper : Path.isIdle name = false
  down : name ≠ ".."
  short : name.utf8ByteSize ≤ nameLimit

theorem follow_entry {files : FileTree} {place : Place} {name : String} (entry : EntryName name)
    (there : files.node? place = some .directory) :
    files.follow everywhere place name = .ok (place ++ [name]) := by
  have some : name ≠ "" := by
    intro empty
    subst empty
    cases entry.proper
  unfold follow everywhere
  rw [there]
  simp only [entry.proper, Bool.not_true, Bool.false_eq_true, if_false, if_neg some,
    if_neg entry.down, if_neg (Nat.not_lt.mpr entry.short)]

private theorem leads_stem {files : FileTree} {path : Path} {place : Place} {left : Nat}
    (leads : Leads files everywhere true linkLimit [] path.pieces place left) :
    ∃ left, Leads files everywhere true linkLimit [] path.stem place left := by
  unfold Path.stem
  split
  · rename_i trailing
    obtain ⟨front, whole⟩ := List.getLast?_eq_some_iff.mp trailing
    rw [whole] at leads
    obtain ⟨middle, between, first, second⟩ := leads.split (List.cons_ne_nil "" [])
    rw [whole, List.dropLast_concat, second.eq_of_slash.1]
    exact ⟨between, first⟩
  · exact ⟨left, leads⟩

private theorem leads_pieces {files : FileTree} {path : Path} {place : Place} {left : Nat}
    (there : files.node? place = some .directory)
    (leads : Leads files everywhere true linkLimit [] path.stem place left) :
    Leads files everywhere true linkLimit [] path.pieces place left := by
  unfold Path.stem at leads
  split at leads
  · rename_i trailing
    obtain ⟨front, whole⟩ := List.getLast?_eq_some_iff.mp trailing
    rw [whole, List.dropLast_concat] at leads
    rw [whole]
    exact leads.append (.step (follow_empty there) (link?_of_node? there) (.done left place))
      (List.cons_ne_nil "" [])
  · exact leads

section Children

variable {files : FileTree} {path : Path} {place : Place} {name : String}

/-- The path of an entry leads to the place of the entry, unless the path itself is at fault. -/
theorem locateEntry_child (there : files.find path = .ok (place, .directory))
    (entry : EntryName name) (faultless : pathFault? (path.child name) = none) :
    files.locateEntry (path.child name) = .ok (place ++ [name]) := by
  obtain ⟨located, directory⟩ := find_eq_ok_iff.mp there
  obtain ⟨-, left, leads⟩ := locate_eq_ok_iff.mp located
  obtain ⟨left, leads⟩ := leads_stem leads
  have followed := follow_entry entry directory
  refine locateEntry_eq_ok_iff.mpr ⟨faultless, left, leads.append ?_ (List.cons_ne_nil name [])⟩
  cases linked : files.link? (place ++ [name]) with
  | none => exact .step followed linked (.done left _)
  | some target => exact .stop followed linked rfl

theorem place_of_locateEntry_child {spot : Place}
    (there : files.find path = .ok (place, .directory)) (entry : EntryName name)
    (located : files.locateEntry (path.child name) = .ok spot) : spot = place ++ [name] := by
  rw [locateEntry_child there entry (locateEntry_eq_ok_iff.mp located).1] at located
  exact (Except.ok.inj located).symm

/-- Where the entry is no link, it is all that its path leads to. -/
theorem locate_child (there : files.find path = .ok (place, .directory))
    (entry : EntryName name) (unlinked : files.link? (place ++ [name]) = none)
    (faultless : pathFault? (path.child name) = none) :
    files.locate (path.child name) = .ok (place ++ [name]) := by
  have located := locateEntry_child there entry faultless
  obtain ⟨-, left, leads⟩ := locateEntry_eq_ok_iff.mp located
  exact locate_eq_ok_iff.mpr ⟨faultless, left, leads.through_of_unlinked unlinked⟩

theorem place_of_locate_child {spot : Place}
    (there : files.find path = .ok (place, .directory)) (entry : EntryName name)
    (unlinked : files.link? (place ++ [name]) = none)
    (located : files.locate (path.child name) = .ok spot) : spot = place ++ [name] := by
  rw [locate_child there entry unlinked (locate_eq_ok_iff.mp located).1] at located
  exact (Except.ok.inj located).symm

end Children

theorem pathFault?_eq_none_iff {path : Path} :
    pathFault? path = none ↔
      '\x00' ∉ path.text.toList ∧ path.text.utf8ByteSize ≤ pathLimit := by
  unfold pathFault?
  rw [String.contains_char_eq]
  by_cases null : '\x00' ∈ path.text.toList
  · simp [null]
  · simp [null]

private theorem text_concat (pieces : List String) (name : String) :
    Path.text ⟨pieces ++ [name]⟩ =
      if pieces = [] then name else Path.text ⟨pieces⟩ ++ "/" ++ name := by
  unfold Path.text
  by_cases empty : pieces = []
  · subst empty
    exact String.intercalate_singleton
  · rw [if_neg empty, String.intercalate_append_of_ne_nil empty (List.cons_ne_nil name []),
      String.intercalate_singleton]

theorem text_child (path : Path) (name : String) :
    ∃ rest, (path.child name).text = path.text ++ rest := by
  unfold Path.child
  rw [text_concat]
  cases path with
  | mk pieces =>
      by_cases trailing : pieces.getLast? = some ""
      · obtain ⟨front, rfl⟩ := List.getLast?_eq_some_iff.mp trailing
        unfold Path.stem
        rw [if_pos trailing, List.dropLast_concat, text_concat]
        by_cases single : front = []
        · rw [if_pos single, if_pos single]
          exact ⟨name, String.empty_append.symm⟩
        · rw [if_neg single, if_neg single]
          exact ⟨name, by rw [String.append_empty]⟩
      · unfold Path.stem
        rw [if_neg trailing]
        by_cases empty : pieces = []
        · subst empty
          exact ⟨name, String.empty_append.symm⟩
        · rw [if_neg empty]
          exact ⟨"/" ++ name, String.append_assoc⟩

theorem text_child_append (path : Path) (name ending : String) :
    (path.child (name ++ ending)).text = (path.child name).text ++ ending := by
  unfold Path.child
  rw [text_concat, text_concat]
  by_cases empty : path.stem = []
  · rw [if_pos empty, if_pos empty]
  · rw [if_neg empty, if_neg empty, ← String.append_assoc]

theorem pathFault?_of_append {path longer : Path} {rest : String}
    (text : longer.text = path.text ++ rest) (faultless : pathFault? longer = none) :
    pathFault? path = none := by
  obtain ⟨noNull, short⟩ := pathFault?_eq_none_iff.mp faultless
  rw [text, String.toList_append] at noNull
  rw [text, String.utf8ByteSize_append] at short
  refine pathFault?_eq_none_iff.mpr ⟨?_, by omega⟩
  intro null
  exact noNull (List.mem_append_left rest.toList null)

private theorem exists_directory_of_leads {files : FileTree} {path : Path} {name : String}
    {through : Bool} {spot : Place} {left : Nat} (faultless : pathFault? (path.child name) = none)
    (leads : Leads files everywhere through linkLimit [] (path.stem ++ [name]) spot left) :
    ∃ place, files.find path = .ok (place, .directory) := by
  obtain ⟨rest, text⟩ := text_child path name
  obtain ⟨place, between, first, second⟩ := leads.split (List.cons_ne_nil name [])
  have there := second.node?_start
  refine ⟨place, find_eq_ok_iff.mpr ⟨?_, there⟩⟩
  exact locate_eq_ok_iff.mpr
    ⟨pathFault?_of_append text faultless, between, leads_pieces there first⟩

theorem exists_directory_of_locate_child {files : FileTree} {path : Path} {name : String}
    {spot : Place} (located : files.locate (path.child name) = .ok spot) :
    ∃ place, files.find path = .ok (place, .directory) := by
  obtain ⟨faultless, left, leads⟩ := locate_eq_ok_iff.mp located
  exact exists_directory_of_leads faultless leads

theorem exists_directory_of_locateEntry_child {files : FileTree} {path : Path} {name : String}
    {spot : Place} (located : files.locateEntry (path.child name) = .ok spot) :
    ∃ place, files.find path = .ok (place, .directory) := by
  obtain ⟨faultless, left, leads⟩ := locateEntry_eq_ok_iff.mp located
  exact exists_directory_of_leads faultless leads

end CommitCheck.FileTree
