import CommitCheck.Proofs.Paths

set_option autoImplicit false

/-! Views of file trees. Moving is read off place by place, like putting and erasing beside their
definitions. Two trees that differ only at and below places where neither has a directory or a link
cannot be told apart by following a path to any other place. -/

namespace CommitCheck.FileTree

private theorem lookup_map_key (rekey : Place → Place) {entries : List (Place × Entry)}
    {key place : Place} (exact : ∀ entry ∈ entries, rekey entry.1 = key ↔ entry.1 = place) :
    (entries.map fun entry => (rekey entry.1, entry.2)).lookup key = entries.lookup place := by
  induction entries with
  | nil => rfl
  | cons entry entries ih =>
      have others := ih (fun other member => exact other (List.mem_cons_of_mem entry member))
      have head := exact entry List.mem_cons_self
      rw [List.map_cons, List.lookup_cons, List.lookup_cons, others]
      by_cases same : entry.1 = place
      · rw [head.mpr same, same, beq_self_eq_true, beq_self_eq_true]
      · have apart : ¬rekey entry.1 = key := fun equal => same (head.mp equal)
        rw [beq_false_of_ne (Ne.symm same), beq_false_of_ne (Ne.symm apart)]

private theorem lookup_map_none (rekey : Place → Place) {entries : List (Place × Entry)}
    {key : Place} (missing : ∀ entry ∈ entries, rekey entry.1 ≠ key) :
    (entries.map fun entry => (rekey entry.1, entry.2)).lookup key = none := by
  induction entries with
  | nil => rfl
  | cons entry entries ih =>
      rw [List.map_cons, List.lookup_cons,
        beq_false_of_ne (Ne.symm (missing entry List.mem_cons_self))]
      exact ih (fun other member => missing other (List.mem_cons_of_mem entry member))

/-- Two places neither of which is at or below the other. -/
def Apart (first second : Place) : Prop :=
  ¬first <+: second ∧ ¬second <+: first

theorem Apart.symm {first second : Place} (apart : Apart first second) : Apart second first :=
  ⟨apart.2, apart.1⟩

theorem Apart.not_prefix_append {first second : Place} (apart : Apart first second)
    (below : Place) : ¬first <+: second ++ below := by
  intro starts
  rcases List.prefix_or_prefix_of_prefix starts (List.prefix_append second below) with
    under | above
  · exact apart.1 under
  · exact apart.2 above

theorem Apart.ne_nil {first second : Place} (apart : Apart first second) : first ≠ [] := by
  intro empty
  subst empty
  exact apart.1 List.nil_prefix

private theorem moved_append (source target below : Place) :
    moved source target (source ++ below) = target ++ below := by
  unfold moved
  rw [List.isPrefixOf?_eq_some_iff_append_eq.mpr rfl]

private theorem moved_of_outside {source place : Place} (target : Place)
    (outside : ¬source <+: place) : moved source target place = place := by
  unfold moved
  split
  · rename_i below found
    exact absurd ⟨below, List.append_eq_of_isPrefixOf?_eq_some found⟩ outside
  · rfl

private theorem held?_move_eq {source target other : Place} (files : FileTree)
    (apart : Apart source target) (below : other ≠ []) :
    (files.move source target).held? other =
      ((files.erase target).entries.map
        fun entry => (moved source target entry.1, entry.2)).lookup other := by
  have different : source ≠ target := by
    intro same
    subst same
    exact apart.1 List.prefix_rfl
  unfold held? move
  rw [if_neg different, if_neg (by simpa using below)]

private theorem isPrefixOf_eq_false_iff {target place : Place} :
    target.isPrefixOf place = false ↔ ¬target <+: place := by
  rw [Bool.eq_false_iff, ne_eq, List.isPrefixOf_iff_prefix]

private theorem mem_erase {files : FileTree} {target : Place} {entry : Place × Entry}
    (member : entry ∈ (files.erase target).entries) : ¬target <+: entry.1 := by
  unfold erase at member
  have kept := (List.mem_filter.mp member).2
  rw [Bool.not_eq_true'] at kept
  exact isPrefixOf_eq_false_iff.mp kept

private theorem lookup_erase {target place : Place} (files : FileTree)
    (outside : ¬target <+: place) :
    (files.erase target).entries.lookup place = files.entries.lookup place := by
  unfold erase
  rw [lookup_filter (fun key => !target.isPrefixOf key), isPrefixOf_eq_false_iff.mpr outside]
  rfl

theorem held?_move_target {source target : Place} (files : FileTree)
    (apart : Apart source target) (below : Place) :
    (files.move source target).held? (target ++ below) = files.held? (source ++ below) := by
  have targetBelow : target ++ below ≠ [] := List.append_ne_nil_of_left_ne_nil apart.symm.ne_nil _
  have sourceBelow : source ++ below ≠ [] := List.append_ne_nil_of_left_ne_nil apart.ne_nil _
  have exact : ∀ entry ∈ (files.erase target).entries,
      moved source target entry.1 = target ++ below ↔ entry.1 = source ++ below := by
    intro entry member
    by_cases inside : source <+: entry.1
    · obtain ⟨rest, whole⟩ := inside
      rw [← whole, moved_append, List.append_cancel_left_eq, List.append_cancel_left_eq]
    · rw [moved_of_outside target inside]
      constructor
      · intro same
        exact absurd ⟨below, same.symm⟩ (mem_erase member)
      · intro same
        exact absurd ⟨below, same.symm⟩ inside
  rw [held?_move_eq files apart targetBelow, lookup_map_key (moved source target) exact,
    lookup_erase files (apart.symm.not_prefix_append below)]
  unfold held?
  rw [if_neg (by simpa using sourceBelow)]

theorem held?_move_source {source target : Place} (files : FileTree)
    (apart : Apart source target) (below : Place) :
    (files.move source target).held? (source ++ below) = none := by
  rw [held?_move_eq files apart (List.append_ne_nil_of_left_ne_nil apart.ne_nil _)]
  apply lookup_map_none
  intro entry _member
  by_cases inside : source <+: entry.1
  · obtain ⟨rest, whole⟩ := inside
    rw [← whole, moved_append]
    intro same
    exact apart.symm.not_prefix_append below ⟨rest, same⟩
  · rw [moved_of_outside target inside]
    intro same
    exact inside ⟨below, same.symm⟩

theorem held?_move_of_outside {source target other : Place} (files : FileTree)
    (apart : Apart source target) (offSource : ¬source <+: other) (offTarget : ¬target <+: other) :
    (files.move source target).held? other = files.held? other := by
  by_cases root : other = []
  · subst root
    rfl
  · have exact : ∀ entry ∈ (files.erase target).entries,
        moved source target entry.1 = other ↔ entry.1 = other := by
      intro entry _member
      by_cases inside : source <+: entry.1
      · obtain ⟨rest, whole⟩ := inside
        rw [← whole, moved_append]
        constructor
        · intro same
          exact absurd ⟨rest, same⟩ offTarget
        · intro same
          exact absurd ⟨rest, same⟩ offSource
      · rw [moved_of_outside target inside]
    rw [held?_move_eq files apart root, lookup_map_key (moved source target) exact,
      lookup_erase files offTarget]
    unfold held?
    rw [if_neg (by simpa using root)]

/-- Every entry is in a directory. -/
def Tidy (files : FileTree) : Prop :=
  ∀ place name, files.held? (place ++ [name]) ≠ none → files.node? place = some .directory

theorem Tidy.held?_below {files : FileTree} (tidy : files.Tidy) {place : Place}
    (closed : files.node? place ≠ some .directory) {below : List String} (inside : below ≠ []) :
    files.held? (place ++ below) = none := by
  induction below using List.reverseRecOn with
  | nil => exact absurd rfl inside
  | append_singleton upper name ih =>
      by_contra present
      rw [← List.append_assoc] at present
      have there := tidy _ _ present
      cases upper with
      | nil =>
          rw [List.append_nil] at there
          exact closed there
      | cons piece pieces =>
          rw [node?_eq_some_iff, ih (List.cons_ne_nil piece pieces)] at there
          cases there

/-! ### Trees that differ at certain places -/

/-- No path goes on from the place: it has neither a directory nor a link. -/
structure Closed (files : FileTree) (place : Place) : Prop where
  noDirectory : files.node? place ≠ some .directory
  unlinked : files.link? place = none

theorem closed_of_none {files : FileTree} {place : Place} (missing : files.held? place = none) :
    Closed files place := by
  constructor
  · rw [ne_eq, node?_eq_some_iff, missing]
    intro impossible
    cases impossible
  · unfold link?
    rw [missing]
    rfl

theorem closed_of_file {files : FileTree} {place : Place} {content : List UInt8} {mode : Nat}
    (present : files.node? place = some (.file content mode)) : Closed files place := by
  refine ⟨?_, link?_of_node? present⟩
  rw [present]
  intro impossible
  cases impossible

theorem ne_nil_of_noDirectory {files : FileTree} {place : Place}
    (noDirectory : files.node? place ≠ some .directory) : place ≠ [] := by
  intro root
  subst root
  exact noDirectory (node?_nil files)

theorem Closed.ne_nil {files : FileTree} {place : Place} (closed : Closed files place) :
    place ≠ [] :=
  ne_nil_of_noDirectory closed.noDirectory

theorem Closed.congr {files other : FileTree} {place : Place} (closed : Closed files place)
    (same : other.held? place = files.held? place) : Closed other place :=
  ⟨node?_congr same ▸ closed.noDirectory, link?_congr same ▸ closed.unlinked⟩

def AgreeOff (spots : List Place) (before after : FileTree) : Prop :=
  ∀ place, (∀ spot ∈ spots, ¬spot <+: place) → after.held? place = before.held? place

/-- The trees differ at most at and below the spots, where no path goes on in either of them. -/
structure DifferAt (spots : List Place) (before after : FileTree) : Prop where
  elsewhere : AgreeOff spots before after
  closedBefore : ∀ spot ∈ spots, Closed before spot
  closedAfter : ∀ spot ∈ spots, Closed after spot

def Clear (spots : List Place) (place : Place) : Prop :=
  ∀ spot ∈ spots, spot <+: place → spot = place

theorem DifferAt.symm {spots : List Place} {before after : FileTree}
    (differ : DifferAt spots before after) : DifferAt spots after before :=
  { elsewhere := fun place outside => (differ.elsewhere place outside).symm
    closedBefore := differ.closedAfter
    closedAfter := differ.closedBefore }

theorem DifferAt.trans {spots : List Place} {before between after : FileTree}
    (first : DifferAt spots before between) (second : DifferAt spots between after) :
    DifferAt spots before after :=
  { elsewhere := by
      intro place outside
      rw [second.elsewhere place outside, first.elsewhere place outside]
    closedBefore := first.closedBefore
    closedAfter := second.closedAfter }

theorem DifferAt.widen {spots wider : List Place} {before after : FileTree}
    (differ : DifferAt spots before after) (inside : spots ⊆ wider)
    (closedBefore : ∀ spot ∈ wider, Closed before spot)
    (closedAfter : ∀ spot ∈ wider, Closed after spot) : DifferAt wider before after :=
  { elsewhere := fun place outside =>
      differ.elsewhere place (fun spot member => outside spot (inside member))
    closedBefore := closedBefore
    closedAfter := closedAfter }

theorem clear_nil (spots : List Place) : Clear spots [] :=
  fun _spot _member above => List.prefix_nil.mp above

section Clear

variable {spots : List Place} {files : FileTree} {mayOpen : Place → Bool} {place next : Place}

private theorem clear_dropLast (outside : ∀ spot ∈ spots, ¬spot <+: place) :
    Clear spots place.dropLast :=
  fun spot member above =>
    absurd (above.trans (List.dropLast_prefix place)) (outside spot member)

private theorem Clear.outside (clear : Clear spots place) (off : place ∉ spots) :
    ∀ spot ∈ spots, ¬spot <+: place := by
  intro spot member above
  obtain rfl := clear spot member above
  exact off member

private theorem Clear.outside_directory (clear : Clear spots place)
    (closed : ∀ spot ∈ spots, Closed files spot)
    (there : files.node? place = some .directory) : ∀ spot ∈ spots, ¬spot <+: place :=
  clear.outside fun member => (closed place member).noDirectory there

private theorem Clear.follow {piece : String} (clear : Clear spots place)
    (closed : ∀ spot ∈ spots, Closed files spot)
    (followed : files.follow mayOpen place piece = .ok next) : Clear spots next := by
  have outside := clear.outside_directory closed (node?_of_follow followed)
  rcases follow_cases followed with same | above | below
  · rw [same]
    exact clear
  · rw [above]
    exact clear_dropLast outside
  · rw [below]
    intro spot member above
    rcases List.prefix_concat_iff.mp above with same | upper
    · exact same
    · exact absurd upper (outside spot member)

private theorem Clear.linkStart {target : Path} (clear : Clear spots place)
    (closed : ∀ spot ∈ spots, Closed files spot) (linked : files.link? place = some target) :
    Clear spots (linkStart target place) := by
  unfold FileTree.linkStart
  split
  · exact clear_nil spots
  · apply clear_dropLast
    apply clear.outside
    intro member
    rw [(closed place member).unlinked] at linked
    cases linked

end Clear

private theorem follow_congr {files other : FileTree} {mayOpen : Place → Bool} {place : Place}
    (same : files.held? place = other.held? place) (piece : String) :
    files.follow mayOpen place piece = other.follow mayOpen place piece := by
  unfold follow
  rw [node?_congr same]

private theorem Leads.of_agreeOff {spots : List Place} {before after : FileTree}
    (agree : AgreeOff spots before after) (closed : ∀ spot ∈ spots, Closed before spot)
    {mayOpen : Place → Bool} {through : Bool} {links left : Nat} {place last : Place}
    {pieces : List String} (clear : Clear spots place)
    (leads : Leads before mayOpen through links place pieces last left)
    (free : last ∈ spots → after.link? last = none) :
    Leads after mayOpen through links place pieces last left ∧ Clear spots last := by
  have follows {place next : Place} {piece : String} (clear : Clear spots place)
      (followed : before.follow mayOpen place piece = .ok next) :
      after.follow mayOpen place piece = .ok next := by
    rw [follow_congr (agree place (clear.outside_directory closed (node?_of_follow followed))),
      followed]
  have linked {place : Place} {target : Path} (clear : Clear spots place)
      (linked : before.link? place = some target) : after.link? place = some target := by
    have off : place ∉ spots := by
      intro member
      rw [(closed place member).unlinked] at linked
      cases linked
    rw [link?_congr (agree place (clear.outside off)), linked]
  induction leads with
  | done links place => exact ⟨.done links place, clear⟩
  | @step _ _ _ next _ _ pieces followed unlinked rest ih =>
      have onward := clear.follow closed followed
      obtain ⟨leads, last⟩ := ih onward free
      refine ⟨.step (follows clear followed) ?_ leads, last⟩
      by_cases member : next ∈ spots
      · -- The walk ends at a spot, since nothing can be followed from there.
        cases pieces with
        | nil =>
            cases rest
            exact free member
        | cons piece pieces => exact absurd rest.node?_start (closed next member).noDirectory
      · exact (link?_congr (agree next (onward.outside member))).trans unlinked
  | enter followed linked' goes rest ih =>
      have onward := clear.follow closed followed
      obtain ⟨leads, last⟩ := ih (onward.linkStart closed linked') free
      exact ⟨.enter (follows clear followed) (linked onward linked') goes leads, last⟩
  | stop followed linked' stops =>
      have onward := clear.follow closed followed
      exact ⟨.stop (follows clear followed) (linked onward linked') stops, onward⟩

theorem find_of_agreeOff {spots : List Place} {before after : FileTree}
    (agree : AgreeOff spots before after) (closed : ∀ spot ∈ spots, Closed before spot)
    {path : Path} {place : Place} {node : Node} (off : place ∉ spots)
    (found : before.find path = .ok (place, node)) : after.find path = .ok (place, node) := by
  obtain ⟨located, present⟩ := find_eq_ok_iff.mp found
  obtain ⟨faultless, left, leads⟩ := locate_eq_ok_iff.mp located
  obtain ⟨leads, clear⟩ :=
    leads.of_agreeOff agree closed (clear_nil spots) (fun member => absurd member off)
  exact find_eq_ok_iff.mpr ⟨locate_eq_ok_iff.mpr ⟨faultless, left, leads⟩,
    (node?_congr (agree place (clear.outside off))).trans present⟩

section Differing

variable {spots : List Place} {before after : FileTree}

theorem DifferAt.locate (differ : DifferAt spots before after) {path : Path} {place : Place}
    (located : before.locate path = .ok place) :
    after.locate path = .ok place ∧ Clear spots place := by
  obtain ⟨faultless, left, leads⟩ := locate_eq_ok_iff.mp located
  obtain ⟨leads, clear⟩ := leads.of_agreeOff differ.elsewhere differ.closedBefore
    (clear_nil spots) fun member => (differ.closedAfter place member).unlinked
  exact ⟨locate_eq_ok_iff.mpr ⟨faultless, left, leads⟩, clear⟩

theorem DifferAt.locateEntry (differ : DifferAt spots before after) {path : Path}
    {place : Place} (located : before.locateEntry path = .ok place) :
    after.locateEntry path = .ok place := by
  obtain ⟨faultless, left, leads⟩ := locateEntry_eq_ok_iff.mp located
  have same := leads.of_agreeOff differ.elsewhere differ.closedBefore (clear_nil spots)
    fun member => (differ.closedAfter place member).unlinked
  exact locateEntry_eq_ok_iff.mpr ⟨faultless, left, same.1⟩

theorem DifferAt.find_iff (differ : DifferAt spots before after) {path : Path} {place : Place}
    {node : Node} (off : place ∉ spots) :
    after.find path = .ok (place, node) ↔ before.find path = .ok (place, node) :=
  ⟨find_of_agreeOff differ.symm.elsewhere differ.closedAfter off,
    find_of_agreeOff differ.elsewhere differ.closedBefore off⟩

private theorem DifferAt.held?_of_clear (differ : DifferAt spots before after)
    (same : ∀ spot ∈ spots, after.held? spot = before.held? spot) {place : Place}
    (clear : Clear spots place) : after.held? place = before.held? place := by
  by_cases member : place ∈ spots
  · exact same place member
  · exact differ.elsewhere place (clear.outside member)

private theorem DifferAt.walkTo_eq (differ : DifferAt spots before after)
    (same : ∀ spot ∈ spots, after.held? spot = before.held? spot) {mayOpen : Place → Bool}
    {through : Bool} {enter enter' : Place → List String → Except Fault Place}
    (entered : ∀ place pieces, Clear spots place → enter' place pieces = enter place pieces)
    {place : Place} (clear : Clear spots place) (pieces : List String) :
    after.walkTo mayOpen through enter' place pieces =
      before.walkTo mayOpen through enter place pieces := by
  induction pieces generalizing place with
  | nil => rfl
  | cons piece pieces ih =>
      unfold walkTo
      rw [follow_congr (differ.held?_of_clear same clear)]
      cases followed : before.follow mayOpen place piece with
      | error fault => rfl
      | ok next =>
          have onward := clear.follow differ.closedBefore followed
          simp only [link?_congr (differ.held?_of_clear same onward), ih onward]
          cases linked : before.link? next with
          | none => rfl
          | some target =>
              simp only [entered _ _ (onward.linkStart differ.closedBefore linked)]

private theorem DifferAt.walk_eq (differ : DifferAt spots before after)
    (same : ∀ spot ∈ spots, after.held? spot = before.held? spot) {mayOpen : Place → Bool}
    {through : Bool} (links : Nat) {place : Place} (clear : Clear spots place)
    (pieces : List String) :
    after.walk mayOpen through links place pieces =
      before.walk mayOpen through links place pieces := by
  induction links generalizing place pieces with
  | zero => exact differ.walkTo_eq same (fun _ _ _ => rfl) clear pieces
  | succ links ih => exact differ.walkTo_eq same (fun _ pieces clear => ih clear pieces) clear pieces

theorem DifferAt.find_eq (differ : DifferAt spots before after)
    (same : ∀ spot ∈ spots, after.held? spot = before.held? spot) (path : Path) :
    after.find path = before.find path := by
  have locates : after.locate path = before.locate path := by
    unfold FileTree.locate
    rw [differ.walk_eq same linkLimit (clear_nil spots)]
  cases located : before.locate path with
  | error fault =>
      rw [find_of_unlocated located, find_of_unlocated (locates.trans located)]
  | ok place =>
      have clear := (differ.locate located).2
      unfold find
      rw [locates, located]
      simp only [node?_congr (differ.held?_of_clear same clear)]

end Differing

/-! ### Single operations -/

def content? (files : FileTree) (place : Place) : Option (List UInt8) :=
  match files.node? place with
  | some (.file content _) => some content
  | _ => none

theorem content?_eq_some_iff {files : FileTree} {place : Place} {content : List UInt8} :
    files.content? place = some content ↔
      ∃ mode, files.node? place = some (.file content mode) := by
  unfold content?
  cases files.node? place with
  | none => simp
  | some node => cases node <;> simp

theorem content?_congr {files other : FileTree} {place spot : Place}
    (same : files.held? place = other.held? spot) :
    files.content? place = other.content? spot := by
  unfold content?
  rw [node?_congr same]

theorem content?_of_none {files : FileTree} {place : Place} (missing : files.held? place = none) :
    files.content? place = none := by
  unfold content? node?
  rw [missing]
  rfl

theorem content?_put (files : FileTree) {spot : Place} (below : spot ≠ [])
    (content : List UInt8) (mode : Nat) (place : Place) :
    (files.put spot (.file content mode)).content? place =
      if place = spot then some content else files.content? place := by
  by_cases same : place = spot
  · rw [if_pos same]
    refine content?_eq_some_iff.mpr ⟨mode, node?_eq_some_iff.mpr ?_⟩
    rw [held?_put files below, if_pos same]
  · rw [if_neg same]
    apply content?_congr
    rw [held?_put files below, if_neg same]

theorem held?_put_self (files : FileTree) {spot : Place} (below : spot ≠ []) (node : Node) :
    (files.put spot node).held? spot = some (.node node) := by
  rw [held?_put files below, if_pos rfl]

theorem node?_put_self (files : FileTree) {spot : Place} (below : spot ≠ []) (node : Node) :
    (files.put spot node).node? spot = some node :=
  node?_eq_some_iff.mpr (held?_put_self files below node)

theorem differAt_put {files : FileTree} {spot : Place} (closed : Closed files spot)
    (content : List UInt8) (mode : Nat) :
    DifferAt [spot] files (files.put spot (.file content mode)) :=
  { elsewhere := by
      intro place outside
      rw [held?_put files closed.ne_nil, if_neg]
      intro same
      subst same
      exact outside place List.mem_cons_self List.prefix_rfl
    closedBefore := by
      intro other member
      rw [List.mem_singleton.mp member]
      exact closed
    closedAfter := by
      intro other member
      rw [List.mem_singleton.mp member]
      exact closed_of_file (node?_put_self files closed.ne_nil (.file content mode)) }

theorem held?_erase_below (files : FileTree) {spot : Place} (nonempty : spot ≠ [])
    (below : List String) : (files.erase spot).held? (spot ++ below) = none := by
  rw [held?_erase files nonempty, if_pos]
  rw [List.isPrefixOf_iff_prefix]
  exact List.prefix_append spot below

theorem held?_erase_self {files : FileTree} {spot : Place} (below : spot ≠ []) :
    (files.erase spot).held? spot = none := by
  have gone := held?_erase_below files below []
  rwa [List.append_nil] at gone

theorem held?_erase_of_outside {files : FileTree} {spot place : Place} (below : spot ≠ [])
    (outside : ¬spot <+: place) : (files.erase spot).held? place = files.held? place := by
  rw [held?_erase files below, isPrefixOf_eq_false_iff.mpr outside]
  rfl

theorem differAt_erase {files : FileTree} {spot : Place} (closed : Closed files spot) :
    DifferAt [spot] files (files.erase spot) :=
  { elsewhere := fun _place outside =>
      held?_erase_of_outside closed.ne_nil (outside spot List.mem_cons_self)
    closedBefore := by
      intro other member
      rw [List.mem_singleton.mp member]
      exact closed
    closedAfter := by
      intro other member
      rw [List.mem_singleton.mp member]
      exact closed_of_none (held?_erase_self closed.ne_nil) }

theorem differAt_move {files : FileTree} {source target : Place} (apart : Apart source target)
    (closedSource : Closed files source) (closedTarget : Closed files target) :
    DifferAt [source, target] files (files.move source target) := by
  have atTarget := held?_move_target files apart []
  have atSource := held?_move_source files apart []
  rw [List.append_nil, List.append_nil] at atTarget
  rw [List.append_nil] at atSource
  refine ⟨?_, ?_, ?_⟩
  · intro place outside
    exact held?_move_of_outside files apart (outside source List.mem_cons_self)
      (outside target (List.mem_cons_of_mem source List.mem_cons_self))
  · intro spot member
    rcases List.mem_cons.mp member with rfl | other
    · exact closedSource
    · rw [List.mem_singleton.mp other]
      exact closedTarget
  · intro spot member
    rcases List.mem_cons.mp member with rfl | other
    · exact closed_of_none atSource
    · rw [List.mem_singleton.mp other]
      exact ⟨node?_congr atTarget ▸ closedSource.noDirectory,
        link?_congr atTarget ▸ closedSource.unlinked⟩

theorem put_put (files : FileTree) (place : Place) (first second : Node) :
    (files.put place first).put place second = files.put place second := by
  unfold put
  simp

theorem write_of_locate {files : FileTree} {path : Path} {place : Place}
    (located : files.locate path = .ok place) (closed : files.node? place ≠ some .directory)
    (content : List UInt8) :
    ∃ mode, files.write path content = .ok (files.put place (.file content mode)) := by
  unfold write
  rw [located]
  cases present : files.node? place with
  | none => exact ⟨plainMode, by simp only [present]⟩
  | some node =>
      cases node with
      | file old mode => exact ⟨mode, by simp only [present]⟩
      | directory => exact absurd present closed

theorem setMode_of_find {files : FileTree} {path : Path} {place : Place} {content : List UInt8}
    {old : Nat} (found : files.find path = .ok (place, .file content old)) (mode : Nat) :
    files.setMode path mode = .ok (files.put place (.file content mode)) := by
  unfold setMode
  rw [found]

theorem removeFile_of_closed {files : FileTree} {path : Path} {place : Place} {entry : Entry}
    (located : files.locateEntry path = .ok place) (present : files.held? place = some entry)
    (closed : entry.isDirectory = false) : files.removeFile path = .ok (files.erase place) := by
  unfold removeFile
  rw [located]
  simp only [present, closed, Bool.false_eq_true, if_false]

theorem removeFile_inv {files changed : FileTree} {path : Path}
    (removed : files.removeFile path = .ok changed) :
    ∃ place, files.locateEntry path = .ok place ∧ changed = files.erase place := by
  unfold removeFile at removed
  cases located : files.locateEntry path with
  | error fault =>
      rw [located] at removed
      cases removed
  | ok place =>
      rw [located] at removed
      dsimp only at removed
      repeat' split at removed
      all_goals cases removed
      exact ⟨place, rfl, rfl⟩

theorem rename_of_free {files : FileTree} {source target : Path} {start goal : Place}
    {entry : Entry} (located : files.locateEntry source = .ok start)
    (present : files.held? start = some entry) (goalAt : files.locateEntry target = .ok goal)
    (free : files.held? goal = none) :
    files.rename source target = .ok (files.move start goal) := by
  unfold rename
  rw [located, goalAt]
  simp only [present, free]

theorem rename_of_closed {files : FileTree} {source target : Path} {start goal : Place}
    {entry : Entry} (located : files.locateEntry source = .ok start)
    (present : files.held? start = some entry) (noDirectory : entry.isDirectory = false)
    (goalAt : files.locateEntry target = .ok goal)
    (closed : files.node? goal ≠ some .directory) :
    files.rename source target = .ok (files.move start goal) := by
  unfold rename
  rw [located, goalAt]
  cases replaced : files.held? goal with
  | none => simp only [present, replaced]
  | some other =>
      have open' : other.isDirectory = false := by
        cases other with
        | link target => rfl
        | node node =>
            cases node with
            | file content mode => rfl
            | directory => exact absurd (node?_eq_some_iff.mpr replaced) closed
      simp only [present, replaced, noDirectory, open', Bool.and_false, Bool.false_and,
        Bool.false_eq_true, if_false]

theorem rename_inv {files changed : FileTree} {source target : Path}
    (renamed : files.rename source target = .ok changed) :
    ∃ start goal entry, files.locateEntry source = .ok start ∧
      files.locateEntry target = .ok goal ∧ files.held? start = some entry ∧
      (entry.isDirectory = false → files.node? goal ≠ some .directory) ∧
      changed = files.move start goal := by
  unfold rename at renamed
  cases located : files.locateEntry source with
  | error fault =>
      rw [located] at renamed
      cases renamed
  | ok start =>
      cases goalAt : files.locateEntry target with
      | error fault =>
          rw [located, goalAt] at renamed
          cases renamed
      | ok goal =>
          rw [located, goalAt] at renamed
          dsimp only at renamed
          cases present : files.held? start with
          | none =>
              rw [present] at renamed
              cases renamed
          | some entry =>
              refine ⟨start, goal, entry, rfl, rfl, present, ?_, ?_⟩
              · intro noDirectory directory
                rw [present, node?_eq_some_iff.mp directory] at renamed
                simp only [noDirectory] at renamed
                cases renamed
              · rw [present] at renamed
                cases replaced : files.held? goal with
                | none =>
                    rw [replaced] at renamed
                    cases renamed
                    rfl
                | some other =>
                    rw [replaced] at renamed
                    dsimp only at renamed
                    repeat' split at renamed
                    all_goals cases renamed
                    rfl

end CommitCheck.FileTree
