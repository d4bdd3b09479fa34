import CommitCheck.Proofs.TomlTables

set_option autoImplicit false

/-! The tables of a document follow its outline. What a line may do to a draft depends only on what
the draft has at each path, and so lines that are consistent always make a document. -/

namespace CommitCheck.Toml

namespace Value

/-- What a value is to the lines that come later. -/
def role : Value → Role
  | .table .inline _ => .value
  | .table .header _ => .declared
  | .table .implied _ => .implied
  | .table .dotted _ => .dotted
  | .tables (_ :: _) => .list
  | _ => .value

def open? : Value → Option Entries
  | .table .inline _ => none
  | .table _ entries => some entries
  | .tables elements => elements.getLast?
  | _ => none

/-- Later lines cannot add to the value. -/
structure Closed (value : Value) : Prop where
  role : value.role = .value
  unopened : value.open? = none

end Value

namespace Entries

def inner (entries : Entries) (key : String) : Entries :=
  ((entries.lookup key).bind Value.open?).getD []

def roleAt? : List String → Entries → Option Role
  | [], _ => none
  | key :: path, entries =>
      if path = [] then (entries.lookup key).map Value.role else roleAt? path (entries.inner key)

def outline (entries : Entries) : Outline := fun path => entries.roleAt? path

theorem roleAt?_single (key : String) (entries : Entries) :
    roleAt? [key] entries = (entries.lookup key).map Value.role := rfl

theorem roleAt?_cons (key : String) {path : List String} (further : path ≠ []) (entries : Entries) :
    roleAt? (key :: path) entries = roleAt? path (entries.inner key) :=
  if_neg further

theorem roleAt?_congr {key : String} {before after : Entries}
    (same : after.lookup key = before.lookup key) (path : List String) :
    roleAt? (key :: path) after = roleAt? (key :: path) before := by
  unfold roleAt? Entries.inner
  rw [same]

theorem roleAt?_empty (path : List String) : roleAt? path [] = none := by
  induction path with
  | nil => rfl
  | cons key path ih =>
      by_cases further : path = []
      · subst further
        rfl
      · rw [roleAt?_cons key further]
        exact ih

def tableAt : List String → Entries → Entries
  | [], entries => entries
  | key :: path, entries => tableAt path (entries.inner key)

theorem roleAt?_append {path : List String} (further : path ≠ []) (parents : List String)
    (entries : Entries) : roleAt? (parents ++ path) entries = roleAt? path (tableAt parents entries) := by
  induction parents generalizing entries with
  | nil => rfl
  | cons key parents ih =>
      rw [List.cons_append, roleAt?_cons key (List.append_ne_nil_of_right_ne_nil _ further), ih]
      rfl

/-- Puts a table at a key, where it has a role unless there is one already. -/
structure Opens (key : String) (role : Role) (entries : Entries) (put : Entries → Entries) :
    Prop where
  here : ∀ inner, ∃ value, (put inner).lookup key = some value ∧ value.open? = some inner ∧
    some value.role = (roleAt? [key] entries).or (some role)
  others : ∀ inner other, other ≠ key → (put inner).lookup other = entries.lookup other

theorem opens_add {key : String} {entries : Entries} {role : Role} (table : Entries → Value)
    (missing : entries.lookup key = none) (opened : ∀ inner, (table inner).open? = some inner)
    (same : ∀ inner, (table inner).role = role) :
    Opens key role entries fun inner => entries.add key (table inner) where
  here inner := by
    refine ⟨table inner, ?_, opened inner, ?_⟩
    · rw [lookup_add, missing, if_pos rfl, Option.none_or]
    · rw [roleAt?_single, missing, same]
      rfl
  others inner other apart := by
    rw [lookup_add, if_neg apart, Option.or_none]

theorem opens_set {key : String} {entries : Entries} {role : Role} {value : Value}
    (table : Entries → Value) (present : entries.lookup key = some value)
    (opened : ∀ inner, (table inner).open? = some inner)
    (same : ∀ inner, (table inner).role = value.role) :
    Opens key role entries fun inner => entries.set key (table inner) where
  here inner := by
    refine ⟨table inner, ?_, opened inner, ?_⟩
    · rw [lookup_set, if_pos rfl, present]
      rfl
    · rw [roleAt?_single, present, same]
      rfl
  others inner other apart := by
    rw [lookup_set, if_neg apart]

theorem inner_eq_of_open? {key : String} {entries inner : Entries} {value : Value}
    (present : entries.lookup key = some value) (opened : value.open? = some inner) :
    entries.inner key = inner := by
  unfold Entries.inner
  rw [present, Option.bind_some, opened]
  rfl

theorem inner_eq_nil {key : String} {entries : Entries} (missing : entries.lookup key = none) :
    entries.inner key = [] := by
  unfold Entries.inner
  rw [missing]
  rfl

theorem changeLast?_concat (change : Entries → Option Entries) (front : List Entries)
    (last : Entries) : changeLast? change (front ++ [last]) =
      (change last).map fun changed => front ++ [changed] := by
  induction front with
  | nil => rfl
  | cons first front ih =>
      obtain ⟨second, others, whole⟩ :=
        List.exists_cons_of_ne_nil (List.append_ne_nil_of_right_ne_nil front (List.cons_ne_nil last []))
      have stepped : changeLast? change (first :: second :: others) =
          (changeLast? change (second :: others)).map (first :: ·) := rfl
      rw [List.cons_append, whole, stepped, ← whole, ih, Option.map_map]
      rfl

theorem exists_opens_changeAt? {key : String} {entries : Entries}
    (passable : roleAt? [key] entries ≠ some .value) :
    ∃ put, Opens key .implied entries put ∧ ∀ change path,
      changeAt? change (key :: path) entries =
        (changeAt? change path (entries.inner key)).map put := by
  rw [roleAt?_single] at passable
  cases present : entries.lookup key with
  | none =>
      refine ⟨_, opens_add (.table .implied) present (fun _ => rfl) (fun _ => rfl), ?_⟩
      intro change path
      rw [changeAt?, present, inner_eq_nil present]
  | some value =>
      rw [present] at passable
      have open' : value.role ≠ .value := fun same => passable (congrArg some same)
      cases value with
      | table kind inner =>
          cases kind with
          | inline => exact absurd rfl open'
          | header =>
              refine ⟨_, opens_set (.table .header) present (fun _ => rfl) (fun _ => rfl), ?_⟩
              intro change path
              rw [changeAt?, present, inner_eq_of_open? present rfl]
          | implied =>
              refine ⟨_, opens_set (.table .implied) present (fun _ => rfl) (fun _ => rfl), ?_⟩
              intro change path
              rw [changeAt?, present, inner_eq_of_open? present rfl]
          | dotted =>
              refine ⟨_, opens_set (.table .dotted) present (fun _ => rfl) (fun _ => rfl), ?_⟩
              intro change path
              rw [changeAt?, present, inner_eq_of_open? present rfl]
      | tables elements =>
          obtain ⟨front, last, rfl⟩ : ∃ front last, elements = front ++ [last] := by
            cases elements with
            | nil => exact absurd rfl open'
            | cons first others =>
                exact ⟨_, _, (List.dropLast_append_getLast (List.cons_ne_nil first others)).symm⟩
          refine ⟨_, opens_set (fun inner => .tables (front ++ [inner])) present
            (fun _ => List.getLast?_concat) (fun _ => ?_), ?_⟩
          · cases front <;> rfl
          · intro change path
            rw [changeAt?, present, inner_eq_of_open? present List.getLast?_concat]
            dsimp only
            rw [changeLast?_concat, Option.map_map]
            rfl
      | _ => exact absurd rfl open'

theorem exists_opens_assign? {key : String} {entries : Entries}
    (passable : roleAt? [key] entries = none ∨ roleAt? [key] entries = some .dotted) :
    ∃ put, Opens key .dotted entries put ∧ ∀ value next path,
      assign? value (key :: next :: path) entries =
        (assign? value (next :: path) (entries.inner key)).map put := by
  rw [roleAt?_single] at passable
  cases present : entries.lookup key with
  | none =>
      refine ⟨_, opens_add (.table .dotted) present (fun _ => rfl) (fun _ => rfl), ?_⟩
      intro value next path
      rw [assign?, present, inner_eq_nil present]
  | some value =>
      rw [present] at passable
      have dotted : value.role = .dotted := by
        rcases passable with missing | same
        · cases missing
        · exact Option.some.inj same
      obtain ⟨inner, rfl⟩ : ∃ inner, value = .table .dotted inner := by
        unfold Value.role at dotted
        split at dotted <;> first | exact ⟨_, rfl⟩ | cases dotted
      refine ⟨_, opens_set (.table .dotted) present (fun _ => rfl) (fun _ => rfl), ?_⟩
      intro value next path
      rw [assign?, present, inner_eq_of_open? present rfl]

/-! ### Changes along a path -/

/-- The tables on the way to a path are there now, and what is below the path is in a table of its
own. Nothing else is different. -/
structure Grafted (role : Role) (parents : List String) (before after inner : Entries) : Prop where
  below : ∀ path ≠ [], roleAt? (parents ++ path) after = roleAt? path inner
  others : ∀ path, (∀ rest ≠ [], path ≠ parents ++ rest) → roleAt? path after =
    (roleAt? path before).or (if path ≠ [] ∧ path <+: parents then some role else none)

theorem grafted_nil (role : Role) (before inner : Entries) : Grafted role [] before inner inner where
  below path _ := rfl
  others path apart := by
    obtain rfl : path = [] := Classical.byContradiction fun further => apart path further rfl
    rfl

theorem Grafted.cons {role : Role} {key : String} {parents : List String}
    {before inner inner' : Entries} {put : Entries → Entries} (opens : Opens key role before put)
    (grafted : Grafted role parents (before.inner key) inner' inner) :
    Grafted role (key :: parents) before (put inner') inner := by
  obtain ⟨value, present, opened, same⟩ := opens.here inner'
  have down {path : List String} (further : path ≠ []) :
      roleAt? (key :: path) (put inner') = roleAt? path inner' := by
    rw [roleAt?_cons key further, inner_eq_of_open? present opened]
  constructor
  · intro path further
    rw [List.cons_append, down (List.append_ne_nil_of_right_ne_nil parents further)]
    exact grafted.below path further
  · intro path apart
    cases path with
    | nil => rfl
    | cons name path =>
        by_cases here : name = key
        · subst here
          by_cases further : path = []
          · subst further
            rw [roleAt?_single, present, Option.map_some, same,
              if_pos ⟨List.cons_ne_nil name [], List.cons_prefix_cons.mpr ⟨rfl, List.nil_prefix⟩⟩]
          · have apart' : ∀ rest ≠ [], path ≠ parents ++ rest :=
              fun rest filled same => apart rest filled (congrArg (name :: ·) same)
            rw [down further, grafted.others path apart', roleAt?_cons name further]
            simp [further]
        · have elsewhere : ¬name :: path <+: key :: parents :=
            fun starts => here (List.cons_prefix_cons.mp starts).1
          rw [if_neg fun on => elsewhere on.2, Option.or_none]
          exact roleAt?_congr (opens.others inner' name here) path

theorem exists_grafted_changeAt? {change : Entries → Option Entries} {parents : List String}
    {entries inner : Entries}
    (passable : ∀ path ≠ [], path <+: parents → roleAt? path entries ≠ some .value)
    (changed : change (tableAt parents entries) = some inner) :
    ∃ after, changeAt? change parents entries = some after ∧
      Grafted .implied parents entries after inner := by
  induction parents generalizing entries with
  | nil => exact ⟨inner, changed, grafted_nil _ _ _⟩
  | cons key parents ih =>
      obtain ⟨put, opens, steps⟩ := exists_opens_changeAt?
        (passable [key] (List.cons_ne_nil key []) (List.cons_prefix_cons.mpr ⟨rfl, List.nil_prefix⟩))
      have within : ∀ path ≠ [], path <+: parents →
          roleAt? path (entries.inner key) ≠ some .value := by
        intro path further starts
        rw [← roleAt?_cons key further]
        exact passable (key :: path) (List.cons_ne_nil key path)
          (List.cons_prefix_cons.mpr ⟨rfl, starts⟩)
      obtain ⟨inner', further, grafted⟩ := ih within changed
      refine ⟨put inner', ?_, grafted.cons opens⟩
      rw [steps, further]
      rfl

theorem exists_grafted_assign? (value : Value) {key : String} {parents : List String}
    {entries : Entries}
    (passable : ∀ path ≠ [], path <+: parents →
      roleAt? path entries = none ∨ roleAt? path entries = some .dotted)
    (missing : (tableAt parents entries).lookup key = none) :
    ∃ after, assign? value (parents ++ [key]) entries = some after ∧
      Grafted .dotted parents entries after ((tableAt parents entries).add key value) := by
  induction parents generalizing entries with
  | nil =>
      refine ⟨_, ?_, grafted_nil _ _ _⟩
      change assign? value [key] entries = _
      rw [assign?, show entries.lookup key = none from missing]
      rfl
  | cons name parents ih =>
      obtain ⟨put, opens, steps⟩ := exists_opens_assign?
        (passable [name] (List.cons_ne_nil name []) (List.cons_prefix_cons.mpr ⟨rfl, List.nil_prefix⟩))
      have within : ∀ path ≠ [], path <+: parents → roleAt? path (entries.inner name) = none ∨
          roleAt? path (entries.inner name) = some .dotted := by
        intro path further starts
        rw [← roleAt?_cons name further]
        exact passable (name :: path) (List.cons_ne_nil name path)
          (List.cons_prefix_cons.mpr ⟨rfl, starts⟩)
      obtain ⟨inner', further, grafted⟩ := ih within missing
      obtain ⟨next, others, whole⟩ :=
        List.exists_cons_of_ne_nil (List.append_ne_nil_of_right_ne_nil parents (List.cons_ne_nil key []))
      refine ⟨put inner', ?_, grafted.cons opens⟩
      rw [List.cons_append, whole, steps, ← whole, further]
      rfl

theorem roleAt?_of_lookup {key : String} {before after : Entries} {value : Value}
    (present : after.lookup key = some value)
    (others : ∀ other, other ≠ key → after.lookup other = before.lookup other)
    (path : List String) : roleAt? path after =
      if path = [key] then some value.role
      else if [key] <+: path then roleAt? path.tail (value.open?.getD [])
      else roleAt? path before := by
  cases path with
  | nil => rfl
  | cons name path =>
      by_cases here : name = key
      · subst here
        have starts : [name] <+: name :: path := ⟨path, rfl⟩
        by_cases further : path = []
        · subst further
          rw [if_pos rfl, roleAt?_single, present]
          rfl
        · have apart : name :: path ≠ [name] := fun same => further (List.cons.inj same).2
          rw [if_neg apart, if_pos starts, roleAt?_cons name further]
          unfold Entries.inner
          rw [present]
          rfl
      · have apart : name :: path ≠ [key] := fun same => here (List.cons.inj same).1
        have elsewhere : ¬[key] <+: name :: path :=
          fun starts => here (List.cons_prefix_cons.mp starts).1.symm
        rw [if_neg apart, if_neg elsewhere]
        exact roleAt?_congr (others name here) path

theorem roleAt?_of_same_inner {key : String} {before after : Entries} {value : Value}
    (present : after.lookup key = some value)
    (others : ∀ other, other ≠ key → after.lookup other = before.lookup other)
    (same : value.open?.getD [] = before.inner key) (path : List String) :
    roleAt? path after = if path = [key] then some value.role else roleAt? path before := by
  rw [roleAt?_of_lookup present others]
  by_cases here : path = [key]
  · rw [if_pos here, if_pos here]
  · rw [if_neg here, if_neg here]
    split
    · next starts =>
        obtain ⟨rest, rfl⟩ := starts
        rw [List.singleton_append, List.tail_cons, same, roleAt?_cons key]
        rintro rfl
        exact here rfl
    · rfl

theorem lookup_added {key : String} {entries : Entries} (missing : entries.lookup key = none)
    (value : Value) : (entries.add key value).lookup key = some value ∧
      ∀ other, other ≠ key → (entries.add key value).lookup other = entries.lookup other := by
  refine ⟨?_, fun other apart => ?_⟩
  · rw [lookup_add, missing, if_pos rfl, Option.none_or]
  · rw [lookup_add, if_neg apart, Option.or_none]

theorem lookup_replaced {key : String} {entries : Entries} {held : Value}
    (present : entries.lookup key = some held) (value : Value) :
    (entries.set key value).lookup key = some value ∧
      ∀ other, other ≠ key → (entries.set key value).lookup other = entries.lookup other := by
  refine ⟨?_, fun other apart => ?_⟩
  · rw [lookup_set, if_pos rfl, present]
    rfl
  · rw [lookup_set, if_neg apart]

theorem roleAt?_add {key : String} {value : Value} {entries : Entries} (closed : value.Closed)
    (missing : entries.lookup key = none) (path : List String) :
    roleAt? path (entries.add key value) =
      if path = [key] then some .value else roleAt? path entries := by
  obtain ⟨here, others⟩ := lookup_added missing value
  have same : value.open?.getD [] = entries.inner key := by
    rw [closed.unopened, inner_eq_nil missing]
    rfl
  rw [roleAt?_of_same_inner here others same, closed.role]

theorem exists_declareTable? {key : String} {entries : Entries}
    (free : roleAt? [key] entries = none ∨ roleAt? [key] entries = some .implied) :
    ∃ after, declareTable? key entries = some after ∧ ∀ path, roleAt? path after =
      if path = [key] then some .declared else roleAt? path entries := by
  rw [roleAt?_single] at free
  unfold declareTable?
  cases present : entries.lookup key with
  | none =>
      obtain ⟨here, others⟩ := lookup_added present (.table .header [])
      exact ⟨_, rfl, roleAt?_of_same_inner here others (inner_eq_nil present).symm⟩
  | some value =>
      rw [present] at free
      have implied : value.role = .implied := by
        rcases free with missing | same
        · cases missing
        · exact Option.some.inj same
      obtain ⟨inner, rfl⟩ : ∃ inner, value = .table .implied inner := by
        unfold Value.role at implied
        split at implied <;> first | exact ⟨_, rfl⟩ | cases implied
      obtain ⟨here, others⟩ := lookup_replaced present (.table .header inner)
      exact ⟨_, rfl, roleAt?_of_same_inner here others (inner_eq_of_open? present rfl).symm⟩

theorem exists_declareElement? {key : String} {entries : Entries}
    (free : roleAt? [key] entries = none ∨ roleAt? [key] entries = some .list) :
    ∃ after, declareElement? key entries = some after ∧ ∀ path, roleAt? path after =
      if path = [key] then some .list else if [key] <+: path then none
      else roleAt? path entries := by
  have fresh {after : Entries} (front : List Entries)
      (found : after.lookup key = some (.tables (front ++ [[]])) ∧
        ∀ other, other ≠ key → after.lookup other = entries.lookup other) (path : List String) :
      roleAt? path after = if path = [key] then some .list else if [key] <+: path then none
        else roleAt? path entries := by
    have list : Value.role (.tables (front ++ [[]])) = .list := by cases front <;> rfl
    have last : Value.open? (.tables (front ++ [[]])) = some [] := List.getLast?_concat
    rw [roleAt?_of_lookup found.1 found.2, list, last, Option.getD_some, roleAt?_empty]
  rw [roleAt?_single] at free
  unfold declareElement?
  cases present : entries.lookup key with
  | none => exact ⟨_, rfl, fresh [] (lookup_added present _)⟩
  | some value =>
      rw [present] at free
      have list : value.role = .list := by
        rcases free with missing | same
        · cases missing
        · exact Option.some.inj same
      obtain ⟨elements, rfl⟩ : ∃ elements, value = .tables elements := by
        unfold Value.role at list
        split at list <;> first | exact ⟨_, rfl⟩ | cases list
      exact ⟨_, rfl, fresh _ (lookup_replaced present _)⟩

end Entries

/-! ### Lines -/

open Entries

theorem splitLast?_concat (parents : List String) (key : String) :
    splitLast? (parents ++ [key]) = some (parents, key) := by
  induction parents with
  | nil => rfl
  | cons first parents ih =>
      obtain ⟨next, others, whole⟩ := List.exists_cons_of_ne_nil
        (List.append_ne_nil_of_right_ne_nil parents (List.cons_ne_nil key []))
      rw [List.cons_append, whole]
      change Option.map _ (splitLast? (next :: others)) = _
      rw [← whole, ih]
      rfl

namespace Outline

theorem mem_between_iff {table parents path : List String} {key : String} :
    path ∈ between table (parents ++ [key]) ↔
      ∃ rest ≠ [], rest <+: parents ∧ path = table ++ rest := by
  have started {rest : List String} :
      rest ∈ parents.inits.tail ↔ rest ≠ [] ∧ rest <+: parents := by
    cases parents with
    | nil => simp
    | cons name parents =>
        rw [List.inits_cons, List.tail_cons, List.mem_map]
        constructor
        · rintro ⟨others, member, rfl⟩
          exact ⟨List.cons_ne_nil name others,
            List.cons_prefix_cons.mpr ⟨rfl, (List.mem_inits _ _).mp member⟩⟩
        · rintro ⟨filled, starts⟩
          obtain ⟨first, others, rfl⟩ := List.exists_cons_of_ne_nil filled
          obtain ⟨rfl, further⟩ := List.cons_prefix_cons.mp starts
          exact ⟨others, (List.mem_inits _ _).mpr further, rfl⟩
  unfold between
  rw [List.dropLast_concat, List.mem_map]
  constructor
  · rintro ⟨rest, member, rfl⟩
    obtain ⟨filled, starts⟩ := started.mp member
    exact ⟨rest, filled, starts, rfl⟩
  · rintro ⟨rest, filled, starts, rfl⟩
    exact ⟨rest, started.mpr ⟨filled, starts⟩, rfl⟩

theorem not_append_prefix {parents rest : List String} (filled : rest ≠ []) :
    ¬parents ++ rest <+: parents := by
  intro starts
  have length := starts.length_le
  have positive := List.length_pos_of_ne_nil filled
  rw [List.length_append] at length
  omega

section

variable {outline : Outline} {table parents path rest : List String} {key : String} {role : Role}

theorem fill_on (filled : rest ≠ []) (starts : rest <+: parents) :
    outline.fill (between table (parents ++ [key])) role (table ++ rest) =
      (outline (table ++ rest)).or (some role) := by
  unfold fill
  rw [if_pos (mem_between_iff.mpr ⟨rest, filled, starts, rfl⟩)]

theorem fill_off (off : ∀ rest ≠ [], rest <+: parents → path ≠ table ++ rest) :
    outline.fill (between table (parents ++ [key])) role path = outline path := by
  unfold fill
  rw [if_neg, Option.or_none]
  intro member
  obtain ⟨rest, filled, starts, same⟩ := mem_between_iff.mp member
  exact off rest filled starts same

theorem fill_below (filled : rest ≠ []) :
    outline.fill (between table (parents ++ [key])) role (table ++ (parents ++ rest)) =
      outline (table ++ (parents ++ rest)) := by
  apply fill_off
  intro others _ starts same
  obtain rfl := List.append_cancel_left same
  exact not_append_prefix filled starts

end

/-- The lines of a table may be added to it. -/
def Open (outline : Outline) (current : List String) : Prop :=
  ∀ path ≠ [], path <+: current → ∃ role, outline path = some role ∧ role ≠ .value

theorem prefix_concat_cases {path parents : List String} {key : String}
    (starts : path <+: parents ++ [key]) : path = parents ++ [key] ∨ path <+: parents :=
  List.prefix_concat_iff.mp starts

theorem open_header {outline : Outline} {parents : List String} {key : String} {role : Role}
    (table : role ≠ .value)
    (passable : ∀ path ∈ between [] (parents ++ [key]), outline path ≠ some .value) :
    ((outline.fill (between [] (parents ++ [key])) .implied).put (parents ++ [key]) role).Open
      (parents ++ [key]) := by
  intro path filled starts
  unfold put
  rcases prefix_concat_cases starts with rfl | starts
  · exact ⟨role, if_pos rfl, table⟩
  · have shorter : path ≠ parents ++ [key] := by
      rintro rfl
      exact not_append_prefix (List.cons_ne_nil key []) starts
    have on : outline.fill (between [] (parents ++ [key])) .implied ([] ++ path) = _ :=
      fill_on filled starts
    rw [List.nil_append] at on
    rw [if_neg shorter, on]
    cases held : outline path with
    | none => exact ⟨.implied, rfl, by decide⟩
    | some role =>
        refine ⟨role, rfl, ?_⟩
        rintro rfl
        exact passable path (mem_between_iff.mpr ⟨path, filled, starts, rfl⟩) held

theorem Open.after {outline : Outline} {current : List String} {form : Form}
    (opened : outline.Open current) (admits : outline.Admits current form) :
    (outline.after current form).Open (form.current current) := by
  cases form with
  | nothing => exact opened
  | header path =>
      obtain ⟨filled, passable, -⟩ := admits
      obtain ⟨parents, key, rfl⟩ := (List.eq_nil_or_concat' path).resolve_left filled
      exact open_header (by decide) passable
  | element path =>
      obtain ⟨filled, passable, -⟩ := admits
      obtain ⟨parents, key, rfl⟩ := (List.eq_nil_or_concat' path).resolve_left filled
      refine open_header (by decide) fun path member => ?_
      unfold clear
      split
      · exact fun impossible => by cases impossible
      · exact passable path member
  | assignment path =>
      obtain ⟨filled, -, -⟩ := admits
      intro other present starts
      obtain ⟨role, held, table⟩ := opened other present starts
      refine ⟨role, ?_, table⟩
      have shorter : other ≠ current ++ path := by
        rintro rfl
        exact not_append_prefix filled starts
      change (if other = current ++ path then _ else (outline other).or _) = some role
      rw [if_neg shorter, held]
      rfl

end Outline

open Outline

theorem Entries.Grafted.roleAt?_off {role : Role} {parents path : List String}
    {before after inner : Entries} (grafted : Grafted role parents before after inner) (key : String)
    (off : ∀ rest ≠ [], path ≠ parents ++ rest) :
    roleAt? path after = before.outline.fill (between [] (parents ++ [key])) role path := by
  rw [grafted.others path off]
  by_cases on : path ≠ [] ∧ path <+: parents
  · have filled : before.outline.fill (between [] (parents ++ [key])) role ([] ++ path) = _ :=
      fill_on on.1 on.2
    rw [if_pos on]
    exact filled.symm
  · rw [if_neg on, Option.or_none, fill_off]
    · rfl
    · rintro rest filled starts rfl
      exact on ⟨filled, starts⟩

theorem outline_header {parents : List String} {key : String} {role : Role}
    {before after inner : Entries} {cleared : Outline}
    (grafted : Grafted .implied parents before after inner)
    (here : roleAt? [key] inner = some role)
    (below : ∀ rest ≠ [], rest ≠ [key] → roleAt? rest inner = cleared (parents ++ rest))
    (others : ∀ path, (∀ rest ≠ [], path ≠ parents ++ rest) → cleared path = before.outline path) :
    after.outline =
      (cleared.fill (between [] (parents ++ [key])) .implied).put (parents ++ [key]) role := by
  funext path
  unfold put
  change roleAt? path after = _
  by_cases under : ∃ rest ≠ [], path = parents ++ rest
  · obtain ⟨rest, filled, rfl⟩ := under
    rw [grafted.below rest filled]
    by_cases last : rest = [key]
    · rw [last, if_pos rfl, here]
    · have unfilled : cleared.fill (between [] (parents ++ [key])) .implied
          ([] ++ (parents ++ rest)) = _ := fill_below filled
      rw [List.nil_append] at unfilled
      rw [if_neg fun same => last (List.append_cancel_left same), unfilled, below rest filled last]
  · have off : ∀ rest ≠ [], path ≠ parents ++ rest :=
      fun rest filled same => under ⟨rest, filled, same⟩
    rw [if_neg (off [key] (List.cons_ne_nil key [])), grafted.roleAt?_off key off]
    unfold fill
    rw [others path off]

theorem passable_above {entries : Entries} {parents path : List String} {key : String}
    (passable : ∀ table ∈ between [] (parents ++ [key]), entries.outline table ≠ some .value)
    (filled : path ≠ []) (starts : path <+: parents) : roleAt? path entries ≠ some .value :=
  passable path (mem_between_iff.mpr ⟨path, filled, starts, rfl⟩)

theorem exists_add?_header {draft : Draft} {path : List String}
    (admits : draft.entries.outline.Admits draft.current (.header path)) :
    ∃ after, draft.add? (.header path) = some ⟨after, path⟩ ∧
      after.outline = draft.entries.outline.after draft.current (.header path) := by
  obtain ⟨filled, passable, free⟩ := admits
  obtain ⟨parents, key, rfl⟩ := (List.eq_nil_or_concat' path).resolve_left filled
  have single : [key] ≠ [] := List.cons_ne_nil key []
  have free : roleAt? (parents ++ [key]) draft.entries = none ∨
      roleAt? (parents ++ [key]) draft.entries = some .implied := free
  rw [roleAt?_append single] at free
  obtain ⟨inner, declared, roles⟩ := exists_declareTable? free
  obtain ⟨after, changed, grafted⟩ :=
    exists_grafted_changeAt? (fun _ => passable_above passable) declared
  refine ⟨after, ?_, outline_header grafted ?_ ?_ fun _ _ => rfl⟩
  · change Option.bind (splitLast? (parents ++ [key])) _ = _
    rw [splitLast?_concat, Option.bind_some]
    change Option.bind (changeAt? (declareTable? key) parents draft.entries) _ = _
    rw [changed]
    rfl
  · rw [roles, if_pos rfl]
  · intro rest filled apart
    rw [roles, if_neg apart]
    exact (roleAt?_append filled parents draft.entries).symm

theorem exists_add?_element {draft : Draft} {path : List String}
    (admits : draft.entries.outline.Admits draft.current (.element path)) :
    ∃ after, draft.add? (.element path) = some ⟨after, path⟩ ∧
      after.outline = draft.entries.outline.after draft.current (.element path) := by
  obtain ⟨filled, passable, free⟩ := admits
  obtain ⟨parents, key, rfl⟩ := (List.eq_nil_or_concat' path).resolve_left filled
  have single : [key] ≠ [] := List.cons_ne_nil key []
  have free : roleAt? (parents ++ [key]) draft.entries = none ∨
      roleAt? (parents ++ [key]) draft.entries = some .list := free
  rw [roleAt?_append single] at free
  obtain ⟨inner, declared, roles⟩ := exists_declareElement? free
  obtain ⟨after, changed, grafted⟩ :=
    exists_grafted_changeAt? (fun _ => passable_above passable) declared
  refine ⟨after, ?_, outline_header grafted ?_ ?_ ?_⟩
  · change Option.bind (splitLast? (parents ++ [key])) _ = _
    rw [splitLast?_concat, Option.bind_some]
    change Option.bind (changeAt? (declareElement? key) parents draft.entries) _ = _
    rw [changed]
    rfl
  · rw [roles, if_pos rfl]
  · intro rest filled apart
    unfold clear
    rw [roles, if_neg apart]
    by_cases under : [key] <+: rest
    · rw [if_pos under, if_pos]
      exact ⟨(List.prefix_append_right_inj parents).mpr under,
        fun same => apart (List.append_cancel_left same)⟩
    · rw [if_neg under, if_neg fun on => under ((List.prefix_append_right_inj parents).mp on.1)]
      exact (roleAt?_append filled parents draft.entries).symm
  · intro path off
    unfold clear
    rw [if_neg]
    rintro ⟨⟨rest, rfl⟩, -⟩
    exact off ([key] ++ rest) (List.cons_ne_nil key rest) (List.append_assoc ..)

/-- What an assignment does to the outline: first the tables of its dotted key are made, within the
table that the line belongs to. -/
theorem outline_assignment {current parents : List String} {key : String} {value : Value}
    {entries inner after : Entries} (opened : entries.outline.Open current) (closed : value.Closed)
    (missing : (tableAt parents (tableAt current entries)).lookup key = none)
    (within : Grafted .dotted parents (tableAt current entries) inner
      ((tableAt parents (tableAt current entries)).add key value))
    (grafted : Grafted .implied current entries after inner) :
    after.outline = (entries.outline.fill (between current (parents ++ [key])) .dotted).put
      (current ++ (parents ++ [key])) .value := by
  funext path
  unfold put
  change roleAt? path after = _
  by_cases under : ∃ rest ≠ [], path = current ++ rest
  · obtain ⟨path, filled, rfl⟩ := under
    have before : roleAt? path (tableAt current entries) = entries.outline (current ++ path) :=
      (roleAt?_append filled current entries).symm
    rw [grafted.below path filled]
    by_cases deeper : ∃ rest ≠ [], path = parents ++ rest
    · obtain ⟨rest, further, rfl⟩ := deeper
      rw [within.below rest further, roleAt?_add closed missing]
      by_cases last : rest = [key]
      · rw [last, if_pos rfl, if_pos rfl]
      · rw [if_neg last, if_neg fun same => last (List.append_cancel_left
          (List.append_cancel_left same)), fill_below further, ← before,
          roleAt?_append further]
    · have off : ∀ rest ≠ [], path ≠ parents ++ rest :=
        fun rest further same => deeper ⟨rest, further, same⟩
      rw [within.others path off, before, if_neg fun same =>
        off [key] (List.cons_ne_nil key []) (List.append_cancel_left same)]
      by_cases on : path <+: parents
      · rw [if_pos ⟨filled, on⟩, fill_on filled on]
      · rw [if_neg fun both => on both.2, Option.or_none, fill_off]
        intro rest _ starts same
        exact on (List.append_cancel_left same ▸ starts)
  · have off : ∀ rest ≠ [], path ≠ current ++ rest :=
      fun rest filled same => under ⟨rest, filled, same⟩
    rw [grafted.others path off, if_neg (off _ (List.append_ne_nil_of_right_ne_nil parents
      (List.cons_ne_nil key []))), fill_off fun rest filled _ => off rest filled]
    change (entries.outline path).or _ = _
    by_cases on : path ≠ [] ∧ path <+: current
    · obtain ⟨role, held, -⟩ := opened path on.1 on.2
      rw [held]
      rfl
    · rw [if_neg on, Option.or_none]

theorem exists_add?_assignment {draft : Draft} {path : List String} {value : Value}
    (opened : draft.entries.outline.Open draft.current) (closed : value.Closed)
    (admits : draft.entries.outline.Admits draft.current (.assignment path)) :
    ∃ after, draft.add? (.assignment path value) = some ⟨after, draft.current⟩ ∧
      after.outline = draft.entries.outline.after draft.current (.assignment path) := by
  obtain ⟨entries, current⟩ := draft
  obtain ⟨filled, passable, free⟩ := admits
  dsimp only at opened passable free ⊢
  obtain ⟨parents, key, rfl⟩ := (List.eq_nil_or_concat' path).resolve_left filled
  have single : [key] ≠ [] := List.cons_ne_nil key []
  have above (path : List String) (filled : path ≠ []) (starts : path <+: current) :
      roleAt? path entries ≠ some .value := by
    obtain ⟨role, held, table⟩ := opened path filled starts
    intro same
    exact table (Option.some.inj (held.symm.trans same))
  have dotted (path : List String) (filled : path ≠ []) (starts : path <+: parents) :
      roleAt? path (tableAt current entries) = none ∨
        roleAt? path (tableAt current entries) = some .dotted := by
    rw [← roleAt?_append filled]
    exact passable _ (mem_between_iff.mpr ⟨path, filled, starts, rfl⟩)
  have missing : (tableAt parents (tableAt current entries)).lookup key = none := by
    have free : roleAt? (current ++ (parents ++ [key])) entries = none := free
    rw [roleAt?_append (List.append_ne_nil_of_right_ne_nil parents single),
      roleAt?_append single] at free
    exact Option.map_eq_none_iff.mp free
  obtain ⟨inner, assigned, within⟩ := exists_grafted_assign? value dotted missing
  obtain ⟨after, changed, grafted⟩ := exists_grafted_changeAt? above assigned
  refine ⟨after, ?_, ?_⟩
  · change Option.bind (changeAt? _ current entries) _ = _
    rw [changed]
    rfl
  · exact outline_assignment opened closed missing within grafted

theorem exists_add? {draft : Draft} {line : Line} (opened : draft.entries.outline.Open draft.current)
    (closed : ∀ path value, line = .assignment path value → value.Closed)
    (admits : draft.entries.outline.Admits draft.current line.form) :
    ∃ next, draft.add? line = some next ∧
      next.entries.outline = draft.entries.outline.after draft.current line.form ∧
      next.current = line.form.current draft.current := by
  cases line with
  | nothing => exact ⟨draft, rfl, rfl, rfl⟩
  | header path =>
      obtain ⟨after, added, same⟩ := exists_add?_header admits
      exact ⟨_, added, same, rfl⟩
  | element path =>
      obtain ⟨after, added, same⟩ := exists_add?_element admits
      exact ⟨_, added, same, rfl⟩
  | assignment path value =>
      obtain ⟨after, added, same⟩ := exists_add?_assignment opened (closed path value rfl) admits
      exact ⟨_, added, same, rfl⟩

theorem exists_foldlM_of_consistent {lines : List Line} (draft : Draft)
    (opened : draft.entries.outline.Open draft.current)
    (closed : ∀ path value, .assignment path value ∈ lines → value.Closed)
    (consistent : Consistent draft.entries.outline draft.current (lines.map Line.form)) :
    ∃ final, lines.foldlM Draft.add? draft = some final := by
  induction lines generalizing draft with
  | nil => exact ⟨draft, rfl⟩
  | cons line lines ih =>
      obtain ⟨admits, further⟩ := consistent
      obtain ⟨next, added, outline, current⟩ := exists_add? opened
        (fun path value same => closed path value (by rw [same]; exact List.mem_cons_self)) admits
      rw [← outline, ← current] at further
      have openedNext := opened.after admits
      rw [← outline, ← current] at openedNext
      obtain ⟨final, made⟩ := ih next openedNext
        (fun path value member => closed path value (List.mem_cons_of_mem _ member)) further
      refine ⟨final, ?_⟩
      rw [List.foldlM_cons, added]
      exact made

theorem outline_nil : Entries.outline [] = .empty :=
  funext roleAt?_empty

theorem open_root (outline : Outline) : outline.Open [] :=
  fun _ filled starts => absurd (List.prefix_nil.mp starts) filled

/-- Lines that are consistent make a document. -/
theorem exists_entriesOfLines? {lines : List Line}
    (closed : ∀ path value, .assignment path value ∈ lines → value.Closed)
    (consistent : Consistent .empty [] (lines.map Line.form)) :
    ∃ entries, entriesOfLines? lines = some entries := by
  rw [← outline_nil] at consistent
  obtain ⟨final, made⟩ := exists_foldlM_of_consistent {} (open_root _) closed consistent
  refine ⟨final.entries, ?_⟩
  unfold entriesOfLines?
  rw [made]
  rfl

theorem foldlM_assignments {assignments : List (List String × Value)} {entries : Entries}
    {final : Draft}
    (made : (assignments.map fun assignment => Line.assignment assignment.1 assignment.2).foldlM
      Draft.add? ⟨entries, []⟩ = some final) :
    assignments.foldlM (fun entries assignment => assign? assignment.2 assignment.1 entries)
      entries = some final.entries := by
  induction assignments generalizing entries with
  | nil =>
      cases made
      rfl
  | cons assignment assignments ih =>
      rw [List.map_cons, List.foldlM_cons] at made
      obtain ⟨next, added, further⟩ := Option.bind_eq_some_iff.mp made
      obtain ⟨after, assigned, same⟩ := Option.bind_eq_some_iff.mp added
      cases same
      have assigned : assign? assignment.2 assignment.1 entries = some after := assigned
      rw [List.foldlM_cons, assigned]
      exact ih further

theorem Entries.exists_ofAssignments? {assignments : List (List String × Value)}
    (closed : ∀ assignment ∈ assignments, assignment.2.Closed)
    (consistent : Consistent .empty [] (assignments.map fun assignment => .assignment assignment.1)) :
    ∃ entries, ofAssignments? assignments = some entries := by
  have forms : (assignments.map fun assignment =>
      Line.assignment assignment.1 assignment.2).map Line.form =
        assignments.map fun assignment => .assignment assignment.1 := by
    rw [List.map_map]
    rfl
  rw [← forms, ← outline_nil] at consistent
  obtain ⟨final, made⟩ := exists_foldlM_of_consistent {} (open_root _) (by
    intro path value member
    obtain ⟨assignment, among, same⟩ := List.mem_map.mp member
    cases same
    exact closed assignment among) consistent
  exact ⟨final.entries, foldlM_assignments made⟩

end CommitCheck.Toml
