import CommitCheck.Proofs.TomlGrammar
import CommitCheck.Toml.Document

set_option autoImplicit false

/-! What the lines of a document do to its tables. A line that is about a path changes nothing but
what is at that path and below it. -/

namespace CommitCheck.Toml

namespace Entries

theorem lookup_add (entries : Entries) (key : String) (value : Value) (other : String) :
    (entries.add key value).lookup other =
      (entries.lookup other).or (if other = key then some value else none) := by
  unfold add
  rw [List.lookup_append, List.lookup_cons]
  by_cases same : other = key
  · rw [if_pos same, same, beq_self_eq_true]
  · rw [if_neg same, beq_false_of_ne same]
    rfl

theorem lookup_set (entries : Entries) (key : String) (value : Value) (other : String) :
    (entries.set key value).lookup other =
      if other = key then (entries.lookup key).map fun _ => value else entries.lookup other := by
  induction entries with
  | nil => exact (ite_self none).symm
  | cons entry entries ih =>
      obtain ⟨name, held⟩ := entry
      change List.lookup other ((if name == key then (key, value) else (name, held)) ::
        Entries.set entries key value) = _
      by_cases here : name = key
      · subst here
        rw [if_pos (beq_self_eq_true name), List.lookup_cons, List.lookup_cons, List.lookup_cons,
          beq_self_eq_true, ih]
        by_cases same : other = name
        · rw [same, beq_self_eq_true]
          exact (if_pos rfl).symm
        · rw [if_neg same, beq_false_of_ne same, if_neg same]
      · rw [if_neg (by simpa using here), List.lookup_cons, List.lookup_cons, List.lookup_cons,
          beq_false_of_ne (Ne.symm here), ih]
        by_cases same : other = name
        · subst same
          rw [beq_self_eq_true]
          exact (if_neg here).symm
        · rw [beq_false_of_ne same]

def tableAt? (entries : Entries) (key : String) : Option Entries :=
  match entries.lookup key with
  | none => some []
  | some (.table _ inner) => some inner
  | some _ => none

theorem tableAt?_of_missing {entries : Entries} {key : String}
    (missing : entries.lookup key = none) : entries.tableAt? key = some [] := by
  unfold tableAt?
  rw [missing]

theorem tableAt?_of_table {entries inner : Entries} {key : String} {kind : TableKind}
    (present : entries.lookup key = some (.table kind inner)) :
    entries.tableAt? key = some inner := by
  unfold tableAt?
  rw [present]

theorem tableAt?_congr {entries changed : Entries} {key : String}
    (same : changed.lookup key = entries.lookup key) :
    changed.tableAt? key = entries.tableAt? key := by
  unfold tableAt?
  rw [same]

/-! ### Changes at a path -/

/-- Nothing is different but what is at the path and below it, looked at two tables deep. -/
structure ChangedAt (path : List String) (before after : Entries) : Prop where
  others : ∀ key, path.head? ≠ some key → after.lookup key = before.lookup key
  within : ∀ key next below inner, path = key :: next :: below →
    before.tableAt? key = some inner → ∃ inner', after.tableAt? key = some inner' ∧
      ∀ other, other ≠ next → inner'.lookup other = inner.lookup other

/-- One step of a change on its way along a path: the table at a key is made, or it is changed, or it
is a list and the change goes on in its last table. -/
inductive Through (step : Entries → Option Entries) (key : String) (before : Entries) :
    Entries → Prop where
  | made {kind : TableKind} {inner : Entries} : before.lookup key = none → step [] = some inner →
      Through step key before (before.add key (.table kind inner))
  | changed {kind : TableKind} {inner inner' : Entries} :
      before.lookup key = some (.table kind inner) → step inner = some inner' →
      Through step key before (before.set key (.table kind inner'))
  | last {elements elements' : List Entries} : before.lookup key = some (.tables elements) →
      Through step key before (before.set key (.tables elements'))

theorem Through.lookup_ne {step : Entries → Option Entries} {key other : String}
    {before after : Entries} (through : Through step key before after) (apart : other ≠ key) :
    after.lookup other = before.lookup other := by
  cases through with
  | made => rw [lookup_add, if_neg apart, Option.or_none]
  | changed => rw [lookup_set, if_neg apart]
  | last => rw [lookup_set, if_neg apart]

theorem Through.tableAt? {step : Entries → Option Entries} {key : String}
    {before after inner : Entries} (through : Through step key before after)
    (there : before.tableAt? key = some inner) :
    ∃ inner', step inner = some inner' ∧ after.tableAt? key = some inner' := by
  cases through with
  | made missing stepped =>
      rw [tableAt?_of_missing missing] at there
      cases there
      refine ⟨_, stepped, ?_⟩
      apply tableAt?_of_table
      rw [lookup_add, missing, if_pos rfl, Option.none_or]
  | changed present stepped =>
      rw [tableAt?_of_table present] at there
      cases there
      refine ⟨_, stepped, ?_⟩
      apply tableAt?_of_table
      rw [lookup_set, if_pos rfl, present]
      rfl
  | last present =>
      unfold Entries.tableAt? at there
      rw [present] at there
      cases there

theorem changedAt_of_through {step : Entries → Option Entries} {key : String}
    {path : List String} {before after : Entries} (through : Through step key before after)
    (steps : ∀ inner inner', step inner = some inner' → ChangedAt path inner inner') :
    ChangedAt (key :: path) before after where
  others other apart := through.lookup_ne fun same => apart (congrArg some same.symm)
  within := by
    intro other next below inner whole there
    obtain ⟨rfl, rfl⟩ := List.cons_eq_cons.mp whole
    obtain ⟨inner', stepped, there'⟩ := through.tableAt? there
    refine ⟨inner', there', ?_⟩
    intro name apart
    exact (steps inner inner' stepped).others name fun same => apart (Option.some.inj same).symm

theorem changedAt_single {key : String} {before after : Entries}
    (others : ∀ other, other ≠ key → after.lookup other = before.lookup other) :
    ChangedAt [key] before after where
  others other apart := others other fun same => apart (congrArg some same.symm)
  within := by
    intro other next below inner whole
    cases whole

theorem through_of_changeAt? {change : Entries → Option Entries} {key : String}
    {path : List String} {before after : Entries}
    (done : changeAt? change (key :: path) before = some after) :
    Through (changeAt? change path) key before after := by
  rw [changeAt?] at done
  split at done
  · next missing =>
      obtain ⟨inner, stepped, rfl⟩ := Option.map_eq_some_iff.mp done
      exact .made missing stepped
  · cases done
  · next present =>
      obtain ⟨inner, stepped, rfl⟩ := Option.map_eq_some_iff.mp done
      exact .changed present stepped
  · next present =>
      obtain ⟨elements, -, rfl⟩ := Option.map_eq_some_iff.mp done
      exact .last present
  · cases done

theorem through_of_assign? {value : Value} {key next : String} {path : List String}
    {before after : Entries} (done : assign? value (key :: next :: path) before = some after) :
    Through (assign? value (next :: path)) key before after := by
  rw [assign?] at done
  split at done
  · next missing =>
      obtain ⟨inner, stepped, rfl⟩ := Option.map_eq_some_iff.mp done
      exact .made missing stepped
  · next present =>
      obtain ⟨inner, stepped, rfl⟩ := Option.map_eq_some_iff.mp done
      exact .changed present stepped
  · next present =>
      split at done
      · cases done
      · obtain ⟨inner, stepped, rfl⟩ := Option.map_eq_some_iff.mp done
        exact .changed present stepped
  · next present =>
      split at done
      · cases done
      · obtain ⟨elements, -, rfl⟩ := Option.map_eq_some_iff.mp done
        exact .last present
  · cases done

theorem lookup_of_assign? {value : Value} {key : String} {before after : Entries}
    (done : assign? value [key] before = some after) (other : String) :
    after.lookup other = if other = key then some value else before.lookup other := by
  rw [assign?] at done
  split at done
  · next missing =>
      cases done
      rw [lookup_add]
      by_cases same : other = key
      · rw [if_pos same, if_pos same, same, missing, Option.none_or]
      · rw [if_neg same, if_neg same, Option.or_none]
  · cases done

theorem lookup_of_declareTable? {key other : String} {before after : Entries}
    (done : declareTable? key before = some after) (apart : other ≠ key) :
    after.lookup other = before.lookup other := by
  unfold declareTable? at done
  split at done
  · cases done
    rw [lookup_add, if_neg apart, Option.or_none]
  · cases done
    rw [lookup_set, if_neg apart]
  · cases done

theorem tableAt?_of_declareTable? {key : String} {before after : Entries}
    (done : declareTable? key before = some after) (other : String) :
    after.tableAt? other = before.tableAt? other := by
  by_cases same : other = key
  · subst same
    unfold declareTable? at done
    split at done
    · next missing =>
        cases done
        rw [tableAt?_of_missing missing]
        apply tableAt?_of_table
        rw [lookup_add, missing, if_pos rfl, Option.none_or]
    · next present =>
        cases done
        rw [tableAt?_of_table present]
        apply tableAt?_of_table
        rw [lookup_set, if_pos rfl, present]
        rfl
    · cases done
  · exact tableAt?_congr (lookup_of_declareTable? done same)

theorem lookup_of_declareElement? {key other : String} {before after : Entries}
    (done : declareElement? key before = some after) (apart : other ≠ key) :
    after.lookup other = before.lookup other := by
  unfold declareElement? at done
  split at done
  · cases done
    rw [lookup_add, if_neg apart, Option.or_none]
  · cases done
    rw [lookup_set, if_neg apart]
  · cases done

theorem changedAt_of_changeAt? {change : Entries → Option Entries} {path parents : List String}
    (changes : ∀ before after, change before = some after → ChangedAt path before after)
    {before after : Entries} (done : changeAt? change parents before = some after) :
    ChangedAt (parents ++ path) before after := by
  induction parents generalizing before after with
  | nil => exact changes before after done
  | cons key parents ih =>
      exact changedAt_of_through (through_of_changeAt? done) fun inner inner' stepped => ih stepped

theorem changedAt_of_assign? {value : Value} {path : List String} {before after : Entries}
    (done : assign? value path before = some after) : ChangedAt path before after := by
  induction path generalizing before after with
  | nil => cases done
  | cons key path ih =>
      cases path with
      | nil =>
          apply changedAt_single
          intro other apart
          rw [lookup_of_assign? done, if_neg apart]
      | cons next path =>
          exact changedAt_of_through (through_of_assign? done) fun inner inner' stepped =>
            ih stepped

end Entries

def Line.form : Line → Form
  | .nothing => .nothing
  | .header path => .header path
  | .element path => .element path
  | .assignment path _ => .assignment path

theorem append_of_splitLast? {path parents : List String} {key : String}
    (split : splitLast? path = some (parents, key)) : parents ++ [key] = path := by
  induction path generalizing parents with
  | nil => cases split
  | cons first path ih =>
      cases path with
      | nil =>
          cases split
          rfl
      | cons next path =>
          obtain ⟨⟨before, last⟩, inner, same⟩ := Option.map_eq_some_iff.mp split
          cases same
          rw [List.cons_append, ih inner]

/-- What a line does to a draft that takes it. -/
inductive Taken (draft : Draft) : Line → Draft → Prop where
  | nothing : Taken draft .nothing draft
  | header {parents : List String} {key : String} {after : Entries} :
      draft.entries.changeAt? (Entries.declareTable? key) parents = some after →
      Taken draft (.header (parents ++ [key])) ⟨after, parents ++ [key]⟩
  | element {parents : List String} {key : String} {after : Entries} :
      draft.entries.changeAt? (Entries.declareElement? key) parents = some after →
      Taken draft (.element (parents ++ [key])) ⟨after, parents ++ [key]⟩
  | assignment {path : List String} {value : Value} {after : Entries} :
      draft.entries.changeAt? (Entries.assign? value path) draft.current = some after →
      Taken draft (.assignment path value) ⟨after, draft.current⟩

theorem taken_of_add? {draft next : Draft} {line : Line} (added : draft.add? line = some next) :
    Taken draft line next := by
  cases line with
  | nothing =>
      cases added
      exact .nothing
  | header path =>
      obtain ⟨⟨parents, key⟩, split, added⟩ := Option.bind_eq_some_iff.mp added
      obtain ⟨after, changed, same⟩ := Option.bind_eq_some_iff.mp added
      obtain rfl := append_of_splitLast? split
      cases same
      exact .header changed
  | element path =>
      obtain ⟨⟨parents, key⟩, split, added⟩ := Option.bind_eq_some_iff.mp added
      obtain ⟨after, changed, same⟩ := Option.bind_eq_some_iff.mp added
      obtain rfl := append_of_splitLast? split
      cases same
      exact .element changed
  | assignment path value =>
      obtain ⟨after, changed, same⟩ := Option.bind_eq_some_iff.mp added
      cases same
      exact .assignment changed

theorem Taken.current {draft next : Draft} {line : Line} (taken : Taken draft line next) :
    next.current = line.form.current draft.current := by
  cases taken <;> rfl

theorem Taken.entries_eq {draft next : Draft} {line : Line} (taken : Taken draft line next)
    (nowhere : line.form.target? draft.current = none) : next.entries = draft.entries := by
  cases taken with
  | nothing => rfl
  | header => cases nowhere
  | element => cases nowhere
  | assignment => cases nowhere

theorem Taken.changedAt {draft next : Draft} {line : Line} {path : List String}
    (taken : Taken draft line next) (target : line.form.target? draft.current = some path) :
    Entries.ChangedAt path draft.entries next.entries := by
  cases taken with
  | nothing => cases target
  | header changed =>
      cases target
      apply Entries.changedAt_of_changeAt? _ changed
      intro before after done
      exact Entries.changedAt_single fun other apart => Entries.lookup_of_declareTable? done apart
  | element changed =>
      cases target
      apply Entries.changedAt_of_changeAt? _ changed
      intro before after done
      exact Entries.changedAt_single fun other apart => Entries.lookup_of_declareElement? done apart
  | assignment changed =>
      cases target
      apply Entries.changedAt_of_changeAt? _ changed
      intro before after done
      exact Entries.changedAt_of_assign? done

end CommitCheck.Toml
