import CommitCheck.Proofs.BranchPatterns
import CommitCheck.Proofs.TomlReading

set_option autoImplicit false

/-! Writing configurations, and reading them back. A configuration file gives some of the settings,
each in its table, in any order. It may hold other lines, which are about other keys and tables. What
is read from it has the given value for every setting that is given and the default for every other
one. -/

namespace CommitCheck.Config

open Toml (Escaping blanks_of_all blanks_space digits_of_all integerText_of_all keyText_of_all
  pathText_of_all assignmentText_spaced lineText_spaced)

inductive Table where
  | ci
  | hooks
  | ui
deriving DecidableEq, Repr

def Table.name : Table → String
  | ci => "ci"
  | hooks => "hooks"
  | ui => "ui"

inductive Setting where
  | ignoredBranches
  | block
  | color
  | hints
deriving DecidableEq, Repr

namespace Setting

def table : Setting → Table
  | ignoredBranches => .ci
  | block => .hooks
  | color | hints => .ui

def name : Setting → String
  | ignoredBranches => "ignore_pull_requests_from_branches"
  | block => "block"
  | color => "color"
  | hints => "hints"

def value (config : Config) : Setting → Toml.Value
  | ignoredBranches => .array (config.ci.ignoredBranches.map .string)
  | block => .boolean config.hooks.block
  | color => .boolean config.ui.color
  | hints => .boolean config.ui.hints

end Setting

/-- The configuration that keeps the settings in a list and has the defaults for all others. -/
def keeping (config : Config) (settings : List Setting) : Config where
  ci.ignoredBranches :=
    if .ignoredBranches ∈ settings then config.ci.ignoredBranches
    else ({} : Config).ci.ignoredBranches
  hooks.block := if .block ∈ settings then config.hooks.block else ({} : Config).hooks.block
  ui.color := if .color ∈ settings then config.ui.color else ({} : Config).ui.color
  ui.hints := if .hints ∈ settings then config.ui.hints else ({} : Config).ui.hints

theorem compile_keeping {config : Config}
    (compile : ∀ pattern ∈ config.ci.ignoredBranches, Compiles pattern) (settings : List Setting) :
    ∀ pattern ∈ (config.keeping settings).ci.ignoredBranches, Compiles pattern := by
  unfold keeping
  dsimp only
  split
  · exact compile
  · exact compile_defaults

theorem Table.name_inj {table other : Table} (same : table.name = other.name) : table = other := by
  cases table <;> cases other <;> first | rfl | exact absurd same (by decide)

theorem Setting.name_inj {setting other : Setting} (same : setting.name = other.name) :
    setting = other := by
  cases setting <;> cases other <;> first | rfl | exact absurd same (by decide)

def GivesIn (config : Config) (settings : List Setting) (entries : Toml.Entries) (table : Table) :
    Prop :=
  ∃ inner, entries.tableAt? table.name = some inner ∧
    ∀ setting : Setting, setting.table = table →
      inner.lookup setting.name = if setting ∈ settings then some (setting.value config) else none

/-- The entries say what the configuration has for the settings in a list, and nothing about other
settings. -/
def Gives (config : Config) (settings : List Setting) (entries : Toml.Entries) : Prop :=
  ∀ table : Table, GivesIn config settings entries table

theorem GivesIn.congr {config : Config} {settings : List Setting} {before after : Toml.Entries}
    {table : Table} (gives : GivesIn config settings before table)
    (same : after.lookup table.name = before.lookup table.name) :
    GivesIn config settings after table := by
  obtain ⟨inner, there, found⟩ := gives
  exact ⟨inner, (Toml.Entries.tableAt?_congr same).trans there, found⟩

theorem gives_nil (config : Config) : Gives config [] [] := by
  intro table
  refine ⟨[], rfl, ?_⟩
  intro setting _
  rfl

private theorem setting?_named {α : Type} (entries : Toml.Entries) (place : Nat) (name : String)
    (default : α) (decode? : Toml.Value → Option α) :
    (Section.named entries).setting? place name default decode? =
      (entries.lookup name).elim (some default) decode? := by
  unfold Section.setting? Section.get?
  dsimp only
  cases entries.lookup name <;> rfl

private theorem setting?_table {α : Type} {entries inner : Toml.Entries} {name : String}
    {default result : α} {decode? : Toml.Value → Option α}
    (there : entries.tableAt? name = some inner)
    (defaults : decode? (.table .header []) = some default)
    (decoded : ∀ kind, decode? (.table kind inner) = some result) (place : Nat) :
    (Section.named entries).setting? place name default decode? = some result := by
  rw [setting?_named]
  unfold Toml.Entries.tableAt? at there
  split at there
  · next missing =>
      cases there
      rw [missing]
      exact defaults.symm.trans (decoded .header)
  · next present =>
      cases there
      rw [present]
      exact decoded _
  · cases there

private theorem setting?_inner {α : Type} {inner : Toml.Entries} {name : String}
    {value : Toml.Value} {default kept : α} {decode? : Toml.Value → Option α} {chosen : Prop}
    [Decidable chosen] (found : inner.lookup name = if chosen then some value else none)
    (decoded : decode? value = some kept) (place : Nat) :
    (Section.named inner).setting? place name default decode? =
      some (if chosen then kept else default) := by
  rw [setting?_named, found]
  by_cases present : chosen
  · rw [if_pos present, if_pos present]
    exact decoded
  · rw [if_neg present, if_neg present]
    rfl

private theorem texts?_strings (texts : List String) :
    texts? (.array (texts.map .string)) = some texts := by
  change (texts.map Toml.Value.string).mapM text? = some texts
  induction texts with
  | nil => rfl
  | cons text texts ih =>
      rw [List.map_cons, List.mapM_cons, ih]
      rfl

private theorem boolean?_boolean (value : Bool) : boolean? (.boolean value) = some value :=
  rfl

theorem ofEntries?_of_gives {config : Config} {settings : List Setting} {entries : Toml.Entries}
    (gives : Gives config settings entries) :
    ofEntries? entries = some (config.keeping settings) := by
  have ci : (Section.named entries).setting? 0 "ci" {} ci? = some (config.keeping settings).ci := by
    obtain ⟨inner, there, found⟩ := gives .ci
    have branches : (Section.named inner).setting? 0 "ignore_pull_requests_from_branches" _ _ =
        some (config.keeping settings).ci.ignoredBranches :=
      setting?_inner (found .ignoredBranches rfl) (texts?_strings _) 0
    refine setting?_table there ?_ ?_ 0
    · rfl
    · intro kind
      change Option.bind
        ((Section.named inner).setting? 0 "ignore_pull_requests_from_branches" _ texts?)
        (fun branches => some (CiConfig.mk branches)) = _
      rw [branches]
      rfl
  have hooks : (Section.named entries).setting? 1 "hooks" {} hooks? =
      some (config.keeping settings).hooks := by
    obtain ⟨inner, there, found⟩ := gives .hooks
    have block : (Section.named inner).setting? 0 "block" _ boolean? =
        some (config.keeping settings).hooks.block :=
      setting?_inner (found .block rfl) (boolean?_boolean _) 0
    refine setting?_table there ?_ ?_ 1
    · rfl
    · intro kind
      change Option.bind ((Section.named inner).setting? 0 "block" _ boolean?)
        (fun block => some (HookConfig.mk block)) = _
      rw [block]
      rfl
  have ui : (Section.named entries).setting? 2 "ui" {} ui? = some (config.keeping settings).ui := by
    obtain ⟨inner, there, found⟩ := gives .ui
    have color : (Section.named inner).setting? 0 "color" _ boolean? =
        some (config.keeping settings).ui.color :=
      setting?_inner (found .color rfl) (boolean?_boolean _) 0
    have hints : (Section.named inner).setting? 1 "hints" _ boolean? =
        some (config.keeping settings).ui.hints :=
      setting?_inner (found .hints rfl) (boolean?_boolean _) 1
    refine setting?_table there ?_ ?_ 2
    · rfl
    · intro kind
      change Option.bind ((Section.named inner).setting? 0 "color" _ boolean?) (fun color =>
        Option.bind ((Section.named inner).setting? 1 "hints" _ boolean?) fun hints =>
          some (DisplayConfig.mk color hints)) = _
      rw [color, hints]
      rfl
  unfold ofEntries?
  dsimp only
  rw [ci, hooks, ui]
  rfl

/-! ### Pieces of a file -/

/-- A line of a configuration file that is none of its settings, without the line feed at its end.
It may go on over several lines of text. -/
structure Addition where
  form : Toml.Form
  text : List Char
  written : Toml.LineText .reader form text

inductive Piece where
  | header (table : Table)
  | setting (setting : Setting)
  | added (addition : Addition)

def Piece.form : Piece → Toml.Form
  | header table => .header [table.name]
  | setting which => .assignment [which.name]
  | added addition => addition.form

inductive ReadAs (config : Config) : Piece → Toml.Line → Prop where
  | header {table : Table} : ReadAs config (.header table) (.header [table.name])
  | setting {which : Setting} :
      ReadAs config (.setting which) (.assignment [which.name] (which.value config))
  | added {addition : Addition} {line : Toml.Line} : line.form = addition.form →
      (∀ path value, line = .assignment path value → value.Closed) →
      ReadAs config (.added addition) line

theorem ReadAs.form {config : Config} {piece : Piece} {line : Toml.Line}
    (readAs : ReadAs config piece line) : line.form = piece.form := by
  cases readAs with
  | header => rfl
  | setting => rfl
  | added same => exact same

theorem Setting.closed_value (config : Config) (setting : Setting) :
    (setting.value config).Closed := by
  cases setting <;> exact ⟨rfl, rfl⟩

theorem ReadAs.closed {config : Config} {piece : Piece} {line : Toml.Line}
    (readAs : ReadAs config piece line) (path : List String) (value : Toml.Value)
    (same : line = .assignment path value) : value.Closed := by
  cases readAs with
  | header => cases same
  | @setting which =>
      cases same
      exact which.closed_value config
  | added _ closed => exact closed path value same

def boolean (value : Bool) : List Char :=
  if value then "true".toList else "false".toList

def Setting.spelling (escaping : Escaping) (config : Config) : Setting → List Char
  | ignoredBranches => escaping.list config.ci.ignoredBranches
  | block => boolean config.hooks.block
  | color => boolean config.ui.color
  | hints => boolean config.ui.hints

def Piece.text (escaping : Escaping) (config : Config) : Piece → List Char
  | header table => '[' :: table.name.toList ++ "]\n".toList
  | setting which =>
      which.name.toList ++ " = ".toList ++ (which.spelling escaping config ++ ['\n'])
  | added addition => addition.text ++ ['\n']

def chosen : List Piece → List Setting
  | [] => []
  | .setting which :: pieces => which :: chosen pieces
  | _ :: pieces => chosen pieces

/-- The path begins in another table than those of the settings, or at another key of such a table.
-/
inductive Foreign : List String → Prop where
  | table {key : String} {below : List String} :
      (∀ table : Table, table.name ≠ key) → Foreign (key :: below)
  | key {table : Table} {key : String} {below : List String} :
      (∀ setting : Setting, setting.table = table → setting.name ≠ key) →
      Foreign (table.name :: key :: below)

/-- Every setting comes after the header of its table, and all that is added is about paths of its
own. The path is that of the header in front of the pieces. -/
inductive Arranged : List String → List Piece → Prop where
  | nil {current : List String} : Arranged current []
  | header {current : List String} {table : Table} {pieces : List Piece} :
      Arranged [table.name] pieces → Arranged current (.header table :: pieces)
  | setting {setting : Setting} {pieces : List Piece} :
      Arranged [setting.table.name] pieces →
      Arranged [setting.table.name] (.setting setting :: pieces)
  | added {current : List String} {addition : Addition} {pieces : List Piece} :
      (∀ path, addition.form.target? current = some path → Foreign path) →
      Arranged (addition.form.current current) pieces →
      Arranged current (.added addition :: pieces)

theorem Gives.foreign {config : Config} {settings : List Setting} {path : List String}
    {before after : Toml.Entries} (gives : Gives config settings before) (foreign : Foreign path)
    (changed : Toml.Entries.ChangedAt path before after) : Gives config settings after := by
  intro table
  have apart (elsewhere : path.head? ≠ some table.name) : GivesIn config settings after table :=
    (gives table).congr (changed.others _ elsewhere)
  cases foreign with
  | table unknown => exact apart fun same => unknown table (Option.some.inj same).symm
  | @key other key below unknown =>
      by_cases here : table = other
      · subst here
        obtain ⟨inner, there, found⟩ := gives table
        obtain ⟨inner', there', same⟩ := changed.within _ key below inner rfl there
        refine ⟨inner', there', ?_⟩
        intro setting within
        rw [same _ (unknown setting within), found setting within]
      · exact apart fun same => here (Table.name_inj (Option.some.inj same)).symm

theorem Gives.header {config : Config} {settings : List Setting} {table : Table}
    {before after : Toml.Entries} (gives : Gives config settings before)
    (declared : Toml.Entries.declareTable? table.name before = some after) :
    Gives config settings after := by
  intro other
  obtain ⟨inner, there, found⟩ := gives other
  exact ⟨inner, (Toml.Entries.tableAt?_of_declareTable? declared _).trans there, found⟩

theorem Gives.setting {config : Config} {settings : List Setting} {setting : Setting}
    {before after : Toml.Entries} (gives : Gives config settings before)
    (assigned : before.changeAt? (Toml.Entries.assign? (setting.value config) [setting.name])
      [setting.table.name] = some after) : Gives config (settings ++ [setting]) after := by
  have through := Toml.Entries.through_of_changeAt? assigned
  have unmoved {other : Setting} (apart : other ≠ setting) :
      other ∈ settings ++ [setting] ↔ other ∈ settings := by
    simp [apart]
  intro table
  by_cases here : table = setting.table
  · subst here
    obtain ⟨inner, there, found⟩ := gives setting.table
    obtain ⟨inner', changed, there'⟩ := through.tableAt? there
    refine ⟨inner', there', ?_⟩
    intro other within
    rw [Toml.Entries.lookup_of_assign? changed]
    by_cases same : other = setting
    · subst same
      rw [if_pos rfl, if_pos (List.mem_append_right _ List.mem_cons_self)]
    · rw [if_neg fun named => same (Setting.name_inj named), found other within]
      simp only [unmoved same]
  · obtain ⟨inner, there, found⟩ :=
      (gives table).congr (through.lookup_ne fun named => here (Table.name_inj named))
    refine ⟨inner, there, ?_⟩
    intro other within
    have apart : other ≠ setting := by
      intro equal
      subst equal
      exact here within.symm
    rw [found other within]
    simp only [unmoved apart]

theorem gives_of_arranged {config : Config} {settings : List Setting} {pieces : List Piece}
    {lines : List Toml.Line} {draft final : Toml.Draft} (arranged : Arranged draft.current pieces)
    (gives : Gives config settings draft.entries) (each : List.Forall₂ (ReadAs config) pieces lines)
    (made : lines.foldlM Toml.Draft.add? draft = some final) :
    Gives config (settings ++ chosen pieces) final.entries := by
  induction each generalizing settings draft with
  | nil =>
      cases made
      rw [chosen, List.append_nil]
      exact gives
  | @cons piece line pieces lines readAs each ih =>
      obtain ⟨entries, current⟩ := draft
      rw [List.foldlM_cons] at made
      obtain ⟨next, added, ran⟩ := Option.bind_eq_some_iff.mp made
      cases arranged with
      | @header _ table _ others =>
          cases readAs
          change Option.bind (Toml.Entries.declareTable? table.name entries)
            (fun after => some ⟨after, [table.name]⟩) = some next at added
          obtain ⟨after, declared, same⟩ := Option.bind_eq_some_iff.mp added
          cases same
          exact ih others (gives.header declared) ran
      | @setting setting _ others =>
          cases readAs
          change Option.bind (entries.changeAt?
            (Toml.Entries.assign? (setting.value config) [setting.name]) [setting.table.name])
            (fun after => some ⟨after, [setting.table.name]⟩) = some next at added
          obtain ⟨after, assigned, same⟩ := Option.bind_eq_some_iff.mp added
          cases same
          have whole := ih others (gives.setting assigned) ran
          rw [List.append_assoc] at whole
          exact whole
      | @added _ addition _ foreign others =>
          have taken : Toml.Taken ⟨entries, current⟩ line next := Toml.taken_of_add? added
          have form : line.form = addition.form := readAs.form
          rw [← form, ← taken.current] at others
          refine ih others ?_ ran
          rw [← form] at foreign
          cases target : line.form.target? current with
          | none =>
              rw [taken.entries_eq target]
              exact gives
          | some path => exact gives.foreign (foreign path target) (taken.changedAt target)

/-! ### Reading -/

variable (escaping : Escaping) (config : Config)

theorem readValue?_boolean (value : Bool) (rest : List Char) :
    Toml.readValue? Toml.nestingLimit (boolean value ++ '\n' :: rest) =
      some (.boolean value, '\n' :: rest) := by
  cases value <;> rfl

theorem readValue?_spelling (setting : Setting) (rest : List Char) :
    Toml.readValue? Toml.nestingLimit (setting.spelling escaping config ++ '\n' :: rest) =
      some (setting.value config, '\n' :: rest) := by
  cases setting with
  | ignoredBranches => exact escaping.readValue?_list config.ci.ignoredBranches ('\n' :: rest)
  | block => exact readValue?_boolean config.hooks.block rest
  | color => exact readValue?_boolean config.ui.color rest
  | hints => exact readValue?_boolean config.ui.hints rest

theorem skipSpaces_spelling (setting : Setting) (rest : List Char) :
    Toml.skipSpaces (setting.spelling escaping config ++ rest) =
      setting.spelling escaping config ++ rest := by
  have boolean (value : Bool) : Toml.skipSpaces (boolean value ++ rest) = boolean value ++ rest := by
    cases value <;> rfl
  cases setting with
  | ignoredBranches => rfl
  | block => exact boolean config.hooks.block
  | color => exact boolean config.ui.color
  | hints => exact boolean config.ui.hints

theorem readLine?_setting (setting : Setting) (rest : List Char) :
    Toml.readLine? ((Piece.setting setting).text escaping config ++ rest) =
      some (.assignment [setting.name] (setting.value config), rest) := by
  let spelled := setting.spelling escaping config ++ '\n' :: rest
  have whole : (Piece.setting setting).text escaping config ++ rest =
      setting.name.toList ++ " = ".toList ++ spelled := by
    unfold Piece.text
    simp only [List.append_assoc, List.cons_append, List.nil_append, spelled]
  have opened : Toml.skipSpaces (setting.name.toList ++ " = ".toList ++ spelled) =
      setting.name.toList ++ " = ".toList ++ spelled := by
    cases setting <;> rfl
  have assigned : Toml.readAssignment? (Toml.readValue? Toml.nestingLimit)
      (setting.name.toList ++ " = ".toList ++ spelled) =
      (Toml.readValue? Toml.nestingLimit (Toml.skipSpaces spelled)).map
        fun read => (([setting.name], read.1), read.2) := by
    cases setting <;> rfl
  rw [skipSpaces_spelling, readValue?_spelling] at assigned
  rw [← opened] at assigned
  rw [whole, Toml.readLine?_assignment assigned]
  rfl

theorem exists_readLine?_piece (piece : Piece) (rest : List Char) :
    ∃ line, Toml.readLine? (piece.text escaping config ++ rest) = some (line, rest) ∧
      ReadAs config piece line := by
  cases piece with
  | header table => exact ⟨.header [table.name], by cases table <;> rfl, .header⟩
  | setting setting => exact ⟨_, readLine?_setting escaping config setting rest, .setting⟩
  | added addition =>
      obtain ⟨line, read, form, closed⟩ := Toml.exists_readLine? addition.written rest
      refine ⟨line, ?_, .added form closed⟩
      change Toml.readLine? (addition.text ++ ['\n'] ++ rest) = some (line, rest)
      rw [List.append_assoc]
      exact read

theorem text_ne_nil (piece : Piece) : piece.text escaping config ≠ [] := by
  cases piece with
  | header => exact List.cons_ne_nil _ _
  | setting setting => cases setting <;> exact List.cons_ne_nil _ _
  | added => exact List.append_ne_nil_of_right_ne_nil _ (List.cons_ne_nil _ _)

def written (pieces : List Piece) : String :=
  String.ofList (pieces.flatMap (Piece.text escaping config))

theorem exists_readLines?_pieces {pieces : List Piece} {count : Nat}
    (enough : pieces.length ≤ count) :
    ∃ lines, Toml.readLines? count (pieces.flatMap (Piece.text escaping config)) = some lines ∧
      List.Forall₂ (ReadAs config) pieces lines := by
  induction pieces generalizing count with
  | nil => exact ⟨[], by cases count <;> rfl, .nil⟩
  | cons piece pieces ih =>
      obtain ⟨count, rfl⟩ := Nat.exists_eq_succ_of_ne_zero (Nat.ne_zero_of_lt enough)
      obtain ⟨lines, further, each⟩ := ih (Nat.le_of_succ_le_succ enough)
      obtain ⟨line, read, readAs⟩ := exists_readLine?_piece escaping config piece
        (pieces.flatMap (Piece.text escaping config))
      refine ⟨line :: lines, ?_, .cons readAs each⟩
      obtain ⟨c, cs, whole⟩ := List.exists_cons_of_ne_nil (text_ne_nil escaping config piece)
      rw [whole, List.cons_append] at read
      rw [List.flatMap_cons, whole, List.cons_append, Toml.readLines?, read]
      dsimp only
      rw [further]
      rfl

theorem length_pieces (pieces : List Piece) :
    pieces.length ≤ (pieces.flatMap (Piece.text escaping config)).length := by
  induction pieces with
  | nil => exact Nat.le_refl 0
  | cons piece pieces ih =>
      have some := List.length_pos_iff.mpr (text_ne_nil escaping config piece)
      rw [List.flatMap_cons, List.length_append, List.length_cons]
      omega

theorem skipByteOrderMark_pieces (pieces : List Piece) :
    Toml.skipByteOrderMark (pieces.flatMap (Piece.text escaping config)) =
      pieces.flatMap (Piece.text escaping config) := by
  cases pieces with
  | nil => rfl
  | cons piece pieces =>
      obtain ⟨line, read, -⟩ := exists_readLine?_piece escaping config piece
        (pieces.flatMap (Piece.text escaping config))
      rw [List.flatMap_cons]
      unfold Toml.skipByteOrderMark
      split
      · next marked =>
          rw [marked] at read
          cases read
      · rfl

variable {config} in
theorem forms_of_readAs {pieces : List Piece} {lines : List Toml.Line}
    (each : List.Forall₂ (ReadAs config) pieces lines) :
    lines.map Toml.Line.form = pieces.map Piece.form := by
  induction each with
  | nil => rfl
  | cons readAs _ ih => rw [List.map_cons, List.map_cons, readAs.form, ih]

variable {config} in
theorem closed_of_readAs {pieces : List Piece} {lines : List Toml.Line}
    (each : List.Forall₂ (ReadAs config) pieces lines) (path : List String) (value : Toml.Value)
    (member : .assignment path value ∈ lines) : value.Closed := by
  induction each with
  | nil => cases member
  | cons readAs _ ih =>
      rcases List.mem_cons.mp member with same | member
      · exact readAs.closed path value same.symm
      · exact ih member

theorem exists_entries?_written {pieces : List Piece}
    (consistent : Toml.Consistent .empty [] (pieces.map Piece.form)) :
    ∃ lines entries, List.Forall₂ (ReadAs config) pieces lines ∧
      Toml.entriesOfLines? lines = some entries ∧
      Toml.entries? (written escaping config pieces).toList = some entries := by
  obtain ⟨lines, read, each⟩ := exists_readLines?_pieces escaping config
    (Nat.le_succ_of_le (length_pieces escaping config pieces))
  rw [← forms_of_readAs each] at consistent
  obtain ⟨entries, made⟩ := Toml.exists_entriesOfLines? (closed_of_readAs each) consistent
  refine ⟨lines, entries, each, made, ?_⟩
  unfold Toml.entries? written
  rw [String.toList_ofList, skipByteOrderMark_pieces, read]
  exact made

/-- Settings are read back as they were written, whatever else a file with them has, as long as it is
well-formed, gives nothing twice and keeps to the limits of the reader. -/
theorem parse_written {config : Config} {pieces : List Piece}
    (compile : ∀ pattern ∈ config.ci.ignoredBranches, Compiles pattern)
    (arranged : Arranged [] pieces)
    (consistent : Toml.Consistent .empty [] (pieces.map Piece.form))
    (diagnosis : String → String) :
    parse (written escaping config pieces) diagnosis = .ok (config.keeping (chosen pieces)) := by
  obtain ⟨lines, entries, each, made, read⟩ := exists_entries?_written escaping config consistent
  obtain ⟨final, added, rfl⟩ := Option.map_eq_some_iff.mp made
  have gives : Gives config (chosen pieces) final.entries :=
    gives_of_arranged arranged (gives_nil config) each added
  refine parse_of_compile ?_ (compile_keeping compile (chosen pieces))
  unfold decoded?
  rw [read]
  exact ofEntries?_of_gives gives

def intricate : Config where
  ci := ⟨["say\"so", "back\\slash", "two\nlines*"]⟩
  hooks := ⟨true⟩
  ui := ⟨false, false⟩

private theorem few {count : Nat} (small : count ≤ 79 := by decide) :
    Toml.Limits.reader.parts count :=
  small

private theorem shallow {levels : Nat} (small : levels ≤ 79 := by decide) :
    Toml.Limits.reader.depth levels :=
  small

theorem lineText_sizes : Toml.LineText .reader (.assignment ["sizes", "small"])
    "sizes.small = [ 1, # of two\n  '2' ]".toList := by
  have key : Toml.PathText ["sizes", "small"]
      ([] ++ ("sizes".toList ++ ([] ++ '.' :: ("small".toList ++ [' '])))) :=
    .next (List.forall_mem_nil _) (keyText_of_all (by decide) rfl) (List.forall_mem_nil _)
      (pathText_of_all (by decide) rfl rfl)
  have one : Toml.Atom .reader ['1'] :=
    .integer (integerText_of_all (by decide) rfl (by decide)) (by constructor <;> decide)
  have two : Toml.Atom .reader ('\'' :: (['2'] ++ ['\''])) :=
    .literal (List.forall_mem_singleton.mpr (by decide))
  have blank : Toml.Filler [' '] := .blanks blanks_space
  have comment : Toml.Filler ([' '] ++ "# of two".toList ++ '\n' :: "  ".toList) :=
    .line (.fed blanks_space (.words (List.all_eq_true.mp rfl)))
      (.blanks (blanks_of_all rfl))
  have items : Toml.ItemsText (Toml.Atom .reader) _ :=
    .next blank one (.blanks (List.forall_mem_nil _)) (.last comment two blank)
  have list : Toml.ValueText .reader 1 _ := Toml.Nested.list items
  exact lineText_spaced key few list shallow

theorem lineText_width : Toml.LineText .reader (.assignment ["width"]) "width = 80".toList := by
  have key : Toml.PathText ["width"] ("width".toList ++ [' ']) :=
    pathText_of_all (by decide) rfl rfl
  have eighty : Toml.ValueText .reader 0 "80".toList :=
    .integer (integerText_of_all (by decide) rfl (by decide)) (by constructor <;> decide)
  exact lineText_spaced key few eighty shallow

theorem lineText_theme : Toml.LineText .reader (.header ["ui", "theme"]) "[ui.theme]".toList := by
  have key : Toml.PathText ["ui", "theme"]
      ([] ++ ("ui".toList ++ ([] ++ '.' :: ("theme".toList ++ [])))) :=
    .next (List.forall_mem_nil _) (keyText_of_all (by decide) rfl) (List.forall_mem_nil _)
      (pathText_of_all (by decide) rfl rfl)
  exact .header (List.forall_mem_nil _) key few (.fed (List.forall_mem_nil _) .missing)

theorem lineText_border : Toml.LineText .reader (.assignment ["border"])
    "border = \x7b top = 1, side.left = 0x1F \x7d".toList := by
  have key : Toml.PathText ["border"] ("border".toList ++ [' ']) :=
    pathText_of_all (by decide) rfl rfl
  have one : Toml.Atom .reader ['1'] :=
    .integer (integerText_of_all (by decide) rfl (by decide)) (by constructor <;> decide)
  have based : Toml.Atom .reader ('0' :: 'x' :: "1F".toList) :=
    .integer (.based .hexadecimal (digits_of_all (by decide) rfl)) (by constructor <;> decide)
  have top : Toml.PathText ["top"] ([' '] ++ ("top".toList ++ [' '])) :=
    .last blanks_space (keyText_of_all (by decide) rfl) blanks_space
  have side : Toml.PathText ["side", "left"]
      ([' '] ++ ("side".toList ++ ([] ++ '.' :: ("left".toList ++ [' '])))) :=
    .next blanks_space (keyText_of_all (by decide) rfl) (List.forall_mem_nil _)
      (pathText_of_all (by decide) rfl rfl)
  have assignments :
      Toml.AssignmentsText .reader (Toml.Atom .reader) [["top"], ["side", "left"]] _ :=
    .next (assignmentText_spaced top few one) (List.forall_mem_nil _)
      (.last (assignmentText_spaced side few based) blanks_space)
  have table : Toml.ValueText .reader 1 _ := Toml.Nested.table assignments (by decide)
  exact lineText_spaced key few table shallow

theorem lineText_mirror : Toml.LineText .reader (.element ["mirror"]) "[[mirror]]".toList := by
  have key : Toml.PathText ["mirror"] ("mirror".toList ++ []) :=
    pathText_of_all (by decide) rfl rfl
  exact .element (List.forall_mem_nil _) key few (.fed (List.forall_mem_nil _) .missing)

theorem lineText_color : Toml.LineText .reader (.assignment ["color"]) "color = nan".toList := by
  have key : Toml.PathText ["color"] ("color".toList ++ [' ']) :=
    pathText_of_all (by decide) rfl rfl
  have number : Toml.ValueText .reader 0 "nan".toList :=
    .float (.notANumber .missing) fun _ _ same => by cases same
  exact lineText_spaced key few number shallow

def intricatePieces : List Piece :=
  [.added ⟨_, _, lineText_sizes⟩, .added ⟨_, _, lineText_theme⟩, .added ⟨_, _, lineText_border⟩,
    .header .ui, .added ⟨_, _, lineText_width⟩, .setting .hints, .header .hooks, .header .ci,
    .setting .ignoredBranches, .added ⟨_, _, lineText_mirror⟩, .added ⟨_, _, lineText_color⟩,
    .added ⟨_, _, lineText_mirror⟩, .added ⟨_, _, lineText_color⟩]

theorem compile_intricate : ∀ pattern ∈ intricate.ci.ignoredBranches, Compiles pattern := by
  intro pattern member
  change pattern ∈ ["say\"so", "back\\slash", "two\nlines*"] at member
  simp only [List.mem_cons, List.not_mem_nil, or_false] at member
  rcases member with rfl | rfl | rfl
  · exact ⟨"say\"so".toList.map .literal, by cbv⟩
  · exact ⟨"back\\slash".toList.map .literal, by cbv⟩
  · exact ⟨"two\nlines".toList.map .literal ++ [.anySequence], by cbv⟩

theorem foreign_table {key : String} {below : List String}
    (unknown : ∀ table ∈ [Table.ci, .hooks, .ui], table.name ≠ key) : Foreign (key :: below) := by
  apply Foreign.table
  intro table
  cases table <;> exact unknown _ (by decide)

theorem foreign_key {table : Table} {key : String} {below : List String}
    (unknown : ∀ setting ∈ [Setting.ignoredBranches, .block, .color, .hints], setting.name ≠ key) :
    Foreign (table.name :: key :: below) := by
  apply Foreign.key
  intro setting _
  cases setting <;> exact unknown _ (by decide)

theorem arranged_intricate : Arranged [] intricatePieces := by
  refine .added ?sizes (.added ?theme (.added ?border (.header (.added ?width
    (@Arranged.setting .hints _ (.header (.header (@Arranged.setting .ignoredBranches _
      (.added ?mirror (.added ?color (.added ?mirror' (.added ?color' .nil))))))))))))
  all_goals
    intro path target
    cases target
  case sizes => exact foreign_table (by decide)
  case theme | border | width => exact @foreign_key .ui _ _ (by decide)
  case mirror | color | mirror' | color' => exact foreign_table (by decide)

theorem parse_written_intricate :
    written .standard intricate intricatePieces =
      "sizes.small = [ 1, # of two\n  '2' ]\n" ++
      "[ui.theme]\nborder = \x7b top = 1, side.left = 0x1F \x7d\n" ++
      "[ui]\nwidth = 80\nhints = false\n[hooks]\n[ci]\n" ++
      "ignore_pull_requests_from_branches = " ++
        "[\"say\\\"so\", \"back\\\\slash\", \"two\\u000alines*\"]\n" ++
      "[[mirror]]\ncolor = nan\n[[mirror]]\ncolor = nan\n" ∧
    parse (written .standard intricate intricatePieces) =
      .ok { ci := intricate.ci, ui.hints := false } :=
  ⟨by decide +kernel, parse_written .standard compile_intricate arranged_intricate (by decide) _⟩

/-- A line that the grammar has, about a path of its own, which on its own is no configuration. -/
structure Unread (path : List String) (text : List Char) : Prop where
  written : Toml.LineText .none (.assignment path) text
  foreign : Foreign path
  refused : ∀ diagnosis, ∃ error, parse (String.ofList (text ++ ['\n'])) diagnosis = .error error

theorem unread_of_entries? {path : List String} {text : List Char}
    (written : Toml.LineText .none (.assignment path) text)
    (unknown : ∀ key ∈ path.head?, ∀ table ∈ [Table.ci, .hooks, .ui], table.name ≠ key)
    (filled : path ≠ []) (missing : (Toml.entries? (text ++ ['\n'])).isNone = true) :
    Unread path text := by
  obtain ⟨key, below, rfl⟩ := List.exists_cons_of_ne_nil filled
  refine ⟨written, foreign_table (unknown key rfl), ?_⟩
  intro diagnosis
  unfold parse
  rw [String.toList_ofList, Option.isNone_iff_eq_none.mp missing]
  exact ⟨_, rfl⟩

def nestedLists : Nat → List Char
  | 0 => "[]".toList
  | levels + 1 => '[' :: (nestedLists levels ++ [']'])

theorem valueText_nestedLists (levels : Nat) :
    Toml.ValueText .none (levels + 1) (nestedLists levels) := by
  have unfilled : Toml.Filler [] := .blanks (List.forall_mem_nil _)
  induction levels with
  | zero => exact .list (.none unfilled)
  | succ levels ih =>
      have items := Toml.ItemsText.last unfilled ih unfilled
      rw [List.append_nil, List.nil_append] at items
      exact .list items

def dottedKey : Nat → List Char
  | 0 => "a ".toList
  | parts + 1 => 'a' :: '.' :: dottedKey parts

theorem pathText_dottedKey (parts : Nat) :
    Toml.PathText (List.replicate (parts + 1) "a") (dottedKey parts) := by
  have key : Toml.KeyText "a" ['a'] := keyText_of_all (by decide) rfl
  induction parts with
  | zero => exact .last (List.forall_mem_nil _) key blanks_space
  | succ parts ih => exact .next (List.forall_mem_nil _) key (List.forall_mem_nil _) ih

/-- The reader stops short of the grammar in four ways. -/
theorem wellFormed_additions_refused :
    Unread ["big"] "big = 1e400".toList ∧
      Unread ["big"] "big = 9223372036854775808".toList ∧
      Unread ["deep"] ("deep = ".toList ++ nestedLists 79) ∧
      Unread (List.replicate 80 "a") (dottedKey 79 ++ "= 1".toList) := by
  have big : Toml.PathText ["big"] ("big".toList ++ [' ']) := pathText_of_all (by decide) rfl rfl
  have deep : Toml.PathText ["deep"] ("deep".toList ++ [' ']) := pathText_of_all (by decide) rfl rfl
  have one : Toml.ValueText .none 0 ['1'] :=
    .integer (integerText_of_all (by decide) rfl (by decide)) trivial
  have long : Toml.ValueText .none 0 "9223372036854775808".toList :=
    .integer (integerText_of_all (by decide) rfl (by decide)) trivial
  have exponent : Toml.ExponentText ('e' :: ([] ++ "400".toList)) _ :=
    .digits (.inl rfl) .missing (digits_of_all (by decide) rfl)
  have huge : Toml.ValueText .none 0 ([] ++ (['1'] ++ [] ++ 'e' :: ([] ++ "400".toList))) :=
    .float (.decimal .missing ⟨digits_of_all (by decide) rfl, .inr rfl⟩ .missing exponent
      (.inr (List.cons_ne_nil _ _))) trivial
  exact ⟨unread_of_entries? (lineText_spaced big trivial huge trivial) (by decide) (by decide)
      (by decide +kernel),
    unread_of_entries? (lineText_spaced big trivial long trivial) (by decide) (by decide)
      (by decide +kernel),
    unread_of_entries? (lineText_spaced deep trivial (valueText_nestedLists 79) trivial) (by decide)
      (by decide) (by decide +kernel),
    unread_of_entries? (lineText_spaced (pathText_dottedKey 79) trivial one trivial) (by decide)
      (by decide) (by decide +kernel)⟩

end CommitCheck.Config
