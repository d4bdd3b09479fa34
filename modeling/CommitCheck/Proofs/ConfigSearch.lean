import CommitCheck.Config.Search
import CommitCheck.Proofs.BranchPatterns
import Mathlib

set_option autoImplicit false

/-! Which configuration file counts. The paths that are tried are those of the current directory and
of every directory above it, then those of the home directory, then the one among the settings. The
first of them at which the user finds anything is the one that is read, and whatever is wrong with it
is reported: no later path makes up for it. The defaults come out without such a path, and of a file
that says nothing else. -/

namespace CommitCheck

namespace Path

private theorem ofNames_of_remainder {pieces : List String}
    (proper : ∀ piece ∈ pieces, isIdle piece = false) :
    ofNames (((pieces ++ [""]).dropWhile isIdle).reverse.dropWhile (· == "")) =
      ofNames pieces.reverse := by
  cases pieces with
  | nil => rfl
  | cons piece others =>
      have whole : (piece :: others ++ [""]).dropWhile isIdle = piece :: others ++ [""] := by
        rw [List.cons_append, List.dropWhile_cons_of_neg]
        rw [proper piece List.mem_cons_self]
        exact Bool.false_ne_true
      have kept : (piece :: others).reverse.dropWhile (· == "") = (piece :: others).reverse := by
        apply List.dropWhile_eq_self_iff.mpr
        intro positive empty
        have idle := proper _ (List.mem_reverse.mp (List.getElem_mem positive))
        rw [eq_of_beq empty] at idle
        cases idle
      rw [whole, List.reverse_append, List.reverse_singleton, List.singleton_append]
      exact congrArg ofNames kept

private theorem map_remainders {pieces : List String}
    (proper : ∀ piece ∈ pieces, isIdle piece = false) :
    (remainders (pieces ++ [""])).map
        (fun pieces => ofNames (pieces.reverse.dropWhile (· == ""))) =
      pieces.tails.tail.map fun rest => ofNames rest.reverse := by
  induction pieces with
  | nil => rfl
  | cons piece pieces ih =>
      have others : ∀ other ∈ pieces, isIdle other = false :=
        fun other member => proper other (List.mem_cons_of_mem piece member)
      have split : pieces.tails = pieces :: pieces.tails.tail := by cases pieces <;> rfl
      rw [List.cons_append, remainders, proper piece List.mem_cons_self,
        if_neg Bool.false_ne_true, List.map_cons, ih others, ofNames_of_remainder others,
        List.tails_cons, List.tail_cons]
      conv => rhs; rw [split, List.map_cons]

theorem cons_parents_ofNames {names : List String}
    (proper : ∀ name ∈ names, isIdle name = false) :
    ofNames names :: (ofNames names).parents = names.inits.reverse.map ofNames := by
  have upwards : names.inits.reverse.map ofNames =
      names.reverse.tails.map fun rest => ofNames rest.reverse := by
    rw [List.tails_reverse, ← List.map_reverse, List.map_map]
    apply List.map_congr_left
    intro start _member
    exact congrArg ofNames (List.reverse_reverse start).symm
  have split : names.reverse.tails = names.reverse :: names.reverse.tails.tail := by
    cases names.reverse <;> rfl
  rw [upwards, split, List.map_cons, List.reverse_reverse]
  congr 1
  cases names with
  | nil => rfl
  | cons name others =>
      rw [← map_remainders fun piece member => proper piece (List.mem_reverse.mp member)]
      unfold parents ofNames
      rw [List.isEmpty_cons, if_neg Bool.false_ne_true, List.reverse_cons]

private theorem exists_split_eq (piece cs : List Char) :
    ∃ rest others, split piece cs = String.ofList (piece ++ rest) :: others := by
  induction cs generalizing piece with
  | nil => exact ⟨[], [], by rw [List.append_nil]; rfl⟩
  | cons c cs ih =>
      unfold split
      by_cases slash : c = '/'
      · rw [if_pos slash]
        exact ⟨[], _, by rw [List.append_nil]⟩
      · rw [if_neg slash]
        obtain ⟨rest, others, whole⟩ := ih (piece ++ [c])
        refine ⟨c :: rest, others, ?_⟩
        rw [whole, List.append_assoc, List.singleton_append]

theorem isAbsolute_ofText_iff {text : String} :
    (ofText text).isAbsolute = true ↔ text.toList.head? = some '/' := by
  unfold ofText
  cases text.toList with
  | nil => decide
  | cons c cs =>
      unfold split
      by_cases slash : c = '/'
      · rw [if_pos slash, slash]
        obtain ⟨rest, others, whole⟩ := exists_split_eq [] cs
        rw [whole]
        exact iff_of_true rfl rfl
      · rw [if_neg slash]
        obtain ⟨rest, others, whole⟩ := exists_split_eq [c] cs
        have filled : String.ofList ([c] ++ rest) ≠ "" := by
          intro empty
          have impossible := congrArg String.toList empty
          rw [String.toList_ofList] at impossible
          cases impossible
        rw [List.nil_append, whole]
        refine iff_of_false ?_ ?_
        · unfold isAbsolute
          split
          · rename_i first
            exact absurd (List.cons.inj first).1 filled
          · exact Bool.false_ne_true
        · intro same
          exact slash (Option.some.inj same)

end Path

namespace Config

def namesWithin (directory : Path) : List Path :=
  [directory.child "cmc.toml", directory.child ".cmc.toml",
    (directory.child ".config").child "cmc.toml"]

def homeOf (host : Host) : Option String :=
  match host.environment "HOME" with
  | some home => if home = "" then host.surroundings.accountHome? else some home
  | none => host.surroundings.accountHome?

def settingsOf (host : Host) : Option Path :=
  let fallback := (homeOf host).map fun home => (Path.ofText home).child ".config"
  match host.environment "XDG_CONFIG_HOME" with
  | some directory =>
      if directory.toList.head? = some '/' then some (Path.ofText directory) else fallback
  | none => fallback

/-- The paths that are tried, in their order. -/
def searchOrder (host : Host) : List Path :=
  host.directory.inits.reverse.flatMap (fun names => namesWithin (Path.ofNames names)) ++
    (homeOf host).toList.flatMap (fun home => namesWithin (Path.ofText home)) ++
    (settingsOf host).toList.map fun directory => (directory.child "cmc").child "config.toml"

theorem inDirectory_eq (directory : Path) : inDirectory directory = namesWithin directory := by
  have nested : (directory.child ".config").stem = directory.stem ++ [".config"] := by
    unfold Path.child Path.stem
    rw [List.getLast?_concat, if_neg (by decide)]
  unfold namesWithin
  rw [Path.child, Path.child, Path.child, nested, List.append_assoc]
  rfl

theorem home?_eq (host : Host) : home? host.surroundings = (homeOf host).map Path.ofText := by
  unfold home? homeOf Build.filled? Host.environment
  cases host.surroundings.environment "HOME" with
  | none => rfl
  | some home =>
      by_cases empty : home = ""
      · subst empty
        rfl
      · have filled : home.isEmpty = false := by
          rw [← Bool.not_eq_true, String.isEmpty_iff]
          exact empty
        simp only [Option.filter_some, filled, if_neg empty]
        rfl

theorem settings?_eq (host : Host) : settings? host.surroundings = settingsOf host := by
  have fallback : (home? host.surroundings).map (·.child ".config") =
      (homeOf host).map fun home => (Path.ofText home).child ".config" := by
    rw [home?_eq, Option.map_map]
    rfl
  unfold settings? settingsOf
  rw [fallback]
  unfold Host.environment
  cases host.surroundings.environment "XDG_CONFIG_HOME" with
  | none => rfl
  | some directory =>
      dsimp only
      by_cases absolute : directory.toList.head? = some '/'
      · rw [if_pos absolute, Option.map_some,
          Option.filter_some_pos (Path.isAbsolute_ofText_iff.mpr absolute)]
      · have relative : (Path.ofText directory).isAbsolute = false :=
          Bool.eq_false_iff.mpr fun said => absolute (Path.isAbsolute_ofText_iff.mp said)
        rw [if_neg absolute, Option.map_some, Option.filter_some_neg relative]

theorem candidates_eq {host : Host}
    (proper : ∀ name ∈ host.directory, Path.isIdle name = false) :
    candidates host.surroundings host.currentPath = searchOrder host := by
  unfold candidates searchOrder Host.currentPath
  rw [settings?_eq, home?_eq, Path.cons_parents_ofNames proper, List.flatMap_map]
  simp only [inDirectory_eq]
  cases homeOf host with
  | none => rfl
  | some home =>
      simp only [Option.map_some, Option.toList_some, List.flatMap_cons, List.flatMap_nil,
        inDirectory_eq]

/-- There is something at the path, and nothing at any path in front of it. -/
def FirstHeld (host : Host) (paths : List Path) (path : Path) : Prop :=
  host.holds path = true ∧
    ∃ before after, paths = before ++ path :: after ∧
      ∀ earlier ∈ before, host.holds earlier = false

theorem find?_holds_eq_some_iff {host : Host} {paths : List Path} {path : Path} :
    paths.find? host.holds = some path ↔ FirstHeld host paths path := by
  unfold FirstHeld
  rw [List.find?_eq_some_iff_append]
  simp only [Bool.not_eq_true']

theorem find?_holds_eq_none_iff {host : Host} {paths : List Path} :
    paths.find? host.holds = none ↔ ∀ path ∈ paths, host.holds path = false := by
  rw [List.find?_eq_none]
  simp only [Bool.not_eq_true]

/-! ### Documents that say the defaults -/

/-- Each setting of the document is missing or has its default. -/
structure SaysDefaults (entries : Toml.Entries) : Prop where
  ci : ∀ value, entries.lookup "ci" = some value →
    ∃ settings, Section.ofValue? value = some settings ∧
      ∀ branches, settings.get? 0 "ignore_pull_requests_from_branches" = some branches →
        texts? branches = some ["master", "develop"]
  hooks : ∀ value, entries.lookup "hooks" = some value →
    ∃ settings, Section.ofValue? value = some settings ∧
      ∀ block, settings.get? 0 "block" = some block → block = .boolean false
  ui : ∀ value, entries.lookup "ui" = some value →
    ∃ settings, Section.ofValue? value = some settings ∧
      (∀ color, settings.get? 0 "color" = some color → color = .boolean true) ∧
      ∀ hints, settings.get? 1 "hints" = some hints → hints = .boolean true

theorem setting?_eq_default_iff {α : Type} {settings : Section} {place : Nat} {name : String}
    {default : α} {decode? : Toml.Value → Option α} :
    settings.setting? place name default decode? = some default ↔
      ∀ value, settings.get? place name = some value → decode? value = some default := by
  unfold Section.setting?
  cases settings.get? place name with
  | none => simp
  | some value => simp

theorem boolean?_eq_some_iff {value : Toml.Value} {said : Bool} :
    boolean? value = some said ↔ value = .boolean said := by
  cases value <;> simp [boolean?]

theorem ci?_eq_default_iff {value : Toml.Value} :
    ci? value = some {} ↔ ∃ settings, Section.ofValue? value = some settings ∧
      ∀ branches, settings.get? 0 "ignore_pull_requests_from_branches" = some branches →
        texts? branches = some ["master", "develop"] := by
  unfold ci?
  simp only [Option.bind_eq_bind, Option.bind_eq_some_iff, Option.some.injEq,
    CiConfig.mk.injEq, exists_eq_right, setting?_eq_default_iff]

theorem hooks?_eq_default_iff {value : Toml.Value} :
    hooks? value = some {} ↔ ∃ settings, Section.ofValue? value = some settings ∧
      ∀ block, settings.get? 0 "block" = some block → block = .boolean false := by
  unfold hooks?
  simp only [Option.bind_eq_bind, Option.bind_eq_some_iff, Option.some.injEq,
    HookConfig.mk.injEq, exists_eq_right, setting?_eq_default_iff, boolean?_eq_some_iff]

theorem ui?_eq_default_iff {value : Toml.Value} :
    ui? value = some {} ↔ ∃ settings, Section.ofValue? value = some settings ∧
      (∀ color, settings.get? 0 "color" = some color → color = .boolean true) ∧
      ∀ hints, settings.get? 1 "hints" = some hints → hints = .boolean true := by
  unfold ui?
  simp only [Option.bind_eq_bind, Option.bind_eq_some_iff, Option.some.injEq,
    DisplayConfig.mk.injEq, exists_eq_right_right, setting?_eq_default_iff,
    boolean?_eq_some_iff]

theorem ofEntries?_eq_default_iff {entries : Toml.Entries} :
    ofEntries? entries = some {} ↔ SaysDefaults entries := by
  unfold ofEntries?
  simp only [Option.bind_eq_bind, Option.bind_eq_some_iff, Option.some.injEq, Config.mk.injEq]
  constructor
  · rintro ⟨_, ci, _, hooks, _, ui, rfl, rfl, rfl⟩
    rw [setting?_eq_default_iff] at ci hooks ui
    exact ⟨fun value said => ci?_eq_default_iff.mp (ci value said),
      fun value said => hooks?_eq_default_iff.mp (hooks value said),
      fun value said => ui?_eq_default_iff.mp (ui value said)⟩
  · rintro ⟨ci, hooks, ui⟩
    refine ⟨{}, ?_, {}, ?_, {}, ?_, rfl, rfl, rfl⟩ <;> rw [setting?_eq_default_iff]
    · exact fun value said => ci?_eq_default_iff.mpr (ci value said)
    · exact fun value said => hooks?_eq_default_iff.mpr (hooks value said)
    · exact fun value said => ui?_eq_default_iff.mpr (ui value said)

theorem parse_eq_default_iff {text : String} {diagnosis : String → String} :
    parse text diagnosis = .ok {} ↔
      ∃ entries, Toml.entries? text.toList = some entries ∧ SaysDefaults entries := by
  rw [parse_eq_ok_iff]
  unfold decoded?
  simp only [Option.bind_eq_some_iff, ofEntries?_eq_default_iff]
  exact and_iff_left compile_defaults

/-! ### Loading -/

theorem parse_ne_notFound (text : String) (diagnosis : String → String) (path : String) :
    parse text diagnosis ≠ .error (.notFound path) := by
  intro impossible
  unfold parse at impossible
  split at impossible
  · cases impossible
  · split at impossible
    · rename_i error refused
      obtain ⟨pattern, -, refused⟩ := List.exists_of_findSome?_eq_some refused
      unfold patternError? at refused
      split at refused
      · cases refused
      · cases refused
        cases impossible
    · cases impossible

theorem loadFrom_of_readable {host : Host} {path : Path} {text : String}
    (held : host.holds path = true) (readable : host.readText path = .ok text) :
    loadFrom host path = parse text host.surroundings.diagnosis := by
  unfold loadFrom
  rw [if_pos held, readable]

theorem loadFrom_of_unreadable {host : Host} {path : Path} {fault : Fault}
    (held : host.holds path = true) (unreadable : host.readText path = .error fault) :
    loadFrom host path = .error (.unreadable fault.message) := by
  unfold loadFrom
  rw [if_pos held, unreadable]

theorem loadFrom_ne_notFound {host : Host} {path : Path} (held : host.holds path = true)
    (missing : String) : loadFrom host path ≠ .error (.notFound missing) := by
  cases content : host.readText path with
  | ok text =>
      rw [loadFrom_of_readable held content]
      exact parse_ne_notFound text _ missing
  | error fault =>
      rw [loadFrom_of_unreadable held content]
      intro impossible
      cases impossible

theorem loadFrom_eq_default_iff {host : Host} {path : Path} (held : host.holds path = true) :
    loadFrom host path = .ok {} ↔ ∃ text entries, host.readText path = .ok text ∧
      Toml.entries? text.toList = some entries ∧ SaysDefaults entries := by
  cases content : host.readText path with
  | ok text =>
      rw [loadFrom_of_readable held content, parse_eq_default_iff]
      simp only [Except.ok.injEq, exists_and_left, exists_eq_left']
  | error fault =>
      rw [loadFrom_of_unreadable held content]
      simp

/-- The search and what is loaded go by an order of paths: the first of them at which the user finds
anything is found and read, and whatever is wrong with it is the answer. The defaults are loaded
without such a path, and from a file that says nothing else. -/
structure GoesBy (host : Host) (order : List Path) : Prop where
  found : ∀ path, find? host = some path ↔ FirstHeld host order path
  missed : find? host = none ↔ ∀ path ∈ order, host.holds path = false
  defaults : load host = .ok {} ↔ (∀ path ∈ order, host.holds path = false) ∨
    ∃ path text entries, FirstHeld host order path ∧ host.readText path = .ok text ∧
      Toml.entries? text.toList = some entries ∧ SaysDefaults entries
  loaded : ∀ path, FirstHeld host order path → load host = loadFrom host path
  unreadable : ∀ path fault, FirstHeld host order path → host.readText path = .error fault →
    load host = .error (.unreadable fault.message)
  readable : ∀ path text, FirstHeld host order path → host.readText path = .ok text →
    load host = parse text host.surroundings.diagnosis
  never_missing : ∀ missing, load host ≠ .error (.notFound missing)

theorem goesBy_candidates (host : Host) :
    GoesBy host (candidates host.surroundings host.currentPath) := by
  have found (path : Path) : find? host = some path ↔
      FirstHeld host (candidates host.surroundings host.currentPath) path :=
    find?_holds_eq_some_iff
  have missed : find? host = none ↔
      ∀ path ∈ candidates host.surroundings host.currentPath, host.holds path = false :=
    find?_holds_eq_none_iff
  have loaded (path : Path)
      (first : FirstHeld host (candidates host.surroundings host.currentPath) path) :
      load host = loadFrom host path := by
    unfold load
    rw [(found path).mpr first]
  have nothing_loaded (nothing : find? host = none) : load host = .ok {} := by
    unfold load
    rw [nothing]
  refine ⟨found, missed, ?_, loaded, ?_, ?_, ?_⟩
  · constructor
    · intro default
      cases nearest : find? host with
      | none => exact .inl (missed.mp nearest)
      | some path =>
          have first := (found path).mp nearest
          rw [loaded path first, loadFrom_eq_default_iff first.1] at default
          obtain ⟨text, entries, said⟩ := default
          exact .inr ⟨path, text, entries, first, said⟩
    · rintro (nothing | ⟨path, text, entries, first, said⟩)
      · exact nothing_loaded (missed.mpr nothing)
      · exact (loaded path first).trans
          ((loadFrom_eq_default_iff first.1).mpr ⟨text, entries, said⟩)
  · intro path fault first unreadable
    exact (loaded path first).trans (loadFrom_of_unreadable first.1 unreadable)
  · intro path text first readable
    exact (loaded path first).trans (loadFrom_of_readable first.1 readable)
  · intro missing
    cases nearest : find? host with
    | none =>
        rw [nothing_loaded nearest]
        intro impossible
        cases impossible
    | some path =>
        have first := (found path).mp nearest
        rw [loaded path first]
        exact loadFrom_ne_notFound first.1 missing

/-- The nearest configuration file counts: those of the current directory come before those of the
directories above it, and all of them before those of the user. -/
theorem goesBy_searchOrder {host : Host}
    (proper : ∀ name ∈ host.directory, Path.isIdle name = false) :
    GoesBy host (searchOrder host) := by
  rw [← candidates_eq proper]
  exact goesBy_candidates host

def brokenAbove : Host where
  files := .ofNodes
    [(["srv"], .directory), (["srv", "app"], .directory),
      (["srv", ".cmc.toml"], .file (Text.encode "[ci") FileTree.plainMode),
      (["cmc.toml"], .file [] FileTree.plainMode)]
  directory := ["srv", "app"]
  surroundings :=
    { environment := fun name => if name = "HOME" then some "/home" else none
      diagnosis := fun _ => "unclosed table, expected ]" }

theorem goesBy_searchOrder_brokenAbove :
    (∀ name ∈ brokenAbove.directory, Path.isIdle name = false) ∧
      GoesBy brokenAbove (searchOrder brokenAbove) ∧
      FirstHeld brokenAbove (searchOrder brokenAbove) (Path.ofText "/srv/.cmc.toml") ∧
      load brokenAbove =
        .error (.malformed "Failed to parse TOML: unclosed table, expected ]") := by
  have proper : ∀ name ∈ brokenAbove.directory, Path.isIdle name = false := by decide
  have goesBy := goesBy_searchOrder proper
  have first : FirstHeld brokenAbove (searchOrder brokenAbove) (Path.ofText "/srv/.cmc.toml") := by
    apply (goesBy.found _).mp
    cbv
  refine ⟨proper, goesBy, first, ?_⟩
  rw [goesBy.readable _ "[ci" first (by cbv)]
  cbv

def emptyAbove (mayOpen : Place → Bool) : Host where
  files := .ofNodes
    [(["srv"], .directory), (["srv", "cmc.toml"], .file (Text.encode "[ci") FileTree.plainMode),
      (["cmc.toml"], .file [] FileTree.plainMode)]
  directory := ["srv"]
  surroundings :=
    { environment := fun name => if name = "HOME" then some "" else none
      accountHome? := some "/"
      mayOpen }

/-- An empty file gives the defaults though it is there, a file in a directory that may not be
searched is passed over, and a home that is said to be empty is the one in the account. -/
theorem load_emptyAbove :
    (emptyAbove fun place => place != ["srv"]).files.holds (Path.ofText "/srv/cmc.toml") = true ∧
      find? (emptyAbove fun place => place != ["srv"]) = some (Path.ofText "/cmc.toml") ∧
      load (emptyAbove fun place => place != ["srv"]) = .ok {} ∧
      settings? (emptyAbove FileTree.everywhere).surroundings = some (Path.ofText "/.config") := by
  refine ⟨?_, ?_, ?_, ?_⟩ <;> cbv

end Config

end CommitCheck
