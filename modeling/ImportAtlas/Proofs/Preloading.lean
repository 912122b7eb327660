import ImportAtlas.Proofs.Later

/-!
Loading all placeholders. Each name is loaded from its own entry, so that the names can be taken in
any order: what becomes of an entry depends on its file alone.
-/

set_option autoImplicit false

namespace ImportAtlas

namespace Index

variable {lib : Library} {i j : Index}

private theorem load?_of_get? {name : String} {m : Module} (found : i.get? name = some m) :
    i.load? lib name = (m.loaded lib).toOption := by
  rw [load?, found, Option.bind_some]

private theorem load?_of_missing {name : String} (missing : i.get? name = none) :
    i.load? lib name = none := by
  rw [load?, missing, Option.bind_none]

private theorem load?_of_isLoaded {name : String} {m : Module} (found : i.get? name = some m)
    (settled : m.isLoaded) : i.load? lib name = some m := by
  rw [load?_of_get? found, Module.loaded_of_isLoaded settled]
  rfl

private theorem WellFormed.load?_of_file (h : i.WellFormed) {name : String} {key : ModuleKey}
    {file : Path} (found : i.get? name = some (.placeholder key)) (backed : key.file = some file) :
    (∀ text tree, lib.sources.read file = .ok text → lib.parser text = .ok tree →
      i.load? lib name = some (.source (.ofTree name (some file) tree))) ∧
    ((∀ text tree, lib.sources.read file = .ok text → lib.parser text ≠ .ok tree) →
      i.load? lib name = none) := by
  obtain ⟨own, backing⟩ := key
  obtain rfl : own = name := (h.placed name _ found).named
  obtain rfl : backing = some file := backed
  rw [load?_of_get? found]
  constructor
  · intro text tree reads parses
    simp only [Module.loaded, reads, parses]
    rfl
  · intro fails
    cases reads : lib.sources.read file with
    | error cause => simp only [Module.loaded, reads, Except.toOption]
    | ok text =>
      cases parses : lib.parser text with
      | error cause => simp only [Module.loaded, reads, parses, Except.toOption]
      | ok tree => exact absurd parses (fails text tree reads)

private theorem WellFormed.load?_of_no_file (h : i.WellFormed) {name : String} {key : ModuleKey}
    (found : i.get? name = some (.placeholder key)) (bare : key.file = none) :
    ∃ t, Builtin.ofName? name = some t ∧ i.load? lib name = some (.builtin t) := by
  obtain ⟨own, backing⟩ := key
  obtain rfl : own = name := (h.placed name _ found).named
  obtain rfl : backing = none := bare
  obtain ⟨t, known, -⟩ := (h.placed own _ found).of_no_file rfl
  refine ⟨t, known, ?_⟩
  rw [load?_of_get? found]
  simp only [Module.loaded, known]
  rfl

private theorem mem_unloaded (h : i.WellFormed) {name : String} :
    name ∈ i.unloaded ↔ ∃ m, i.get? name = some m ∧ m.isLoaded = false := by
  unfold unloaded
  constructor
  · intro member
    obtain ⟨⟨own, m⟩, inside, rfl⟩ := List.mem_map.mp member
    obtain ⟨stands, waits⟩ := List.mem_filter.mp inside
    exact ⟨m, NameMap.get?_of_mem h.ordered stands, by simpa using waits⟩
  · rintro ⟨m, found, waits⟩
    refine List.mem_map.mpr ⟨(name, m), List.mem_filter.mpr ⟨NameMap.mem_of_get? found, ?_⟩, rfl⟩
    simp [waits]

private theorem nodup_unloaded (h : i.WellFormed) : i.unloaded.Nodup := by
  have increasing : i.unloaded.Pairwise (· < ·) :=
    List.pairwise_map.mpr (NameMap.ordered_filter h.ordered _)
  exact increasing.imp String.ne_of_lt

private theorem unloaded_of_loads (h : j.WellFormed)
    (made : ∀ name, j.get? name = i.load? lib name) :
    j.unloaded = [] := by
  refine List.eq_nil_iff_forall_not_mem.mpr ?_
  intro name member
  obtain ⟨m, found, waits⟩ := (mem_unloaded h).mp member
  rw [made] at found
  exact Bool.false_ne_true (waits.symm.trans (isLoaded_of_load? found))

private theorem length_lost_of_loads (h : i.WellFormed)
    (made : ∀ name, j.get? name = i.load? lib name) :
    (NameMap.lost i.modules j.modules).length =
      i.unloaded.countP fun name => (i.load? lib name).isNone := by
  rw [NameMap.length_lost, unloaded, List.countP_map, List.countP_filter]
  refine List.countP_congr ?_
  rintro ⟨name, m⟩ member
  have found : i.get? name = some m := NameMap.get?_of_mem h.ordered member
  have gone : NameMap.contains j.modules name = (i.load? lib name).isSome := by
    rw [← made]
    rfl
  simp only [gone, Function.comp_apply]
  cases loaded : m.isLoaded with
  | false => simp
  | true => simp [load?_of_get? found, Module.loaded_of_isLoaded loaded, Except.toOption]

private theorem eq_of_get? (h : i.WellFormed) (h' : j.WellFormed)
    (path : i.searchPath = j.searchPath) (entries : ∀ name, i.get? name = j.get? name) : i = j := by
  have modules : i.modules = j.modules := NameMap.ext h.ordered h'.ordered entries
  cases i
  cases j
  exact congrArg₂ Index.mk path modules

private theorem searchPath_lookups {s t : State} (run : State.Lookups lib s t) :
    t.index.searchPath = s.index.searchPath := by
  induction run with
  | refl => rfl
  | tail _ step ih =>
    obtain ⟨name, rfl⟩ := step
    exact (searchPath_resolve lib name _).trans ih

end Index

namespace State

variable {s : State} (lib : Library)

private theorem resolve_of_contains {name : String} (present : s.index.contains name) :
    (s.resolve lib name).1.toOption = s.index.load? lib name := by
  obtain ⟨m, found⟩ := Option.isSome_iff_exists.mp present
  have own : s.index.get? (s.index.keyFor name) = some m := by
    rw [Index.keyFor_of_contains present]
    exact found
  rw [resolve_fst, Index.answer_of_get? own, Index.load?_of_get? found]

/-- Indexed names are loaded one after the other, each from its own entry: the lookup of one changes
no other entry. -/
theorem resolveAll_eq {names : List String} (well : s.index.WellFormed) (distinct : names.Nodup)
    (present : ∀ name ∈ names, s.index.contains name) :
    (s.resolveAll lib names).1 =
      (names.countP fun name => (s.index.load? lib name).isSome,
        names.countP fun name => (s.index.load? lib name).isNone) ∧
    ∀ other, (s.resolveAll lib names).2.index.get? other =
      if other ∈ names then s.index.load? lib other else s.index.get? other := by
  induction names generalizing s with
  | nil => exact ⟨rfl, fun other => by simp [resolveAll]⟩
  | cons name rest ih =>
    obtain ⟨fresh, distinct⟩ := List.nodup_cons.mp distinct
    have indexed : s.index.contains name := present name List.mem_cons_self
    have entry (other : String) : (s.resolve lib name).2.index.get? other =
        if other = name then s.index.load? lib other else s.index.get? other := by
      rw [well.get?_resolve, Index.keyFor_of_contains indexed]
      rfl
    have later : Index.Later lib s.index (s.resolve lib name).2.index := well.later_resolve name
    have loads := later.loads
    have remains : ∀ other ∈ rest, (s.resolve lib name).2.index.contains other := by
      intro other member
      have different : other ≠ name := fun same => fresh (same ▸ member)
      have before := present other (List.mem_cons_of_mem name member)
      rw [Index.contains, NameMap.contains, ← Index.get?] at before ⊢
      rw [entry, if_neg different]
      exact before
    obtain ⟨counts, after⟩ := ih (well.resolve name) distinct remains
    simp only [loads] at counts after
    have answer := resolve_of_contains lib indexed
    constructor
    · simp only [resolveAll, counts, List.countP_cons, ← answer]
      cases (s.resolve lib name).1 <;> simp [Except.toOption]
    · intro other
      have last : (s.resolveAll lib (name :: rest)).2 =
          ((s.resolve lib name).2.resolveAll lib rest).2 := by
        simp only [resolveAll]
        split <;> rfl
      rw [last, after, entry]
      by_cases later : other ∈ rest
      · simp [later]
      · by_cases same : other = name <;> simp [later, same]

private theorem preloadNames_eq (well : s.index.WellFormed) {names : List String}
    (order : names.Perm s.index.unloaded) {cancel : Cancellation}
    (calm : cancel.interrupts names.length = false) :
    (s.preloadNames lib cancel names).1 =
      { loaded := s.index.unloaded.countP fun name => (s.index.load? lib name).isSome
        failed := s.index.unloaded.countP fun name => (s.index.load? lib name).isNone
        cancelled := cancel.sees (s.index.unloaded.length + 1)
        events := .begin preloadTask (some s.index.unloaded.length) ::
          List.replicate s.index.unloaded.length (.worked 1) ++
            [.done preloadTask (cancel.sees s.index.unloaded.length)] } ∧
    ∀ name, (s.preloadNames lib cancel names).2.index.get? name = s.index.load? lib name := by
  have distinct : names.Nodup := order.nodup_iff.mpr (Index.nodup_unloaded well)
  have present : ∀ name ∈ names, s.index.contains name := by
    intro name member
    obtain ⟨m, found, -⟩ := (Index.mem_unloaded well).mp (order.mem_iff.mp member)
    exact Option.isSome_of_eq_some found
  obtain ⟨counts, entries⟩ := resolveAll_eq lib well distinct present
  simp only [preloadNames, Cancellation.keep_of_not_interrupts calm, counts, order.countP_eq,
    order.length_eq, List.map_const', entries, order.mem_iff]
  refine ⟨trivial, fun name => ?_⟩
  split
  · rfl
  · rename_i settled
    -- The others make what they are: a loaded module itself, and a missing entry nothing.
    cases found : s.index.get? name with
    | none => rw [Index.load?_of_missing found]
    | some m =>
      have loaded : m.isLoaded := by
        by_contra waits
        exact settled ((Index.mem_unloaded well).mpr ⟨m, found, Bool.not_eq_true _ ▸ waits⟩)
      rw [Index.load?_of_isLoaded found loaded]

end State

namespace Engine

/-- A preload that is not interrupted takes the placeholders in any order and settles each of them. A
placeholder whose file is read and parsed gives way to the module of the file, one whose file is not
leaves the index, and that of a built-in name gives way to the built-in module. Loaded modules stay as
they are, there are no new names, and no placeholder remains. The report counts each placeholder as
loaded or as failed, and as failed just the entries that have gone. Neither the index nor the report
depends on the order. -/
theorem preload_settles_every_entry {e : Engine} (run : Reachable e) (lib : Library)
    {cancel : Cancellation} {names : List String} (order : names.Perm e.state.index.unloaded)
    (calm : cancel.interrupts names.length = false) :
    let i := e.state.index
    let report := (e.state.preloadNames lib cancel names).1
    let after := (e.state.preloadNames lib cancel names).2.index
    (∀ name key file, i.get? name = some (.placeholder key) → key.file = some file →
      (∀ text tree, lib.sources.read file = .ok text → lib.parser text = .ok tree →
        after.get? name = some (.source (.ofTree name (some file) tree))) ∧
      ((∀ text tree, lib.sources.read file = .ok text → lib.parser text ≠ .ok tree) →
        after.get? name = none)) ∧
    (∀ name key, i.get? name = some (.placeholder key) → key.file = none →
      ∃ t, Builtin.ofName? name = some t ∧ after.get? name = some (.builtin t)) ∧
    (∀ name m, i.get? name = some m → m.isLoaded → after.get? name = some m) ∧
    (∀ name, i.get? name = none → after.get? name = none) ∧
    after.searchPath = i.searchPath ∧ after.unloaded = [] ∧
    report.loaded + report.failed = i.unloaded.length ∧
    report.failed = (NameMap.lost i.modules after.modules).length ∧
    ∀ other : List String, other.Perm i.unloaded →
      (e.state.preloadNames lib cancel other).1 = report ∧
      (e.state.preloadNames lib cancel other).2.index = after := by
  intro i report after
  have well : i.WellFormed := run.wellFormed
  obtain ⟨reported, entries⟩ := State.preloadNames_eq lib well order calm
  have lookups : State.Lookups lib e.state (e.state.preloadNames lib cancel names).2 :=
    State.lookups_preloadNames cancel names e.state
  have well' : after.WellFormed := well.lookups lookups
  refine ⟨?_, ?_, ?_, ?_, Index.searchPath_lookups lookups, Index.unloaded_of_loads well' entries,
    ?_, ?_, ?_⟩
  · intro name key file found backed
    rw [entries]
    exact well.load?_of_file found backed
  · intro name key found bare
    rw [entries]
    exact well.load?_of_no_file found bare
  · intro name m found settled
    exact (entries name).trans (Index.load?_of_isLoaded found settled)
  · intro name missing
    exact (entries name).trans (Index.load?_of_missing missing)
  · simp only [report, reported]
    have all := List.length_eq_countP_add_countP (l := i.unloaded)
      fun name => (i.load? lib name).isSome
    simp only [Bool.not_eq_true, Option.isSome_eq_false_iff, Bool.decide_eq_true] at all
    exact all.symm
  · simp only [report, reported]
    exact (Index.length_lost_of_loads well entries).symm
  · intro other order'
    have same_length : other.length = names.length := order'.length_eq.trans order.length_eq.symm
    have calm' : cancel.interrupts other.length = false := same_length ▸ calm
    obtain ⟨reported', entries'⟩ := State.preloadNames_eq lib well order' calm'
    have lookups' : State.Lookups lib e.state (e.state.preloadNames lib cancel other).2 :=
      State.lookups_preloadNames cancel other e.state
    refine ⟨reported'.trans reported.symm, Index.eq_of_get? (well.lookups lookups') well' ?_ ?_⟩
    · exact (Index.searchPath_lookups lookups').trans (Index.searchPath_lookups lookups).symm
    · exact fun name => (entries' name).trans (entries name).symm

theorem preload_settles_every_entry_in_two_orders :
    let disk : Disk :=
      .ofEntries ⟨"/"⟩ [(["a"], .dir), (["a", "x.py"], .file []), (["b"], .dir),
          (["b", "y.py"], .file [])]
    let h : Host := ⟨disk, ⟨"/"⟩, ⟨0, 0⟩⟩
    let lib : Library :=
      ⟨⟨fun file => if file = ⟨"/a/x.py"⟩ then .error ⟨.notFound, "gone"⟩ else .ok "",
        fun _ => true⟩,
        fun _ => .ok []⟩
    let e := ((initial {} ⟨"/"⟩).rebuild "/a:/b" .never h).2.1
    let preloaded := e.state.preloadNames lib .never ["y", "x", "sys", "__builtin__"]
    Reachable e ∧ e.state.index.unloaded = ["__builtin__", "sys", "x", "y"] ∧
      preloaded.1.loaded = 3 ∧ preloaded.1.failed = 1 ∧
      preloaded.2.index.names = ["__builtin__", "sys", "y"] ∧ preloaded.2.index.unloaded = [] ∧
      (e.state.preload lib .never).1 = preloaded.1 ∧
      (e.state.preload lib .never).2.index = preloaded.2.index := by
  intro disk h lib e preloaded
  have home : (⟨"/"⟩ : Path).isAbsolute := by decide
  have run : Reachable e := .rebuild (.initial {} home) "/a:/b" .never home
  have waiting : e.state.index.unloaded = ["__builtin__", "sys", "x", "y"] := by decide +kernel
  have order : ["y", "x", "sys", "__builtin__"].Perm e.state.index.unloaded := by
    rw [waiting]
    decide
  have calm : Cancellation.never.interrupts ["y", "x", "sys", "__builtin__"].length = false := rfl
  obtain ⟨-, -, -, -, -, -, -, -, any_order⟩ := preload_settles_every_entry run lib order calm
  obtain ⟨reported, same⟩ := any_order e.state.index.unloaded (List.Perm.refl _)
  refine ⟨run, waiting, by decide +kernel, by decide +kernel, by decide +kernel, by decide +kernel,
    ?_, ?_⟩
  · rw [State.preload, reported]
  · rw [State.preload, same]

end Engine

end ImportAtlas
