import ImportAtlas.Cache.Frame
import ImportAtlas.Engine
import ImportAtlas.Proofs.Table

/-!
A rebuild makes one placeholder for each name, with the first file of that name, and each file either
makes an entry or is counted as skipped. A rebuild that finds itself cancelled changes nothing.
-/

set_option autoImplicit false

namespace ImportAtlas

/-- The name under which a file is indexed: its own, unless that is empty or reserved. -/
def SearchPath.indexName (s : SearchPath) (file : Path) : Option String :=
  (s.moduleName file).filter fun name => name ≠ "" && !Builtin.isReserved name

theorem SearchPath.indexName_eq_some_iff {s : SearchPath} {file : Path} {name : String} :
    s.indexName file = some name ↔
      s.moduleName file = some name ∧ name ≠ "" ∧ Builtin.isReserved name = false := by
  simp [indexName, Option.filter_eq_some_iff]

namespace Index

private theorem add_cases (s : SearchPath) (found : Found) (file : Path) :
    (s.indexName file = none ∧
      found.add s file =
        { found with skipped := found.skipped + 1, events := found.events ++ [.worked 1] }) ∨
    (∃ name, s.indexName file = some name ∧ NameMap.contains found.modules name ∧
      found.add s file =
        { found with
          skipped := found.skipped + 1
          events := found.events ++ [.worked 1] ++ [.detail ("Found module " ++ name)] }) ∨
    (∃ name, s.indexName file = some name ∧ NameMap.contains found.modules name = false ∧
      found.add s file =
        { found with
          modules := NameMap.put found.modules name (.placeholder ⟨name, some file⟩)
          events := found.events ++ [.worked 1] ++ [.detail ("Found module " ++ name)] }) := by
  unfold Found.add SearchPath.indexName
  cases named : s.moduleName file with
  | none => exact Or.inl ⟨rfl, rfl⟩
  | some name =>
    by_cases refused : (name = "" || Builtin.isReserved name) = true
    · refine Or.inl ⟨?_, by simp only [refused, if_true]⟩
      rw [Option.filter_eq_none_iff]
      intro other equal
      obtain rfl := Option.some.inj equal
      simp only [Bool.or_eq_true, decide_eq_true_eq] at refused
      rcases refused with empty | reserved
      · simp [empty]
      · simp [reserved]
    · have kept : (some name).filter (fun name => name ≠ "" && !Builtin.isReserved name) =
          some name := by
        simp only [Bool.or_eq_true, decide_eq_true_eq, not_or, Bool.not_eq_true] at refused
        simp [Option.filter, refused.1, refused.2]
      rw [kept]
      cases taken : NameMap.contains found.modules name with
      | true =>
        refine Or.inr (Or.inl ⟨name, rfl, taken, ?_⟩)
        simp only [refused, taken, if_true]
        rfl
      | false =>
        refine Or.inr (Or.inr ⟨name, rfl, taken, ?_⟩)
        simp only [refused, taken]
        rfl

private theorem add_modules (s : SearchPath) (found : Found) (file : Path) :
    (found.add s file).modules =
      match s.indexName file with
      | none => found.modules
      | some name => NameMap.putNew found.modules name (.placeholder ⟨name, some file⟩) := by
  rcases add_cases s found file with ⟨named, added⟩ | ⟨name, named, taken, added⟩ |
    ⟨name, named, taken, added⟩
  · rw [added, named]
  · simp only [added, named, NameMap.putNew, taken, if_true]
  · simp only [added, named, NameMap.putNew, taken, Bool.false_eq_true, if_false]

private theorem ordered_add (s : SearchPath) {found : Found}
    (ordered : NameMap.Ordered found.modules) (file : Path) : NameMap.Ordered
    (found.add s file).modules := by
  rcases add_cases s found file with ⟨-, added⟩ | ⟨name, -, -, added⟩ | ⟨name, -, -, added⟩
  · rw [added]
    exact ordered
  · rw [added]
    exact ordered
  · rw [added]
    exact NameMap.ordered_put ordered _ _

private theorem add_conserves (s : SearchPath) {found : Found}
    (ordered : NameMap.Ordered found.modules) (file : Path) :
    (found.add s file).modules.length + (found.add s file).skipped =
        found.modules.length + found.skipped + 1 ∧
      (found.add s file).events.count (.worked 1) = found.events.count (.worked 1) + 1 := by
  rcases add_cases s found file with ⟨-, added⟩ | ⟨name, -, -, added⟩ | ⟨name, -, absent, added⟩
  · rw [added]
    exact ⟨rfl, by simp⟩
  · rw [added]
    exact ⟨rfl, by simp⟩
  · have longer := NameMap.length_put ordered name (.placeholder ⟨name, some file⟩)
    rw [absent, if_neg Bool.false_ne_true] at longer
    rw [added]
    refine ⟨?_, by simp⟩
    simp only [longer]
    omega

theorem ordered_foldl_add (s : SearchPath) (files : List Path) {found : Found}
    (ordered : NameMap.Ordered found.modules) :
    NameMap.Ordered (files.foldl (Found.add s) found).modules := by
  induction files generalizing found with
  | nil => exact ordered
  | cons file files ih => exact ih (ordered_add s ordered file)

/-- A walk through some files finds each name with the first file that has it. -/
theorem get?_foldl_add (s : SearchPath) (files : List Path) (found : Found) (name : String) :
    NameMap.get? (files.foldl (Found.add s) found).modules name =
      (NameMap.get? found.modules name).or
        ((files.find? fun file => s.indexName file = some name).map fun file =>
          .placeholder ⟨name, some file⟩) := by
  induction files generalizing found with
  | nil => simp
  | cons file files ih =>
    rw [List.foldl_cons, ih, add_modules]
    cases named : s.indexName file with
    | none => simp [named]
    | some other =>
      simp only [NameMap.get?_putNew]
      by_cases same : name = other
      · subst same
        cases NameMap.get? found.modules name <;> simp [named]
      · simp [named, same, Ne.symm same]

/-- No file is lost: each makes an entry or is skipped, and each is one unit of work. -/
theorem foldl_add_conserves (s : SearchPath) (files : List Path) {found : Found}
    (ordered : NameMap.Ordered found.modules) :
    (files.foldl (Found.add s) found).modules.length +
        (files.foldl (Found.add s) found).skipped =
        found.modules.length + found.skipped + files.length ∧
      (files.foldl (Found.add s) found).events.count (.worked 1) =
        found.events.count (.worked 1) + files.length := by
  induction files generalizing found with
  | nil => simp
  | cons file files ih =>
    obtain ⟨entries, units⟩ := add_conserves s ordered file
    obtain ⟨entries_rest, units_rest⟩ := ih (ordered_add s ordered file)
    rw [List.foldl_cons, List.length_cons]
    exact ⟨by omega, by omega⟩

theorem get?_withBuiltins (modules : NameMap Module) (name : String) :
    NameMap.get? (withBuiltins modules) name =
      if Builtin.isReserved name then some (.placeholder ⟨name, none⟩)
      else NameMap.get? modules name := by
  simp only [withBuiltins, Builtin.names, List.foldl_cons, List.foldl_nil, NameMap.get?_put,
    Builtin.isReserved, List.contains_eq_mem, List.mem_cons, List.not_mem_nil, or_false]
  by_cases system : name = Builtin.systemName
  · simp [system]
  · by_cases ambient : name = Builtin.ambientName
    · have different : Builtin.ambientName ≠ Builtin.systemName := by decide
      simp [ambient, different]
    · simp [system, ambient]

theorem ordered_withBuiltins {modules : NameMap Module} (ordered : NameMap.Ordered modules) :
    NameMap.Ordered (withBuiltins modules) :=
  NameMap.ordered_put (NameMap.ordered_put ordered _ _) _ _

private theorem length_withBuiltins {modules : NameMap Module} (ordered : NameMap.Ordered modules)
    (free : ∀ name, Builtin.isReserved name → NameMap.get? modules name = none) :
    (withBuiltins modules).length = modules.length + 2 := by
  have ambient : NameMap.contains modules Builtin.ambientName = false := by
    simp [NameMap.contains, free Builtin.ambientName (by decide)]
  have system : NameMap.contains (NameMap.put modules Builtin.ambientName
      (.placeholder ⟨Builtin.ambientName, none⟩)) Builtin.systemName = false := by
    have different : Builtin.systemName ≠ Builtin.ambientName := by decide
    simp [NameMap.contains, NameMap.get?_put, different, free Builtin.systemName (by decide)]
  simp only [withBuiltins, Builtin.names, List.foldl_cons, List.foldl_nil]
  rw [NameMap.length_put (NameMap.ordered_put ordered _ _), system, if_neg Bool.false_ne_true,
    NameMap.length_put ordered, ambient, if_neg Bool.false_ne_true]

def rebuilt (s : SearchPath) (files : List Path) (name : String) : Option Module :=
  if Builtin.isReserved name then some (.placeholder ⟨name, none⟩)
  else if name = "" then none
  else (files.find? fun file => s.moduleName file = some name).map fun file =>
    .placeholder ⟨name, some file⟩

theorem get?_withBuiltins_foldl_add (s : SearchPath) (files : List Path) (name : String) :
    NameMap.get? (withBuiltins (files.foldl (Found.add s) {}).modules) name =
      rebuilt s files name := by
  rw [get?_withBuiltins, get?_foldl_add, rebuilt]
  split
  · rfl
  · rename_i free
    rw [Bool.not_eq_true] at free
    by_cases empty : name = ""
    · have none_found : (files.find? fun file => s.indexName file = some name) = none := by
        simp [SearchPath.indexName_eq_some_iff, empty]
      rw [if_pos empty, none_found]
      rfl
    · simp [SearchPath.indexName_eq_some_iff, empty, free]

end Index

private theorem Cancellation.interrupts_iff {c : Cancellation} {n : Nat} :
    c.interrupts n = true ↔ ∃ k < n, c.sees k = true := by
  unfold interrupts sees
  cases c.at? with
  | none => simp
  | some first =>
    simp only [Option.any_some, decide_eq_true_eq]
    exact ⟨fun early => ⟨first, early, Nat.le_refl _⟩, fun ⟨k, below, seen⟩ => by omega⟩

theorem Cancellation.interrupts_eq_false {c : Cancellation} {n : Nat}
    (h : ∀ k < n, c.sees k = false) : c.interrupts n = false := by
  rw [Bool.eq_false_iff, ne_eq, interrupts_iff]
  rintro ⟨k, below, seen⟩
  rw [h k below] at seen
  exact Bool.false_ne_true seen

theorem Cancellation.keep_of_not_interrupts {α : Type} {c : Cancellation} {units : List α}
    (h : c.interrupts units.length = false) : c.keep units = units := by
  unfold keep
  unfold interrupts at h
  cases first : c.at? with
  | none => rfl
  | some k =>
    rw [first] at h
    simp only [Option.any_some, decide_eq_false_iff_not] at h
    exact List.take_of_length_le (by omega)

namespace Index

theorem rebuild_of_interrupts (old : Index) (s : SearchPath) (files : List Path)
    {cancel : Cancellation} (h : cancel.interrupts files.length) :
    (old.rebuild s files cancel).1.cancelled = true ∧ (old.rebuild s files cancel).2 = old := by
  unfold rebuild
  rw [if_pos h]
  exact ⟨rfl, rfl⟩

theorem not_interrupts_of_rebuild {old : Index} {s : SearchPath} {files : List Path}
    {cancel : Cancellation} (finished : (old.rebuild s files cancel).1.cancelled = false) :
    cancel.interrupts files.length = false := by
  rw [Bool.eq_false_iff]
  intro interrupted
  rw [(rebuild_of_interrupts old s files interrupted).1] at finished
  exact Bool.false_ne_true finished.symm

theorem rebuild_of_not_interrupts (old : Index) (s : SearchPath) (files : List Path)
    {cancel : Cancellation} (h : cancel.interrupts files.length = false) :
    let found := files.foldl (Found.add s) {}
    old.rebuild s files cancel =
      (⟨(withBuiltins found.modules).length, found.skipped, false,
          .begin rebuildTask none :: found.events ++
            [.done rebuildTask (cancel.sees files.length)]⟩,
        ⟨s, withBuiltins found.modules⟩) := by
  unfold rebuild
  rw [h, Cancellation.keep_of_not_interrupts h]
  rfl

private theorem rebuild_conserves (old : Index) (s : SearchPath) (files : List Path)
    {cancel : Cancellation} (h : cancel.interrupts files.length = false) :
    (old.rebuild s files cancel).1.modules + (old.rebuild s files cancel).1.skipped =
        files.length + 2 ∧
      2 ≤ (old.rebuild s files cancel).1.modules ∧
      (old.rebuild s files cancel).1.events.count (.worked 1) = files.length := by
  obtain ⟨conserved, units⟩ := @foldl_add_conserves s files {} NameMap.ordered_nil
  have ordered := @ordered_foldl_add s files {} NameMap.ordered_nil
  have free : ∀ name, Builtin.isReserved name →
      NameMap.get? (files.foldl (Found.add s) {}).modules name = none := by
    intro name reserved
    rw [get?_foldl_add]
    simp [SearchPath.indexName_eq_some_iff, reserved]
  have size := length_withBuiltins ordered free
  have empty : ({} : Found).modules.length = 0 ∧ ({} : Found).skipped = 0 ∧
      ({} : Found).events.count (.worked 1) = 0 := ⟨rfl, rfl, rfl⟩
  rw [rebuild_of_not_interrupts old s files h]
  simp only [size, List.cons_append, List.count_append, List.count_cons, List.count_nil]
  refine ⟨by omega, by omega, ?_⟩
  rw [units, empty.2.2]
  simp

theorem rebuild_index (old : Index) (s : SearchPath) (files : List Path)
    {cancel : Cancellation} (h : cancel.interrupts files.length = false) :
    (old.rebuild s files cancel).1.cancelled = false ∧
      (old.rebuild s files cancel).1.modules = (old.rebuild s files cancel).2.size ∧
      (old.rebuild s files cancel).2.searchPath = s ∧
      NameMap.Ordered (old.rebuild s files cancel).2.modules ∧
      ∀ name, (old.rebuild s files cancel).2.get? name = rebuilt s files name := by
  rw [rebuild_of_not_interrupts old s files h]
  exact ⟨rfl, rfl, rfl, ordered_withBuiltins (ordered_foldl_add s files NameMap.ordered_nil),
    get?_withBuiltins_foldl_add s files⟩

private theorem rebuild_nil (old : Index) (s : SearchPath) (cancel : Cancellation) :
    old.rebuild s [] cancel =
      (⟨2, 0, false, [.begin rebuildTask none, .done rebuildTask (cancel.sees 0)]⟩,
        ⟨s, withBuiltins []⟩) := by
  rw [rebuild_of_not_interrupts old s [] (Cancellation.interrupts_eq_false (by simp))]
  rfl

private theorem rebuild_beforehand (old : Index) (s : SearchPath) {files : List Path}
    (some_file : files ≠ []) :
    old.rebuild s files .beforehand =
      (⟨0, 0, true, [.begin rebuildTask none, .done rebuildTask true]⟩, old) := by
  have asked : Cancellation.beforehand.interrupts files.length = true :=
    decide_eq_true (List.length_pos_iff.mpr some_file)
  rw [rebuild, if_pos asked]
  rfl

end Index

namespace Engine

/-- A rebuild none of whose questions before a file finds it cancelled replaces the index by the
reserved names and the first file of each other name, and accounts for every file. A rebuild that
finds itself cancelled keeps the index with its search path. Neither reads or parses a file. -/
theorem rebuild_replaces_or_keeps (e : Engine) (text : String) (cancel : Cancellation) (h : Host) :
    let s := SearchPath.parse h.disk.cwd text
    let files := h.disk.sourceFiles s.roots
    let report := (e.rebuild text cancel h).1
    let after := (e.rebuild text cancel h).2.1
    after.state.accesses = e.state.accesses ∧
    ((∃ k < files.length, cancel.sees k = true) →
      report.cancelled = true ∧ after.state.index = e.state.index) ∧
    ((∀ k < files.length, cancel.sees k = false) →
      report.cancelled = false ∧
      after.state.index.searchPath = s ∧
      NameMap.Ordered after.state.index.modules ∧
      (∀ name, after.state.index.get? name = Index.rebuilt s files name) ∧
      report.modules = after.state.index.size ∧
      2 ≤ report.modules ∧
      report.modules - 2 + report.skipped = files.length ∧
      report.events.count (.worked 1) = files.length) := by
  intro s files report after
  refine ⟨rfl, ?_, ?_⟩
  · intro seen
    exact Index.rebuild_of_interrupts e.state.index s files (Cancellation.interrupts_iff.mpr seen)
  · intro unseen
    have uninterrupted := Cancellation.interrupts_eq_false unseen
    obtain ⟨finished, size, path, ordered, entries⟩ :=
      Index.rebuild_index e.state.index s files uninterrupted
    obtain ⟨conserved, two, units⟩ :=
      Index.rebuild_conserves e.state.index s files uninterrupted
    refine ⟨finished, path, ordered, entries, size, two, ?_, units⟩
    have total : report.modules + report.skipped = files.length + 2 := conserved
    have both : 2 ≤ report.modules := two
    show report.modules - 2 + report.skipped = files.length
    omega

private theorem rebuild_of_index {e : Engine} {text : String} {cancel : Cancellation} {h : Host}
    {report : RebuildReport} {index : Index}
    (rebuilt : e.state.index.rebuild (SearchPath.parse h.disk.cwd text)
      (h.disk.sourceFiles (SearchPath.parse h.disk.cwd text).roots) cancel = (report, index)) :
    e.rebuild text cancel h =
      (report, e.withIndex index,
        if report.cancelled || !e.config.persist then h else (e.withIndex index).store h) := by
  rw [rebuild, rebuilt]
  rfl

/-- A cancellation that comes before the rebuild is only noticed at the first file. If there is one,
nothing is published: the report has no modules, and the engine and the host are as they were. If there
is none, the rebuild ends as one that nobody cancelled: the index is the empty one of the new search
path, and it is stored like any other. -/
theorem rebuild_cancelled_beforehand (e : Engine) (text : String) (h : Host) :
    let s := SearchPath.parse h.disk.cwd text
    let files := h.disk.sourceFiles s.roots
    let emptied := e.withIndex ⟨s, Index.withBuiltins []⟩
    ((e.rebuild text .beforehand h).1.cancelled = true ↔ files ≠ []) ∧
    (files ≠ [] →
      e.rebuild text .beforehand h =
        (⟨0, 0, true, [.begin Index.rebuildTask none, .done Index.rebuildTask true]⟩, e, h)) ∧
    (files = [] →
      e.rebuild text .beforehand h =
        (⟨2, 0, false, [.begin Index.rebuildTask none, .done Index.rebuildTask true]⟩, emptied,
          if e.config.persist then emptied.store h else h)) := by
  intro s files emptied
  have kept (some_file : files ≠ []) : e.rebuild text .beforehand h =
      (⟨0, 0, true, [.begin Index.rebuildTask none, .done Index.rebuildTask true]⟩, e, h) := by
    rw [rebuild_of_index (Index.rebuild_beforehand e.state.index s some_file)]
    rfl
  have published (no_file : files = []) : e.rebuild text .beforehand h =
      (⟨2, 0, false, [.begin Index.rebuildTask none, .done Index.rebuildTask true]⟩, emptied,
        if e.config.persist then emptied.store h else h) := by
    have finished : e.state.index.rebuild s files .beforehand =
        (⟨2, 0, false, [.begin Index.rebuildTask none, .done Index.rebuildTask true]⟩,
          ⟨s, Index.withBuiltins []⟩) := by
      rw [no_file, Index.rebuild_nil]
      rfl
    rw [rebuild_of_index finished]
    cases e.config.persist <;> rfl
  refine ⟨⟨fun cancelled no_file => ?_, fun some_file => ?_⟩, kept, published⟩
  · rw [published no_file] at cancelled
    exact Bool.false_ne_true cancelled
  · rw [kept some_file]

/-- A rebuild that is cancelled before it begins, for a root that does not exist: the indexed module
`x` is gone with its search path, and keys are stored for the new one. -/
theorem cancelled_rebuild_publishes_empty_index :
    let disk : Disk :=
      .ofEntries ⟨"/"⟩ [(["a"], .dir), (["a", "x.py"], .file [])]
    let h : Host := ⟨disk, ⟨"/c"⟩, ⟨0, 0⟩⟩
    let e := ((initial {} ⟨"/"⟩).rebuild "/a" .never h).2.1
    let (report, after, host) := e.rebuild "/b" .beforehand h
    e.state.index.names = ["__builtin__", "sys", "x"] ∧
      report.cancelled = false ∧ after.state.index.names = ["__builtin__", "sys"] ∧
      e.state.index.searchPath.roots = [⟨"/a"⟩] ∧ after.state.index.searchPath.roots = [⟨"/b"⟩] ∧
      h.disk.isFile (Cache.metadataFile (e.cacheDir h) [⟨"/b"⟩]) = false ∧
      host.disk.isFile (Cache.metadataFile (e.cacheDir h) [⟨"/b"⟩]) = true := by
  decide +kernel

end Engine

end ImportAtlas
