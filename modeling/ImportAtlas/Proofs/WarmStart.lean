import ImportAtlas.Command
import ImportAtlas.Proofs.Accesses
import ImportAtlas.Proofs.Reachable
import ImportAtlas.Proofs.Storing

/-!
An index that is made from stored keys is the one whose keys they are, so that a run which finds
stored keys answers like the one that has stored them.
-/

set_option autoImplicit false

namespace ImportAtlas

/-- Whether a key makes an entry: its name is that of its file. -/
def SearchPath.admits (s : SearchPath) (key : ModuleKey) : Bool :=
  match key.file with
  | none => false
  | some file => !Builtin.isReserved key.name && s.moduleName file = some key.name

namespace Index

private theorem addKey_eq (s : SearchPath) (modules : NameMap Module) (key : ModuleKey) :
    addKey s modules key =
      if s.admits key then NameMap.putNew modules key.name (.placeholder key) else modules := by
  unfold addKey SearchPath.admits
  cases key.file with
  | none => rfl
  | some file =>
    cases Builtin.isReserved key.name with
    | true => simp
    | false =>
      by_cases named : s.moduleName file = some key.name
      · simp [named]
      · simp [named]

theorem ordered_foldl_addKey (s : SearchPath) (keys : List ModuleKey) {modules : NameMap Module}
    (ordered : NameMap.Ordered modules) : NameMap.Ordered (keys.foldl (addKey s) modules) := by
  induction keys generalizing modules with
  | nil => exact ordered
  | cons key keys ih =>
    refine ih ?_
    rcases addKey_cases s modules key with same | ⟨file, -, -, -, added⟩
    · rw [same]
      exact ordered
    · rw [added]
      exact NameMap.ordered_put ordered _ _

theorem get?_foldl_addKey (s : SearchPath) (keys : List ModuleKey) (modules : NameMap Module)
    (name : String) :
    NameMap.get? (keys.foldl (addKey s) modules) name =
      (NameMap.get? modules name).or
        ((keys.find? fun key => key.name = name && s.admits key).map .placeholder) := by
  induction keys generalizing modules with
  | nil => simp
  | cons key keys ih =>
    rw [List.foldl_cons, ih, addKey_eq]
    by_cases admitted : s.admits key
    · rw [if_pos admitted, NameMap.get?_putNew]
      by_cases same : name = key.name
      · subst same
        cases NameMap.get? modules key.name <;> simp [admitted]
      · simp [same, Ne.symm same]
    · simp [admitted]

private theorem rebuilt_eq_some {s : SearchPath} {files : List Path} {name : String} {m : Module}
    (h : rebuilt s files name = some m) :
    ∃ file, m = .placeholder ⟨name, file⟩ ∧
      (Builtin.isReserved name = false → s.admits ⟨name, file⟩) := by
  unfold rebuilt at h
  split at h
  · rename_i reserved
    obtain rfl := Option.some.inj h
    exact ⟨none, rfl, fun free => absurd (reserved.symm.trans free) (by simp)⟩
  · split at h
    · exact absurd h (by simp)
    · obtain ⟨file, found, rfl⟩ := Option.map_eq_some_iff.mp h
      have named := List.find?_some found
      refine ⟨some file, rfl, fun free => ?_⟩
      simp only [SearchPath.admits, free, Bool.not_false, Bool.true_and]
      exact named

section Rebuilt

variable {i : Index} {files : List Path}

private theorem mem_keys_iff (ordered : NameMap.Ordered i.modules)
    (entries : ∀ name, i.get? name = rebuilt i.searchPath files name) {key : ModuleKey} :
    key ∈ i.keys ↔ i.get? key.name = some (.placeholder key) := by
  have listed : key ∈ i.keys ↔ ∃ entry ∈ i.modules, entry.2.key = key := by
    unfold keys ModuleKey.sort
    rw [List.mem_mergeSort, List.mem_map]
  rw [listed]
  constructor
  · rintro ⟨⟨name, m⟩, member, rfl⟩
    have found : i.get? name = some m := NameMap.get?_of_mem ordered member
    obtain ⟨file, rfl, -⟩ := rebuilt_eq_some ((entries name).symm.trans found)
    exact found
  · intro found
    exact ⟨_, NameMap.mem_of_get? found, rfl⟩

private theorem find?_keys (ordered : NameMap.Ordered i.modules)
    (entries : ∀ name, i.get? name = rebuilt i.searchPath files name) {name : String}
    (free : Builtin.isReserved name = false) :
    (i.keys.find? fun key => key.name = name && i.searchPath.admits key).map .placeholder =
      i.get? name := by
  have only : ∀ key ∈ i.keys, key.name = name → i.get? name = some (.placeholder key) := by
    rintro key member rfl
    exact (mem_keys_iff ordered entries).mp member
  cases first : i.keys.find? fun key => key.name = name && i.searchPath.admits key with
  | some key =>
    have agrees := List.find?_some first
    simp only [Bool.and_eq_true, decide_eq_true_eq] at agrees
    exact (only key (List.mem_of_find?_eq_some first) agrees.1).symm
  | none =>
    cases found : i.get? name with
    | none => rfl
    | some m =>
      -- The key of the entry would have been chosen.
      obtain ⟨file, rfl, admitted⟩ := rebuilt_eq_some ((entries name).symm.trans found)
      have member : (⟨name, file⟩ : ModuleKey) ∈ i.keys := (mem_keys_iff ordered entries).mpr found
      have passed := List.find?_eq_none.mp first _ member
      exact absurd passed (by simp [admitted free])

/-- The index that the keys of a rebuilt index make is the rebuilt index. -/
theorem ofKeys_keys (ordered : NameMap.Ordered i.modules)
    (entries : ∀ name, i.get? name = rebuilt i.searchPath files name) :
    ofKeys i.searchPath i.keys = i := by
  have same : (ofKeys i.searchPath i.keys).modules = i.modules := by
    refine NameMap.ext (ordered_withBuiltins (ordered_foldl_addKey _ _ NameMap.ordered_nil)) ordered ?_
    intro name
    show NameMap.get? (withBuiltins _) name = i.get? name
    rw [get?_withBuiltins, get?_foldl_addKey, NameMap.get?_nil, Option.none_or]
    split
    · rename_i reserved
      rw [entries, rebuilt, if_pos reserved]
    · rename_i free
      exact find?_keys ordered entries (Bool.eq_false_iff.mpr free)
  exact congrArg (Index.mk i.searchPath) same

end Rebuilt

end Index

namespace Command

private theorem completeIn_following (disk : Disk) (file : Path) (activation : String)
    (earlier : List Access) (s : State) :
    completeIn disk file activation (s.following earlier) =
      completeIn disk file activation s := by
  unfold completeIn
  cases disk.readStrict? file with
  | none => rfl
  | some text =>
    simp only [State.moduleOfBuffer_following]
    rcases s.moduleOfBuffer disk.library (some file) text with ⟨cause | m, t⟩
    · rfl
    · simp only [Prod.map, id, Completion.atCursor_following]

private theorem Query.answer_following (disk : Disk) (q : Query) (earlier : List Access)
    (s : State) :
    q.answer disk (s.following earlier) = q.answer disk s := by
  cases q with
  | modules => rfl
  | imports typed =>
    simp only [answer, Completion.inImport_following, Prod.map_fst, id]
  | complete file activation =>
    simp only [answer, completeIn_following]

private theorem Query.answer_eq {s t : State} (same : s.index = t.index) (disk : Disk) (q : Query) :
    q.answer disk s = q.answer disk t := by
  rw [← s.following_index, ← t.following_index, answer_following, answer_following, same]

end Command

namespace Engine

/-- Whether a rebuild runs to its end and stores its keys, with nothing in the way of the two files.
All that is stored has room in the form in which it is stored. -/
structure Stores (e : Engine) (text : String) (cancel : Cancellation) (h : Host) : Prop where
  persists : e.config.persist
  finished : (e.rebuild text cancel h).1.cancelled = false
  clear : Cache.Unobstructed
    (Cache.directory (e.cacheDir h) (SearchPath.parse h.disk.cwd text).roots) h.disk
  saved : ∃ dir, ((e.rebuild text cancel h).2.1.saveKeys h).1 = .ok dir
  dated : h.time.Valid
  few : (e.rebuild text cancel h).2.1.state.index.keys.length < UInt64.size
  fits : ∀ key ∈ (e.rebuild text cancel h).2.1.state.index.keys, KeyCodec.Fits key

private theorem index_withIndex (e : Engine) (i : Index) : (e.withIndex i).state.index = i := rfl

private theorem disk_store (e : Engine) (h : Host) : (e.store h).disk = (e.saveKeys h).2 := by
  simp only [store]

private theorem saveKeys_eq (e : Engine) (h : Host) :
    e.saveKeys h =
      letI := h.compression
      Cache.save (e.cacheDir h) h.time e.state.index.searchPath.roots e.state.index.keys h.disk :=
  rfl

private theorem cwd_saveKeys (e : Engine) (h : Host) : (e.saveKeys h).2.cwd = h.disk.cwd := by
  rw [saveKeys_eq, @Cache.cwd_save h.compression]

private theorem storedKeys_eq {e e' : Engine} {text text' : String} {h h' : Host}
    (library : h'.compression = h.compression) (home : e'.cacheDir h' = e.cacheDir h)
    (roots : (SearchPath.parse h'.disk.cwd text').roots =
      (SearchPath.parse h.disk.cwd text).roots) :
    e'.storedKeys text' h' =
      letI := h.compression
      Cache.load (e.cacheDir h) (SearchPath.parse h.disk.cwd text).roots h'.disk := by
  unfold storedKeys
  rw [library, home, roots]

section Stores

variable {e : Engine} {text : String} {cancel : Cancellation} {h : Host}

private theorem index_rebuild :
    (e.rebuild text cancel h).2.1.state.index =
      (e.state.index.rebuild (SearchPath.parse h.disk.cwd text)
        (h.disk.sourceFiles (SearchPath.parse h.disk.cwd text).roots) cancel).2 := rfl

private theorem disk_rebuild (persists : e.config.persist)
    (finished : (e.rebuild text cancel h).1.cancelled = false) :
    (e.rebuild text cancel h).2.2.disk = ((e.rebuild text cancel h).2.1.saveKeys h).2 := by
  have stores : ((e.rebuild text cancel h).1.cancelled || !e.config.persist) = false := by
    rw [finished, persists]
    rfl
  have stored : (e.rebuild text cancel h).2.2 = (e.rebuild text cancel h).2.1.store h :=
    if_neg (ne_true_of_eq_false stores)
  rw [stored, disk_store]

/-- What a rebuild has stored is restored by every engine with the same cache and the same roots. -/
theorem Stores.restoreStored_eq (stores : e.Stores text cancel h) {e' : Engine} {text' : String}
    {h' : Host} (library : h'.compression = h.compression)
    (unchanged : h'.disk = (e.rebuild text cancel h).2.2.disk)
    (home : e'.cacheDir h' = e.cacheDir h)
    (roots : (SearchPath.parse h'.disk.cwd text').roots =
      (SearchPath.parse h.disk.cwd text).roots) :
    e'.restoreStored text' h' =
      .ok ((e.rebuild text cancel h).1.modules,
        e'.withIndex (e.rebuild text cancel h).2.1.state.index) := by
  obtain ⟨-, size, path, ordered, entries⟩ := Index.rebuild_index e.state.index
    (SearchPath.parse h.disk.cwd text) (h.disk.sourceFiles (SearchPath.parse h.disk.cwd text).roots)
    (Index.not_interrupts_of_rebuild stores.finished)
  rw [← index_rebuild] at size path ordered entries
  -- The keys are on the disk, under the roots that are asked for.
  have disk := disk_rebuild stores.persists stores.finished
  rw [← unchanged] at disk
  have cwd : h'.disk.cwd = h.disk.cwd := by
    rw [disk]
    exact cwd_saveKeys _ _
  have same : SearchPath.parse h'.disk.cwd text' = SearchPath.parse h.disk.cwd text := by
    rw [cwd] at roots ⊢
    exact congrArg (SearchPath.mk h.disk.cwd) roots
  obtain ⟨dir, saved⟩ := stores.saved
  rw [saveKeys_eq, path] at disk saved
  have loaded := @Cache.load_of_save h.compression _ _ _ _ _ _ _ stores.clear
    (Prod.ext saved disk.symm) stores.dated stores.few stores.fits
  -- Nothing else than the roots and the keys goes into the index.
  have again : Index.ofKeys (SearchPath.parse h.disk.cwd text)
      (e.rebuild text cancel h).2.1.state.index.keys =
        (e.rebuild text cancel h).2.1.state.index := by
    rw [← path]
    exact Index.ofKeys_keys ordered (path ▸ entries)
  have found : e'.storedKeys text' h' = .ok (e.rebuild text cancel h).2.1.state.index.keys :=
    (storedKeys_eq library home (congrArg SearchPath.roots same)).trans loaded
  simp only [Engine.restoreStored, found, same, Except.map, restore, again, ← size]
  rfl

private theorem Stores.placeholders (stores : e.Stores text cancel h) {name : String} {m : Module}
    (found : (e.rebuild text cancel h).2.1.state.index.get? name = some m) :
    m.isLoaded = false := by
  obtain ⟨-, -, -, -, entries⟩ := Index.rebuild_index e.state.index
    (SearchPath.parse h.disk.cwd text) (h.disk.sourceFiles (SearchPath.parse h.disk.cwd text).roots)
    (Index.not_interrupts_of_rebuild stores.finished)
  rw [← index_rebuild] at entries
  obtain ⟨file, rfl, -⟩ := Index.rebuilt_eq_some ((entries name).symm.trans found)
  rfl

theorem prepare_of_ok {size : Nat} {warm : Engine}
    (found : e.restoreStored text h = .ok (size, warm)) : e.prepare text h = (warm, h) := by
  unfold prepare
  rw [found]

theorem prepare_of_error {cause : CacheFailure} (failed : e.restoreStored text h = .error cause) :
    e.prepare text h = (e.rebuild text .never h).2 := by
  unfold prepare
  rw [failed]

theorem run_query {config : Config} {q : Command.Query} {h : Host} {prepared : Engine × Host}
    (prepares : (initial config h.disk.cwd).prepare config.searchPath h = prepared) :
    (Command.Request.query q).run config h =
      (q.answer prepared.2.disk prepared.1.state, prepared.2) := by
  unfold Command.Request.run
  rw [prepares]

private theorem run_query_again {config : Config} {q : Command.Query} {h h' : Host}
    (stores : (initial config h.disk.cwd).Stores config.searchPath .never h)
    (library : h'.compression = h.compression)
    (unchanged : h'.disk = ((Command.Request.query q).run config h).2.disk)
    (home : h'.cacheHome = h.cacheHome) :
    ((Command.Request.query q).run config h').1 = ((Command.Request.query q).run config h).1 := by
  have caches (cwd cwd' : Path) :
      (initial config cwd').cacheDir h' = (initial config cwd).cacheDir h := by
    unfold cacheDir Host.cacheDir
    rw [home]
    rfl
  cases found : (initial config h.disk.cwd).restoreStored config.searchPath h with
  | ok done =>
    -- The first run has found stored keys already, and has left them as they are.
    obtain ⟨size, warm⟩ := done
    have first := run_query (prepare_of_ok found) (q := q)
    rw [first] at unchanged ⊢
    have again : (initial config h'.disk.cwd).restoreStored config.searchPath h' =
        .ok (size, warm) := by
      have roots : (SearchPath.parse h'.disk.cwd config.searchPath).roots =
          (SearchPath.parse h.disk.cwd config.searchPath).roots := by rw [unchanged]
      rw [← found]
      simp only [Engine.restoreStored, storedKeys_eq library (caches h.disk.cwd h'.disk.cwd) roots]
      rw [unchanged]
      rfl
    rw [run_query (prepare_of_ok again), unchanged]
  | error cause =>
    have first := run_query (prepare_of_error found) (q := q)
    rw [first] at unchanged ⊢
    have cwd : h'.disk.cwd = h.disk.cwd := by
      rw [unchanged, disk_rebuild stores.persists stores.finished]
      exact cwd_saveKeys _ _
    have again := stores.restoreStored_eq library unchanged (caches h.disk.cwd h'.disk.cwd)
      (by rw [cwd])
    rw [run_query (prepare_of_ok again), unchanged]
    exact Command.Query.answer_eq (index_withIndex _ _) _ q

end Stores

/-- A rebuild that stores its keys can be replaced by a restore: every engine with the same cache
and roots finds on the disk as it was left the index that the rebuild has made, and answers all
questions alike from then on. So a query on the command line prints the same when it is run again.
This is so with every lossless compression that both use. -/
theorem warm_start_agrees_with_cold_start :
    (∀ (e e' : Engine) (text text' : String) (cancel : Cancellation) (h h' : Host),
      let report := (e.rebuild text cancel h).1
      let cold := (e.rebuild text cancel h).2.1
      e.Stores text cancel h → h'.compression = h.compression →
      h'.disk = (e.rebuild text cancel h).2.2.disk → e'.cacheDir h' = e.cacheDir h →
      (SearchPath.parse h'.disk.cwd text').roots = (SearchPath.parse h.disk.cwd text).roots →
      ∃ warm, e'.restoreStored text' h' = .ok (report.modules, warm) ∧
        warm.state.index = cold.state.index ∧
        (∀ name m, warm.state.index.get? name = some m → m.isLoaded = false) ∧
        ∀ lib questions, warm.state.answers lib questions = cold.state.answers lib questions) ∧
    (∀ (config : Config) (q : Command.Query) (h h' : Host),
      (initial config h.disk.cwd).Stores config.searchPath .never h →
      h'.compression = h.compression →
      h'.disk = ((Command.Request.query q).run config h).2.disk → h'.cacheHome = h.cacheHome →
      ((Command.Request.query q).run config h').1 =
        ((Command.Request.query q).run config h).1) := by
  constructor
  · intro e e' text text' cancel h h' report cold stores library unchanged home roots
    refine ⟨e'.withIndex cold.state.index,
      stores.restoreStored_eq library unchanged home roots, rfl, ?_, ?_⟩
    · intro name m found
      exact stores.placeholders found
    · intro lib questions
      exact State.answers_eq (index_withIndex _ _) lib questions
  · intro config q h h' stores library unchanged home
    exact run_query_again stores library unchanged home

theorem warm_start_agrees_with_cold_start_for_one_file :
    let h : Host :=
      ⟨.ofEntries ⟨"/"⟩ [(["a"], .dir), (["a", "x.py"], .file [])], ⟨"/"⟩, ⟨0, 0⟩⟩
    let config : Config := { searchPath := "/a", cacheDir := some ⟨"/c"⟩ }
    let e := initial config ⟨"/"⟩
    e.Stores "/a" .never h ∧
      (∃ warm, e.restoreStored "/a/:/a" { h with disk := (e.rebuild "/a" .never h).2.2.disk } =
          .ok (3, warm) ∧
        warm.state.index = (e.rebuild "/a" .never h).2.1.state.index ∧
        ∀ lib questions, warm.state.answers lib questions =
          (e.rebuild "/a" .never h).2.1.state.answers lib questions) ∧
      ((Command.Request.query .modules).run config
          { h with disk := ((Command.Request.query .modules).run config h).2.disk }).1 =
        ((Command.Request.query .modules).run config h).1 := by
  intro h config e
  have home : (⟨"/"⟩ : Path).isAbsolute := by decide
  have formed : (e.rebuild "/a" .never h).2.1.state.index.WellFormed :=
    wellFormed_rebuild (Index.wellFormed_initial home) "/a" .never home
  have keys : (e.rebuild "/a" .never h).2.1.state.index.keys =
      [⟨"__builtin__", none⟩, ⟨"sys", none⟩, ⟨"x", some ⟨"/a/x.py"⟩⟩] := by
    rw [formed.keys_eq]
    decide +kernel
  have place : Cache.directory (e.cacheDir h) (SearchPath.parse h.disk.cwd "/a").roots =
      ⟨"/c/v1/searchpath-7ebc9faa4490d0b0"⟩ := by decide +kernel
  have saved : (Cache.save (e.cacheDir h) h.time (SearchPath.parse h.disk.cwd "/a").roots
      (e.rebuild "/a" .never h).2.1.state.index.keys h.disk).1 =
        .ok ⟨"/c/v1/searchpath-7ebc9faa4490d0b0"⟩ := by
    rw [Cache.save, Cache.saveSteps, Cache.placeSteps_modules, Cache.placeSteps_metadata, place, keys]
    decide +kernel
  have clear : Cache.Unobstructed
      (Cache.directory (e.cacheDir h) (SearchPath.parse h.disk.cwd "/a").roots) h.disk := by
    rw [place]
    decide +kernel
  have fits : ∀ key ∈ (e.rebuild "/a" .never h).2.1.state.index.keys, KeyCodec.Fits key := by
    rw [keys]
    decide +kernel
  have few : (e.rebuild "/a" .never h).2.1.state.index.keys.length < UInt64.size := by
    rw [keys]
    decide
  have stores : e.Stores "/a" .never h :=
    ⟨rfl, by decide +kernel, clear, ⟨_, saved⟩, ⟨by decide, by decide⟩, few, fits⟩
  have cwd : (e.rebuild "/a" .never h).2.2.disk.cwd = ⟨"/"⟩ := by
    rw [disk_rebuild rfl stores.finished, cwd_saveKeys]
    exact Disk.cwd_ofEntries _ _
  have three : (e.rebuild "/a" .never h).1.modules = 3 := by decide +kernel
  obtain ⟨restores, again⟩ := warm_start_agrees_with_cold_start
  have restored : ∀ left, left = (e.rebuild "/a" .never h).2.2.disk →
      ∃ warm, e.restoreStored "/a/:/a" { h with disk := left } = .ok (3, warm) ∧
        warm.state.index = (e.rebuild "/a" .never h).2.1.state.index ∧
        ∀ lib questions, warm.state.answers lib questions =
          (e.rebuild "/a" .never h).2.1.state.answers lib questions := by
    intro left unchanged
    have roots : (SearchPath.parse left.cwd "/a/:/a").roots =
        (SearchPath.parse h.disk.cwd "/a").roots := by
      rw [unchanged, cwd]
      decide +kernel
    obtain ⟨warm, restored, same, -, answers⟩ := restores e e "/a" "/a/:/a" .never h
      { h with disk := left } stores rfl unchanged rfl roots
    rw [three] at restored
    exact ⟨warm, restored, same, answers⟩
  have repeated : ∀ left, left = ((Command.Request.query .modules).run config h).2.disk →
      ((Command.Request.query .modules).run config { h with disk := left }).1 =
        ((Command.Request.query .modules).run config h).1 :=
    fun left unchanged => again config .modules h { h with disk := left } stores rfl unchanged rfl
  exact ⟨stores, restored _ rfl, repeated _ rfl⟩

/-- Whether an engine that keeps its cache below a directory stores the keys of the empty search path
and does not find them again. -/
def Forgets (home : Path) (disk : Disk) : Prop :=
  let h : Host := ⟨disk, ⟨"/"⟩, ⟨0, 0⟩⟩
  let e := initial { cacheDir := some home } disk.cwd
  e.config.persist ∧ (e.rebuild "" .never h).1.cancelled = false ∧
    (∃ dir, ((e.rebuild "" .never h).2.1.saveKeys h).1 = .ok dir) ∧
    ∃ cause, e.restoreStored "" { h with disk := (e.rebuild "" .never h).2.2.disk } = .error cause

private theorem forgets_of_load {home : Path} {disk : Disk} {dir : Path} {cause : CacheFailure}
    (cwd : disk.cwd.isAbsolute)
    (saved : (Cache.save home ⟨0, 0⟩ [] [⟨"__builtin__", none⟩, ⟨"sys", none⟩] disk).1 = .ok dir)
    (lost : Cache.load home []
      (Cache.save home ⟨0, 0⟩ [] [⟨"__builtin__", none⟩, ⟨"sys", none⟩] disk).2 = .error cause) :
    Forgets home disk := by
  unfold Forgets
  intro h e
  have caches : ∀ h', e.cacheDir h' = home := fun _ => rfl
  have finished : (e.rebuild "" .never h).1.cancelled = false := rfl
  have path : (e.rebuild "" .never h).2.1.state.index.searchPath.roots = [] := rfl
  have roots : ∀ dir, (SearchPath.parse dir "").roots = [] := fun _ => rfl
  have index : (e.rebuild "" .never h).2.1.state.index = .initial disk.cwd := rfl
  have keys : (e.rebuild "" .never h).2.1.state.index.keys =
      [⟨"__builtin__", none⟩, ⟨"sys", none⟩] := by
    rw [index, (Index.wellFormed_initial cwd).keys_eq]
    rfl
  have stored : (e.rebuild "" .never h).2.1.saveKeys h =
      Cache.save home ⟨0, 0⟩ [] [⟨"__builtin__", none⟩, ⟨"sys", none⟩] disk := by
    rw [saveKeys_eq, path, keys]
    rfl
  have restored : ∀ left, left = (e.rebuild "" .never h).2.2.disk →
      e.restoreStored "" { h with disk := left } = .error cause := by
    intro left unchanged
    rw [disk_rebuild rfl finished, stored] at unchanged
    rw [← unchanged] at lost
    have missing : e.storedKeys "" { h with disk := left } = .error cause := lost
    rw [restoreStored, missing, Except.map]
  exact ⟨rfl, finished, ⟨dir, stored ▸ saved⟩, cause, restored _ rfl⟩

/-- A link where the notes are written before they are moved: they are written to where it leads,
which is where the link is moved to. And a cache that is found through the link which the notes
replace: it is not found any more. -/
theorem restore_fails_behind_link :
    Forgets ⟨"/c"⟩ (.ofEntries ⟨"/"⟩ [(["c"], .dir), (["c", "v1"], .dir),
        (["c", "v1", "searchpath-af1349b9f5f9a1a6"], .dir),
        (["c", "v1", "searchpath-af1349b9f5f9a1a6", "metadata.tmp"], .link ⟨"metadata.json"⟩)]) ∧
      Forgets ⟨"/l"⟩ (.ofEntries ⟨"/"⟩ [(["c"], .dir), (["c", "v1"], .dir),
        (["c", "v1", "searchpath-af1349b9f5f9a1a6"], .dir),
        (["c", "v1", "searchpath-af1349b9f5f9a1a6", "metadata.json"], .link ⟨"/c"⟩),
        (["l"], .link ⟨"/c/v1/searchpath-af1349b9f5f9a1a6/metadata.json"⟩)]) := by
  have home : (⟨"/"⟩ : Path).isAbsolute := by decide
  constructor
  · exact @forgets_of_load _ _ ⟨"/c/v1/searchpath-af1349b9f5f9a1a6"⟩
      (.noMetadata ⟨"/c/v1/searchpath-af1349b9f5f9a1a6"⟩) home (by decide +kernel)
      (by decide +kernel)
  · exact @forgets_of_load _ _ ⟨"/l/v1/searchpath-af1349b9f5f9a1a6"⟩
      (.noMetadata ⟨"/l/v1/searchpath-af1349b9f5f9a1a6"⟩) home (by decide +kernel)
      (by decide +kernel)

end Engine

end ImportAtlas
