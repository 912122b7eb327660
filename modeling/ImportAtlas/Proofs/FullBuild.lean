import ImportAtlas.Library.Python
import ImportAtlas.Proofs.RootOrder

/-!
A full build after a rebuild. Both go through the same files. A rebuild keeps the first file of a
name, while a build lets a later file take the name, unless the one that is there is of an earlier
root. So they agree on the root of each name, but among the files of one root the build takes the
last.
-/

set_option autoImplicit false

namespace ImportAtlas

namespace SearchPath

variable {s : SearchPath}

/-- Whether two files have one name below one root. -/
def twins (s : SearchPath) (a b : Path) : Bool :=
  s.moduleName a = s.moduleName b && s.rootIndex a = s.rootIndex b

/-- The last of some files that has the name and the root of a given file; that file itself if there
is none. -/
def lastTwin (s : SearchPath) (files : List Path) (file : Path) : Path :=
  (files.filter (s.twins file)).getLast?.getD file

private theorem twins_iff {a b : Path} :
    s.twins a b = true ↔ s.moduleName a = s.moduleName b ∧ s.rootIndex a = s.rootIndex b := by
  simp [twins]

private theorem lastTwin_append (files : List Path) (next file : Path) :
    s.lastTwin (files ++ [next]) file =
      if s.twins file next then next else s.lastTwin files file := by
  unfold lastTwin
  rw [List.filter_append]
  by_cases twin : s.twins file next <;> simp [twin]

private theorem lastTwin_cases (s : SearchPath) (files : List Path) (file : Path) :
    s.lastTwin files file = file ∨
      (s.lastTwin files file ∈ files ∧ s.twins file (s.lastTwin files file)) := by
  unfold lastTwin
  cases last : (files.filter (s.twins file)).getLast? with
  | none => exact Or.inl rfl
  | some other =>
    obtain ⟨member, twin⟩ := List.mem_filter.mp (List.mem_of_getLast? last)
    exact Or.inr ⟨member, twin⟩

private theorem twins_lastTwin (s : SearchPath) (files : List Path) (file : Path) :
    s.twins file (s.lastTwin files file) := by
  rcases s.lastTwin_cases files file with same | ⟨-, twin⟩
  · rw [same]
    exact twins_iff.mpr ⟨rfl, rfl⟩
  · exact twin

end SearchPath

namespace Index

def filesByName (i : Index) : NameMap (Option Path) :=
  i.modules.map fun entry => (entry.1, entry.2.file)

private theorem get?_filesByName (i : Index) (name : String) :
    NameMap.get? i.filesByName name = (i.get? name).map Module.file :=
  NameMap.get?_map Module.file i.modules name

private theorem fileOf?_eq (i : Index) (name : String) :
    i.fileOf? name = (NameMap.get? i.filesByName name).join := by
  rw [get?_filesByName, fileOf?]
  cases i.get? name <;> rfl

namespace WellFormed

variable {i j : Index}

private theorem keys_eq_map (h : i.WellFormed) :
    i.keys = i.filesByName.map fun entry => ⟨entry.1, entry.2⟩ := by
  rw [h.keys_eq, filesByName, List.map_map]
  apply List.map_congr_left
  intro entry member
  have named := (h.placed entry.1 entry.2 (NameMap.get?_of_mem h.ordered member)).named
  simp only [Module.key, Function.comp_apply, named]

private theorem map_file_get? (h : i.WellFormed) (name : String) :
    (i.get? name).map Module.file =
      if Builtin.isReserved name then some none else (i.fileOf? name).map some := by
  rw [fileOf?]
  cases reserved : Builtin.isReserved name with
  | true =>
    obtain ⟨m, stands⟩ := Option.isSome_iff_exists.mp (h.complete name reserved)
    have found : i.get? name = some m := stands
    have bare : m.file = none := (h.placed name m found).file_of_reserved reserved
    simp [found, bare]
  | false =>
    cases found : i.get? name with
    | none => rfl
    | some m =>
      obtain ⟨-, file, backed, -⟩ := (h.placed name m found).filed reserved
      simp [backed]

private theorem keys_eq_keys_iff (h : i.WellFormed) (h' : j.WellFormed) :
    i.keys = j.keys ↔ ∀ name, i.fileOf? name = j.fileOf? name := by
  constructor
  · intro same name
    have tables : ∀ {k : Index}, k.WellFormed →
        k.filesByName = k.keys.map fun key => (key.name, key.file) := by
      intro k well
      rw [well.keys_eq_map, List.map_map]
      exact (List.map_id _).symm
    rw [fileOf?_eq, fileOf?_eq, tables h, tables h', same]
  · intro same
    have table : i.filesByName = j.filesByName := by
      refine NameMap.ext (NameMap.ordered_map Module.file h.ordered)
        (NameMap.ordered_map Module.file h'.ordered) ?_
      intro name
      have entry := h.map_file_get? name
      rw [same name, ← h'.map_file_get?, ← get?_filesByName, ← get?_filesByName] at entry
      exact entry
    rw [h.keys_eq_map, h'.keys_eq_map, table]

private theorem names_eq_names (h : i.WellFormed) (h' : j.WellFormed)
    (same : ∀ name, (i.fileOf? name).isSome = (j.fileOf? name).isSome) : i.names = j.names := by
  refine NameMap.keys_eq_keys h.ordered h'.ordered ?_
  intro name
  have known : ∀ {k : Index}, k.WellFormed →
      NameMap.contains k.modules name = (Builtin.isReserved name || (k.fileOf? name).isSome) := by
    intro k well
    have present := congrArg Option.isSome (well.map_file_get? name)
    rw [Option.isSome_map] at present
    rw [NameMap.contains, ← get?, present]
    cases Builtin.isReserved name <;> simp
  rw [known h, known h', same]

end WellFormed

private theorem fileOf?_rebuild (old : Index) (s : SearchPath) (files : List Path)
    {cancel : Cancellation} (whole : cancel.interrupts files.length = false) (name : String) :
    (old.rebuild s files cancel).2.fileOf? name =
      files.find? fun file => s.indexName file = some name := by
  rw [rebuild_of_not_interrupts old s files whole, fileOf?, get?, get?_withBuiltins, get?_foldl_add]
  split
  · rename_i reserved
    have nobody : (files.find? fun file => s.indexName file = some name) = none := by
      simp [SearchPath.indexName_eq_some_iff, reserved]
    rw [nobody]
    rfl
  · cases files.find? fun file => s.indexName file = some name <;> rfl

/-- Whether the file behind each name is one of some files, and of an earliest root among those of
the name, and no name of a file is left out. -/
structure Leading (i : Index) (files : List Path) : Prop where
  among : ∀ name file, i.fileOf? name = some file →
    file ∈ files ∧ i.searchPath.indexName file = some name
  earliest : ∀ name file, i.fileOf? name = some file →
    ∀ other ∈ files, i.searchPath.indexName other = some name →
      ∃ j k, i.searchPath.rootIndex file = some j ∧ i.searchPath.rootIndex other = some k ∧ j ≤ k
  complete : ∀ file ∈ files, ∀ name, i.searchPath.indexName file = some name →
    (i.fileOf? name).isSome

private theorem leading_rebuild (old : Index) {s : SearchPath} {files : List Path}
    {cancel : Cancellation} (whole : cancel.interrupts files.length = false)
    (ordered : files.Pairwise fun a b =>
      ∃ j k, s.rootIndex a = some j ∧ s.rootIndex b = some k ∧ j ≤ k) :
    (old.rebuild s files cancel).2.Leading files := by
  have path : (old.rebuild s files cancel).2.searchPath = s :=
    (rebuild_index old s files whole).2.2.1
  refine ⟨?_, ?_, ?_⟩
  · intro name file behind
    rw [fileOf?_rebuild old s files whole] at behind
    have named := List.find?_some behind
    rw [decide_eq_true_eq] at named
    rw [path]
    exact ⟨List.mem_of_find?_eq_some behind, named⟩
  · intro name file behind other member named
    rw [fileOf?_rebuild old s files whole] at behind
    rw [path] at named ⊢
    obtain ⟨matching, before, rest, rfl, earlier⟩ := List.find?_eq_some_iff_append.mp behind
    -- A file of the name is not before the first one; those behind it are of no earlier root.
    rcases List.mem_append.mp member with passed | member
    · have mismatch := earlier other passed
      simp [named] at mismatch
    · rcases List.mem_cons.mp member with rfl | later
      · obtain ⟨found, -, -⟩ := SearchPath.indexName_eq_some_iff.mp named
        obtain ⟨k, rank⟩ := SearchPath.exists_rootIndex_of_moduleName found
        exact ⟨k, k, rank, rank, le_rfl⟩
      · obtain ⟨-, from_file, -⟩ := List.pairwise_append.mp ordered
        exact List.rel_of_pairwise_cons from_file later
  · intro file member name named
    rw [path] at named
    rw [fileOf?_rebuild old s files whole, List.find?_isSome]
    exact ⟨file, member, decide_eq_true named⟩

end Index

namespace State

private theorem fileOf?_changeFile {lib : Library} {file : Path} {text : String}
    {tree : List Python.Statement} (normal : file.IsNormal) (parsed : lib.parser text = .ok tree)
    (s : State) (name : String) :
    (s.changeFile lib file text).2.index.fileOf? name =
      if s.index.searchPath.indexName file = some name ∧
          (s.index.fileOf? name).all fun winner =>
            !s.index.keepsPlace lib.sources.contains winner file
      then some file else s.index.fileOf? name := by
  have own : s.fileOf file = file := normal.normalize_eq _
  rcases s.changeFile_cases lib file text with ⟨unnamed, -, same⟩ | ⟨_, _, -, failed, -, -⟩ |
    ⟨other, _, winner, named, -, behind, kept, -, same⟩ | ⟨other, _, named, -, yields, -, put⟩
  · rw [own] at unnamed
    rw [same, unnamed, if_neg]
    rintro ⟨impossible, -⟩
    exact Option.some_ne_none name impossible.symm
  · rw [parsed] at failed
    exact absurd failed (by simp)
  · rw [own, normal.normalize_eq] at kept
    rw [own] at named
    rw [same, named, if_neg]
    rintro ⟨matching, yields⟩
    obtain rfl := Option.some.inj matching
    rw [behind, Option.all_some, kept] at yields
    exact Bool.false_ne_true yields
  · rw [own, normal.normalize_eq] at yields put
    rw [own] at named
    rw [put, Index.fileOf?_put, named]
    by_cases matching : name = other
    · subst matching
      have free : (s.index.fileOf? name).all fun winner =>
          !s.index.keepsPlace lib.sources.contains winner file := by
        cases behind : s.index.fileOf? name with
        | none => rfl
        | some winner => simp [yields winner behind]
      rw [if_pos rfl, if_pos ⟨rfl, free⟩]
      rfl
    · rw [if_neg matching, if_neg]
      rintro ⟨same, -⟩
      exact matching (Option.some.inj same).symm

end State

namespace Index

/-- What is known of an index after new texts of some files: behind each name is the last of them
that has the name and the root of the file that was there at first. -/
structure Latest (start : Index) (passed : List Path) (i : Index) : Prop where
  wellFormed : i.WellFormed
  searchPath : i.searchPath = start.searchPath
  behind : ∀ name, i.fileOf? name = (start.fileOf? name).map (start.searchPath.lastTwin passed)

variable {start : Index} {files passed : List Path} {lib : Library}

structure Present (lib : Library) (files : List Path) : Prop where
  normal : ∀ file ∈ files, file.IsNormal
  contained : ∀ file ∈ files, lib.sources.contains file

/-- A file that is behind a name keeps its place against the files of later roots, and against those
only. -/
theorem Leading.keepsPlace_eq (leading : start.Leading files) (present : Present lib files)
    {i : Index} (path : i.searchPath = start.searchPath) {name : String} {first winner file : Path}
    (begun : start.fileOf? name = some first) (twin : start.searchPath.twins first winner)
    (winning : winner ∈ files) (member : file ∈ files)
    (named : start.searchPath.indexName file = some name) :
    i.keepsPlace lib.sources.contains winner file = !start.searchPath.twins first file := by
  -- The winner is of the root of the first file, and no file of the name is of an earlier one.
  obtain ⟨j, k, rank, rank', le⟩ := leading.earliest name first begun file member named
  have same_root : start.searchPath.rootIndex winner = some j := by
    rw [← (SearchPath.twins_iff.mp twin).2, rank]
  rw [← path] at same_root rank'
  obtain ⟨found, -, -⟩ := SearchPath.indexName_eq_some_iff.mp named
  obtain ⟨found', -, -⟩ := SearchPath.indexName_eq_some_iff.mp (leading.among name first begun).2
  cases kept : i.keepsPlace lib.sources.contains winner file with
  | true =>
    obtain ⟨l, before, rank''⟩ := rank_lt_of_keepsPlace kept rank'
    obtain rfl := Option.some.inj (same_root.symm.trans rank'')
    cases twin' : start.searchPath.twins first file with
    | false => rfl
    | true =>
      have equal := (SearchPath.twins_iff.mp twin').2
      rw [rank, ← path, rank'] at equal
      exact absurd (Option.some.inj equal) (Nat.ne_of_lt before)
  | false =>
    have below := rank_le_of_not_keepsPlace kept (present.contained winner winning)
      (present.normal winner winning) (present.normal file member) same_root rank'
    obtain rfl := Nat.le_antisymm le below
    have twin' : start.searchPath.twins first file := by
      refine SearchPath.twins_iff.mpr ⟨found'.trans found.symm, ?_⟩
      rw [rank, ← path, rank']
    rw [twin']
    rfl

private theorem Leading.lastTwin (leading : start.Leading files)
    (among : ∀ file ∈ passed, file ∈ files) {name : String} {first : Path}
    (begun : start.fileOf? name = some first) :
    start.searchPath.lastTwin passed first ∈ files ∧
      start.searchPath.moduleName (start.searchPath.lastTwin passed first) = some name ∧
      start.searchPath.rootIndex (start.searchPath.lastTwin passed first) =
        start.searchPath.rootIndex first := by
  obtain ⟨member, named⟩ := leading.among name first begun
  obtain ⟨found, -, -⟩ := SearchPath.indexName_eq_some_iff.mp named
  obtain ⟨same_name, same_root⟩ :=
    SearchPath.twins_iff.mp (start.searchPath.twins_lastTwin passed first)
  refine ⟨?_, same_name.symm.trans found, same_root.symm⟩
  rcases start.searchPath.lastTwin_cases passed first with same | ⟨inside, -⟩
  · rw [same]
    exact member
  · exact among _ inside

private theorem Latest.changeFile (leading : start.Leading files) (present : Present lib files)
    {s : State} (h : start.Latest passed s.index) (among : ∀ file ∈ passed, file ∈ files)
    {file : Path}
    (member : file ∈ files) {text : String} {tree : List Python.Statement}
    (parsed : lib.parser text = .ok tree) :
    start.Latest (passed ++ [file]) (s.changeFile lib file text).2.index := by
  refine ⟨State.wellFormed_changeFile h.wellFormed lib file text,
    (State.searchPath_changeFile lib (file, text) s).trans h.searchPath, ?_⟩
  intro name
  rw [State.fileOf?_changeFile (present.normal file member) parsed, h.searchPath, h.behind]
  cases begun : start.fileOf? name with
  | none =>
    -- No file of the name is among the files.
    rw [if_neg]
    · rfl
    · rintro ⟨named, -⟩
      have some_file := leading.complete file member name named
      rw [begun] at some_file
      exact Bool.false_ne_true some_file
  | some first =>
    obtain ⟨found, nonempty, free⟩ :=
      SearchPath.indexName_eq_some_iff.mp (leading.among name first begun).2
    obtain ⟨winning, -, -⟩ := leading.lastTwin among begun
    simp only [Option.map_some, Option.all_some, SearchPath.lastTwin_append]
    by_cases named : start.searchPath.indexName file = some name
    · -- The file is of the name: it takes it from a twin and from no other.
      rw [leading.keepsPlace_eq present h.searchPath begun
        (start.searchPath.twins_lastTwin passed first) winning member named, Bool.not_not]
      by_cases twin : start.searchPath.twins first file
      · rw [if_pos ⟨named, twin⟩, if_pos twin]
      · rw [if_neg (fun both => twin both.2), if_neg twin]
    · have apart : ¬start.searchPath.twins first file = true := by
        intro twin
        have same := (SearchPath.twins_iff.mp twin).1
        rw [found] at same
        exact named (SearchPath.indexName_eq_some_iff.mpr ⟨same.symm, nonempty, free⟩)
      rw [if_neg (fun both => named both.1), if_neg apart]

end Index

namespace Build

private theorem indexAfter_changed {lib : Library} {sources : Sources} {file : Path} {text : String}
    (reads : sources.read file = .ok text) (i : Index) :
    indexAfter lib sources (.changed file) i =
      (State.changeFile lib file text ⟨i, []⟩).2.index := by
  have edited := indexReaction_index lib (.changed file text) ⟨i, []⟩
  simp only [indexAfter, Change.visit?, reads]
  exact edited.symm

/-- A build that shows each file once or more leaves the last file of each name and root. -/
theorem latest_foldl {lib : Library} {start : Index} {files : List Path} (well : start.WellFormed)
    (leading : start.Leading files) (present : Index.Present lib files)
    (readable : ∀ file ∈ files, ∃ text tree,
      lib.sources.read file = .ok text ∧ lib.parser text = .ok tree)
    (order : List Path) (among : ∀ file ∈ order, file ∈ files) :
    start.Latest order
      (order.foldl (fun i file => indexAfter lib lib.sources (.changed file) i) start) := by
  induction order using List.reverseRecOn with
  | nil =>
    refine ⟨well, rfl, ?_⟩
    intro name
    simp only [List.foldl_nil]
    cases start.fileOf? name <;> rfl
  | append_singleton passed file ih =>
    have before := ih fun other inside => among other (List.mem_append_left _ inside)
    have member := among file (List.mem_append_right _ (List.mem_singleton.mpr rfl))
    obtain ⟨text, tree, reads, parsed⟩ := readable file member
    rw [List.foldl_append, List.foldl_cons, List.foldl_nil, indexAfter_changed reads]
    exact Index.Latest.changeFile (s := ⟨_, []⟩) leading present before
      (fun other inside => among other (List.mem_append_left _ inside)) member parsed

end Build

namespace Disk

private theorem contains_of_read {d : Disk} {file : Path} {text : String}
    (reads : d.sources.read file = .ok text) : d.sources.contains file := by
  simp only [sources, readText, read] at reads
  simp only [sources, isFile]
  split at reads
  · simp [Except.map] at reads
  · rename_i found
    rw [found]
  · simp [Except.map] at reads
  · simp [Except.map] at reads
  · simp [Except.map] at reads

end Disk

namespace Engine

open Build (full indexVisitor)

/-- Where no root lies in another and all files that a rebuild has met can be read and parsed, a
full build that shows the index these files in any order keeps the names and, for each name, the
root of its file. Among the files of a name in that root it leaves the last one in its order. So it
leaves the keys as they were if and only if that is the file which the rebuild had chosen, and in
every order if no root has two files of one name. -/
theorem full_build_keeps_names_and_roots (e : Engine) (text : String) (cancel : Cancellation)
    (h : Host) (home : h.disk.cwd.isAbsolute) (disk : Disk)
    (parser : Parser) :
    let s := SearchPath.parse h.disk.cwd text
    let files := h.disk.sourceFiles s.roots
    let rebuilt := (e.rebuild text cancel h).2.1.state
    let lib : Library := ⟨disk.sources, parser⟩
    s.Apart → (∀ k < files.length, cancel.sees k = false) →
    (∀ file ∈ files, ∃ text tree, disk.sources.read file = .ok text ∧ parser text = .ok tree) →
    ∀ order : List Path, order.Perm files →
      let built := full disk.sources [indexVisitor lib id fun t _ => t] order false rebuilt
      built.interrupted = false ∧
      built.state.index.names = rebuilt.index.names ∧
      (∀ name, built.state.index.fileOf? name =
        (rebuilt.index.fileOf? name).map (s.lastTwin order)) ∧
      (∀ name file, rebuilt.index.fileOf? name = some file → s.lastTwin order file ∈ files ∧
        s.moduleName (s.lastTwin order file) = some name ∧
        s.rootIndex (s.lastTwin order file) = s.rootIndex file) ∧
      (built.state.index.keys = rebuilt.index.keys ↔
        ∀ name file, rebuilt.index.fileOf? name = some file → s.lastTwin order file = file) ∧
      ((∀ a ∈ files, ∀ b ∈ files, s.twins a b → a = b) →
        built.state.index.keys = rebuilt.index.keys) := by
  intro s files rebuilt lib apart unseen readable order all built
  have normal : s.IsNormal := SearchPath.isNormal_parse home text
  have whole : cancel.interrupts files.length = false := Cancellation.interrupts_eq_false unseen
  have path : rebuilt.index.searchPath = s :=
    (Index.rebuild_index e.state.index s files whole).2.2.1
  have start : rebuilt.index.WellFormed := by
    have anew : rebuilt.index = ((Index.initial h.disk.cwd).rebuild s files cancel).2 := by
      show (e.state.index.rebuild s files cancel).2 = _
      rw [Index.rebuild_of_not_interrupts _ s files whole,
        Index.rebuild_of_not_interrupts _ s files whole]
    rw [anew]
    exact (Index.wellFormed_initial home).rebuild normal
      (fun file member => h.disk.isNormal_of_mem_sourceFiles normal.roots member) cancel
  have leading : rebuilt.index.Leading files := Index.leading_rebuild e.state.index whole
    (h.disk.pairwise_rootIndex_sourceFiles normal apart)
  have present : Index.Present lib files := by
    refine ⟨fun file member => h.disk.isNormal_of_mem_sourceFiles normal.roots member, ?_⟩
    intro file member
    obtain ⟨_, _, reads, -⟩ := readable file member
    exact Disk.contains_of_read reads
  have among : ∀ file ∈ order, file ∈ files := fun file member => all.mem_iff.mp member
  have latest := Build.latest_foldl start leading present readable order among
  have done : built.At id _ := @Build.at_full lib State id (fun t _ => t) [] [] disk.sources
    (fun _ _ => rfl) (fun _ member => absurd member List.not_mem_nil) order rebuilt
  have index : built.state.index = _ := done.index
  simp only [id_eq] at index
  rw [← index] at latest
  have behind := latest.behind
  rw [path] at behind
  have last : ∀ name file, rebuilt.index.fileOf? name = some file →
      s.lastTwin order file ∈ files ∧ s.moduleName (s.lastTwin order file) = some name ∧
        s.rootIndex (s.lastTwin order file) = s.rootIndex file := by
    intro name file found
    have facts := leading.lastTwin among found
    rw [path] at facts
    exact facts
  have keys : built.state.index.keys = rebuilt.index.keys ↔
      ∀ name file, rebuilt.index.fileOf? name = some file → s.lastTwin order file = file := by
    rw [latest.wellFormed.keys_eq_keys_iff start]
    refine forall_congr' fun name => ?_
    rw [behind]
    cases rebuilt.index.fileOf? name <;> simp
  refine ⟨done.whole, ?_, behind, last, keys, ?_⟩
  · refine latest.wellFormed.names_eq_names start ?_
    intro name
    rw [behind, Option.isSome_map]
  · intro single
    refine keys.mpr ?_
    intro name file found
    have member : file ∈ files := (leading.among name file found).1
    exact (single file member _ (last name file found).1 (s.twins_lastTwin order file)).symm

theorem full_build_keeps_names_and_roots_of_two_roots :
    let disk : Disk :=
      .ofEntries ⟨"/"⟩ [(["a"], .dir), (["a", "y.py"], .file []), (["b"], .dir),
          (["b", "y.py"], .file [])]
    let h : Host := ⟨disk, ⟨"/"⟩, ⟨0, 0⟩⟩
    let parser : Parser := fun _ => .ok []
    let lib : Library := ⟨disk.sources, parser⟩
    let rebuilt := ((initial {} ⟨"/"⟩).rebuild "/b:/a" .never h).2.1.state
    let order : List Path := [⟨"/a/y.py"⟩, ⟨"/b/y.py"⟩]
    let built := full disk.sources [indexVisitor lib id fun t _ => t] order false rebuilt
    order.Perm (disk.sourceFiles (SearchPath.parse ⟨"/"⟩ "/b:/a").roots) ∧
      rebuilt.index.fileOf? "y" = some ⟨"/b/y.py"⟩ ∧ rebuilt.index.unloaded.length = 3 ∧
      built.state.index.unloaded.length = 2 ∧ built.state.index.keys = rebuilt.index.keys := by
  intro disk h parser lib rebuilt order built
  have home : (⟨"/"⟩ : Path).isAbsolute := by decide
  have files : disk.sourceFiles (SearchPath.parse ⟨"/"⟩ "/b:/a").roots =
      [⟨"/b/y.py"⟩, ⟨"/a/y.py"⟩] := by decide +kernel
  have all : order.Perm (disk.sourceFiles (SearchPath.parse ⟨"/"⟩ "/b:/a").roots) := by
    rw [files]
    exact List.Perm.swap _ _ _
  have readable : ∀ file ∈ disk.sourceFiles (SearchPath.parse ⟨"/"⟩ "/b:/a").roots,
      ∃ text tree, disk.sources.read file = .ok text ∧ parser text = .ok tree := by
    rw [files]
    have empty : ∀ file ∈ [(⟨"/b/y.py"⟩ : Path), ⟨"/a/y.py"⟩], disk.sources.read file = .ok "" := by
      decide +kernel
    exact fun file member => ⟨"", [], empty file member, rfl⟩
  have facts := full_build_keeps_names_and_roots (initial {} ⟨"/"⟩) "/b:/a" .never
    h home disk parser (by decide +kernel) (fun _ _ => rfl) readable order all
  have single := facts.2.2.2.2.2
  have apart : ∀ a ∈ [(⟨"/b/y.py"⟩ : Path), ⟨"/a/y.py"⟩], ∀ b ∈ [(⟨"/b/y.py"⟩ : Path), ⟨"/a/y.py"⟩],
      (SearchPath.parse ⟨"/"⟩ "/b:/a").twins a b → a = b := by decide +kernel
  rw [← files] at apart
  have kept := single apart
  -- Stated apart, so that the build is not run to compare the two.
  have same : full disk.sources [indexVisitor ⟨disk.sources, parser⟩ id fun t _ => t] order false
      ((initial {} ⟨"/"⟩).rebuild "/b:/a" .never h).2.1.state = built := rfl
  rw [same] at kept
  exact ⟨all, by decide +kernel, by decide +kernel, by decide +kernel, kept⟩

/-- Two files of one name in one root: a rebuild keeps the package, which it meets first, and a full
build in the same order leaves the module next to it. -/
theorem full_build_takes_last_twin :
    let disk : Disk :=
      .ofEntries ⟨"/"⟩ [(["r"], .dir), (["r", "pkg"], .dir),
          (["r", "pkg", "__init__.py"], .file []),
          (["r", "pkg.py"], .file [])]
    let h : Host := ⟨disk, ⟨"/"⟩, ⟨0, 0⟩⟩
    let s := SearchPath.parse ⟨"/"⟩ "/r"
    let lib : Library := ⟨disk.sources, fun _ => .ok []⟩
    let rebuilt := ((initial {} ⟨"/"⟩).rebuild "/r" .never h).2.1.state
    let files := disk.sourceFiles s.roots
    let built := full disk.sources [indexVisitor lib id fun t _ => t] files false rebuilt
    s.Apart ∧ files = [⟨"/r/pkg/__init__.py"⟩, ⟨"/r/pkg.py"⟩] ∧
      (∀ file ∈ files, disk.sources.read file = .ok "") ∧ built.interrupted = false ∧
      rebuilt.index.fileOf? "pkg" = some ⟨"/r/pkg/__init__.py"⟩ ∧
      built.state.index.fileOf? "pkg" = some ⟨"/r/pkg.py"⟩ ∧
      built.state.index.keys ≠ rebuilt.index.keys := by
  intro disk h s lib rebuilt files built
  have found : disk.reach true ⟨"/r"⟩ = .ok ⟨["r"], some .dir, 40⟩ := by decide +kernel
  have listed : disk.childNames ["r"] = ["pkg", "pkg.py"] :=
    Disk.childNames_eq (by decide +kernel) (by decide +kernel)
  have inside : disk.childNames ["r", "pkg"] = ["__init__.py"] :=
    Disk.childNames_eq (by decide +kernel) (by decide +kernel)
  have package : ∀ fuel around, disk.folderAt true (fuel + 2) around 40 ["r", "pkg"] .dir =
      some (.dir [("__init__.py", .file)]) := by
    intro fuel around
    rw [Disk.folderAt_dir inside (by decide +kernel)]
    rfl
  have folder : disk.folder true ⟨"/r"⟩ =
      some (.dir [("pkg", .dir [("__init__.py", .file)]), ("pkg.py", .file)]) := by
    have file : disk.entryAt ["r", "pkg.py"] = some (.file []) := by decide +kernel
    have directory : disk.entryAt ["r", "pkg"] = some .dir := by decide +kernel
    simp only [Disk.folder, found]
    show disk.folderAt true (33 + 2 + 1) [] 40 ["r"] .dir = _
    rw [Disk.folderAt_dir listed (by decide +kernel)]
    simp only [List.filterMap_cons, List.filterMap_nil, List.cons_append, List.nil_append, directory,
      file, Option.bind_some, package]
    rfl
  have roots : s.roots = [⟨"/r"⟩] := by decide +kernel
  have met : files = [⟨"/r/pkg/__init__.py"⟩, ⟨"/r/pkg.py"⟩] := by
    simp only [files, Disk.sourceFiles, SearchPath.sourceFiles, roots, List.flatMap_cons, folder]
    decide +kernel
  have anew : rebuilt = ⟨((Index.initial ⟨"/"⟩).rebuild s files .never).2, []⟩ := rfl
  have run : built = full disk.sources [indexVisitor lib id fun t _ => t] files false
      ⟨((Index.initial ⟨"/"⟩).rebuild s files .never).2, []⟩ := rfl
  have replaced : (⟨"pkg", some ⟨"/r/pkg.py"⟩⟩ : ModuleKey) ∈ built.state.index.keys ∧
      (⟨"pkg", some ⟨"/r/pkg.py"⟩⟩ : ModuleKey) ∉ rebuilt.index.keys := by
    simp only [Index.keys, ModuleKey.sort, List.mem_mergeSort]
    rw [run, anew, met]
    decide +kernel
  have different : built.state.index.keys ≠ rebuilt.index.keys := by
    intro same
    rw [same] at replaced
    exact replaced.2 replaced.1
  refine ⟨by decide +kernel, met, ?_, ?_, ?_, ?_, different⟩
  · rw [met]
    decide +kernel
  · rw [run, met]
    decide +kernel
  · rw [anew, met]
    decide +kernel
  · rw [run, met]
    decide +kernel

end Engine

end ImportAtlas
