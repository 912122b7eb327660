import ImportAtlas.Cache.Frame
import ImportAtlas.Index.Update
import ImportAtlas.Proofs.Invariant

/-!
The engines that come about: from a new one, by any rebuilds, restores from stored keys, edits and
queries in any order. Each step may find another file system and other contents of the files.
-/

set_option autoImplicit false

namespace ImportAtlas

namespace Engine

def withState (e : Engine) (state : State) : Engine :=
  { e with state }

@[simp] theorem state_withState (e : Engine) (s : State) : (e.withState s).state = s := rfl

/-- The engines that runs lead to. What a restore finds are the keys of some engine that a run leads
to; a preload takes the names in any order. -/
inductive Reachable : Engine → Prop
  | initial (config : Config) {cwd : Path} (home : cwd.isAbsolute) :
      Reachable (.initial config cwd)
  | rebuild {e : Engine} (before : Reachable e) (text : String) (cancel : Cancellation) {h : Host}
      (home : h.disk.cwd.isAbsolute) :
      Reachable (e.rebuild text cancel h).2.1
  | restore {e writer after : Engine} {size : Nat} (before : Reachable e)
      (written : Reachable writer) (text : String) {h : Host} (home : h.disk.cwd.isAbsolute)
      (stored : e.storedKeys text h = .ok writer.state.index.keys)
      (restored : e.restoreStored text h = .ok (size, after)) : Reachable after
  | changeFile {e : Engine} (before : Reachable e) (lib : Library) (path : Path) (text : String) :
      Reachable (e.withState (e.state.changeFile lib path text).2)
  | removeFile {e : Engine} (before : Reachable e) (lib : Library) (path : Path) :
      Reachable (e.withState (e.state.removeFile lib path).2)
  | removeDirectory {e : Engine} (before : Reachable e) (path : Path) :
      Reachable (e.withState (e.state.removeDirectory path).2)
  | resolve {e : Engine} (before : Reachable e) (lib : Library) (name : String) :
      Reachable (e.withState (e.state.resolve lib name).2)
  | atCursor {e : Engine} (before : Reachable e) (lib : Library) (m : Module)
      (activation : String) :
      Reachable (e.withState (Completion.atCursor lib m activation e.state).2)
  | inImport {e : Engine} (before : Reachable e) (lib : Library) (raw : String) :
      Reachable (e.withState (Completion.inImport lib raw e.state).2)
  | preload {e : Engine} (before : Reachable e) (lib : Library) (cancel : Cancellation)
      {names : List String} (order : names.Perm e.state.index.unloaded) :
      Reachable (e.withState (e.state.preloadNames lib cancel names).2)

end Engine

namespace Index

theorem WellFormed.keys_eq {i : Index} (h : i.WellFormed) :
    i.keys = i.modules.map fun entry => entry.2.key := by
  apply List.mergeSort_of_pairwise
  refine List.pairwise_map.mpr (List.Pairwise.imp_of_mem ?_ h.ordered)
  intro a b member member' below
  have named : a.2.name = a.1 := (h.placed a.1 a.2 (NameMap.get?_of_mem h.ordered member)).named
  have named' : b.2.name = b.1 := (h.placed b.1 b.2 (NameMap.get?_of_mem h.ordered member')).named
  have before : Ord.compare a.2.name b.2.name = .lt := by
    rw [named, named']
    exact compareOfLessAndEq_eq_lt.mpr below
  simp [ModuleKey.compare, Module.key, before]

private theorem WellFormed.names_keys {i : Index} (h : i.WellFormed) :
    i.keys.map ModuleKey.name = i.names := by
  rw [h.keys_eq, List.map_map]
  apply List.map_congr_left
  intro entry member
  exact (h.placed entry.1 entry.2 (NameMap.get?_of_mem h.ordered member)).named

private theorem WellFormed.pairwise_keys {i : Index} (h : i.WellFormed) :
    i.keys.Pairwise fun a b => a.name < b.name := by
  apply List.pairwise_map.mp
  rw [h.names_keys]
  exact List.pairwise_map.mpr h.ordered

theorem WellFormed.name_eq_of_same_file {i : Index} (h : i.WellFormed) {name other : String}
    {m n : Module} {file again : Path} (found : i.get? name = some m)
    (found' : i.get? other = some n) (backed : m.file = some file) (backed' : n.file = some again)
    (same : file.same again) : name = other := by
  obtain ⟨-, normal, named⟩ := (h.placed name m found).of_file backed
  obtain ⟨-, normal', named'⟩ := (h.placed other n found').of_file backed'
  obtain rfl := normal.eq_of_same normal' same
  exact Option.some.inj (named.symm.trans named')

private theorem WellFormed.of_mem_keys {i : Index} (h : i.WellFormed) {key : ModuleKey}
    (member : key ∈ i.keys) {file : Path} (backed : key.file = some file) :
    key.name ≠ "" ∧ file.IsNormal := by
  rw [h.keys_eq] at member
  obtain ⟨entry, inside, rfl⟩ := List.mem_map.mp member
  have placed := h.placed entry.1 entry.2 (NameMap.get?_of_mem h.ordered inside)
  obtain ⟨nonempty, normal, -⟩ := placed.of_file backed
  rw [← placed.named] at nonempty
  exact ⟨nonempty, normal⟩

end Index

namespace State

theorem wellFormed_changeFile {s : State} (h : s.index.WellFormed) (lib : Library) (path : Path)
    (text : String) : (s.changeFile lib path text).2.index.WellFormed := by
  simp only [changeFile]
  split
  · exact h
  · rename_i name named
    split
    · exact h
    · rename_i nonempty
      split
      · exact h
      · simp only [changeModule, parseText]
        split
        · rename_i parsed
          obtain ⟨-, rfl⟩ := Prod.mk.inj parsed
          exact h
        · rename_i parsed
          obtain ⟨-, rfl⟩ := Prod.mk.inj parsed
          split
          · rename_i ok
            exact h.upsert nonempty named ok
          · exact h

theorem wellFormed_removeFile {s : State} (h : s.index.WellFormed) (lib : Library) (path : Path) :
    (s.removeFile lib path).2.index.WellFormed := by
  unfold removeFile
  split
  · rename_i ok
    exact h.remove ok
  · exact h

private theorem wellFormed_removeDirectory {s : State} (h : s.index.WellFormed) (path : Path) :
    (s.removeDirectory path).2.index.WellFormed := by
  unfold removeDirectory
  split
  · rename_i ok
    exact h.removeTree ok
  · exact h

end State

namespace Engine

theorem wellFormed_rebuild {e : Engine} (before : e.state.index.WellFormed) (text : String)
    (cancel : Cancellation) {h : Host} (home : h.disk.cwd.isAbsolute) :
    (e.rebuild text cancel h).2.1.state.index.WellFormed := by
  have path := SearchPath.isNormal_parse home text
  exact before.rebuild path (fun file member => h.disk.isNormal_of_mem_sourceFiles path.roots
    member) cancel

private theorem wellFormed_restore {e after : Engine} {size : Nat} {text : String} {h : Host}
    {keys : List ModuleKey} (home : h.disk.cwd.isAbsolute)
    (clean : ∀ key ∈ keys, ∀ file, key.file = some file → key.name ≠ "" ∧ file.IsNormal)
    (stored : e.storedKeys text h = .ok keys)
    (restored : e.restoreStored text h = .ok (size, after)) : after.state.index.WellFormed := by
  simp only [restoreStored, stored, Except.map, Except.ok.injEq] at restored
  obtain ⟨-, rfl⟩ := Prod.mk.inj restored
  exact Index.wellFormed_ofKeys (SearchPath.isNormal_parse home text) clean

theorem Reachable.wellFormed {e : Engine} (run : Reachable e) : e.state.index.WellFormed := by
  induction run with
  | initial config home => exact Index.wellFormed_initial home
  | rebuild _ text cancel home ih => exact wellFormed_rebuild ih text cancel home
  | restore _ _ text home stored restored _ ih_writer =>
    exact wellFormed_restore home (fun key member file backed => ih_writer.of_mem_keys member backed)
      stored restored
  | changeFile _ lib path text ih =>
    rw [state_withState]
    exact State.wellFormed_changeFile ih lib path text
  | removeFile _ lib path ih =>
    rw [state_withState]
    exact State.wellFormed_removeFile ih lib path
  | removeDirectory _ path ih =>
    rw [state_withState]
    exact State.wellFormed_removeDirectory ih path
  | resolve _ lib name ih =>
    rw [state_withState]
    exact ih.resolve name
  | atCursor _ lib m activation ih =>
    rw [state_withState]
    exact ih.lookups (Completion.lookups_atCursor m activation _)
  | inImport _ lib raw ih =>
    rw [state_withState]
    exact ih.lookups (Completion.lookups_inImport raw _)
  | preload _ lib cancel _ ih =>
    rw [state_withState]
    exact ih.lookups (State.lookups_preloadNames cancel _ _)

/-- In every engine that a run leads to, the built-in names are indexed without a file; each module
stands under its own name; and each other module has a normal file that the search path of the same
index gives that name. So the keys increase by name, and no two modules share a file. -/
theorem index_agrees_with_files {e : Engine} (run : Reachable e) :
    let i := e.state.index
    (∀ name ∈ Builtin.names, ∃ m, i.get? name = some m ∧ m.file = none) ∧
    (∀ name m, (name, m) ∈ i.modules → m.name = name) ∧
    (∀ name m, (name, m) ∈ i.modules → name ∉ Builtin.names →
      name ≠ "" ∧ ∃ file, m.file = some file ∧ file.IsNormal ∧
        Path.normalize i.searchPath.cwd file = file ∧ i.searchPath.moduleName file = some name) ∧
    (i.keys.Pairwise fun a b => a.name < b.name) ∧
    (∀ name m file other n again, (name, m) ∈ i.modules → (other, n) ∈ i.modules →
      m.file = some file → n.file = some again → file.same again → (name, m) = (other, n)) := by
  intro i
  have h : i.WellFormed := run.wellFormed
  have found : ∀ {name m}, (name, m) ∈ i.modules → i.get? name = some m :=
    NameMap.get?_of_mem h.ordered
  refine ⟨?_, ?_, ?_, h.pairwise_keys, ?_⟩
  · intro name listed
    have reserved : Builtin.isReserved name := List.contains_iff_mem.mpr listed
    obtain ⟨m, indexed⟩ := Option.isSome_iff_exists.mp (h.complete name reserved)
    exact ⟨m, indexed, (h.placed name m indexed).file_of_reserved reserved⟩
  · intro name m member
    exact (h.placed name m (found member)).named
  · intro name m member unlisted
    have free : Builtin.isReserved name = false := by
      rw [Bool.eq_false_iff]
      exact fun reserved => unlisted (List.contains_iff_mem.mp reserved)
    obtain ⟨nonempty, file, backed, normal, named⟩ := (h.placed name m (found member)).filed free
    exact ⟨nonempty, file, backed, normal, normal.normalize_eq _, named⟩
  · intro name m file other n again member member' backed backed' same
    obtain rfl := h.name_eq_of_same_file (found member) (found member') backed backed' same
    rw [Option.some.inj ((found member).symm.trans (found member'))]

theorem index_agrees_with_files_edited :
    let h : Host := ⟨.ofEntries ⟨"/"⟩ [], ⟨"/"⟩, ⟨0, 0⟩⟩
    let lib : Library := ⟨⟨fun _ => .ok "", fun _ => true⟩, fun _ => .ok []⟩
    let e := ((initial {} ⟨"/"⟩).rebuild "/a" .never h).2.1
    let after := e.withState (e.state.changeFile lib ⟨"a/./x.py"⟩ "").2
    Reachable after ∧ after.state.index.names = ["__builtin__", "sys", "x"] ∧
      (after.state.index.keys.Pairwise fun a b => a.name < b.name) := by
  intro h lib e after
  have home : (⟨"/"⟩ : Path).isAbsolute := by decide
  have run : Reachable after :=
    .changeFile (.rebuild (.initial {} home) "/a" .never home) lib _ _
  refine ⟨run, by decide, ?_⟩
  obtain ⟨-, -, -, increasing, -⟩ := index_agrees_with_files run
  exact increasing

end Engine

end ImportAtlas
