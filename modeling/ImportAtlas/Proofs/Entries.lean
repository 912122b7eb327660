import ImportAtlas.Proofs.DirectoryRemoval
import ImportAtlas.Proofs.Fallback
import ImportAtlas.Proofs.WarmStart

/-!
What holds of every indexed module. Each operation keeps it if it holds of the modules that the
operation puts in; so every source module of an engine is made of a syntax tree, and every module
without a file of its table.
-/

set_option autoImplicit false

namespace ImportAtlas

namespace Index

variable {i : Index} {P : Module → Prop}

def ModulesAre (i : Index) (P : Module → Prop) : Prop :=
  ∀ name m, i.get? name = some m → P m

private theorem ModulesAre.put (h : i.ModulesAre P) (name : String) {m : Module} (own : P m) :
    (i.put name m).ModulesAre P := by
  intro other n found
  rw [get?, Index.put, NameMap.get?_put] at found
  split at found
  · obtain rfl := Option.some.inj found
    exact own
  · exact h other n found

private theorem ModulesAre.erase (h : i.ModulesAre P) (name : String) :
    (i.erase name).ModulesAre P := by
  intro other n found
  rw [get?, Index.erase, NameMap.get?_erase] at found
  split at found
  · simp at found
  · exact h other n found

private theorem modulesAre_withBuiltins {s : SearchPath} {modules : NameMap Module}
    (h : (⟨s, modules⟩ : Index).ModulesAre P) (bare : ∀ name, P (.placeholder ⟨name, none⟩)) :
    (⟨s, withBuiltins modules⟩ : Index).ModulesAre P := by
  intro name m found
  rw [get?, get?_withBuiltins] at found
  split at found
  · obtain rfl := Option.some.inj found
    exact bare name
  · exact h name m found

theorem modulesAre_initial (cwd : Path) (bare : ∀ name, P (.placeholder ⟨name, none⟩)) :
    (initial cwd).ModulesAre P :=
  modulesAre_withBuiltins (fun _ _ found => absurd found (by simp [get?])) bare

theorem ModulesAre.rebuild (h : i.ModulesAre P) (s : SearchPath) {files : List Path}
    (all : ∀ name, ∀ file ∈ files, P (.placeholder ⟨name, some file⟩))
    (bare : ∀ name, P (.placeholder ⟨name, none⟩)) (cancel : Cancellation) :
    (i.rebuild s files cancel).2.ModulesAre P := by
  cases interrupted : cancel.interrupts files.length with
  | true =>
    rw [(rebuild_of_interrupts i s files interrupted).2]
    exact h
  | false =>
    rw [rebuild_of_not_interrupts i s files interrupted]
    refine modulesAre_withBuiltins ?_ bare
    intro name m found
    rw [get?, get?_foldl_add, NameMap.get?_nil, Option.none_or] at found
    obtain ⟨first, met, rfl⟩ := Option.map_eq_some_iff.mp found
    exact all name first (List.mem_of_find?_eq_some met)

theorem modulesAre_ofKeys (s : SearchPath) {keys : List ModuleKey}
    (all : ∀ key ∈ keys, P (.placeholder key)) (bare : ∀ name, P (.placeholder ⟨name, none⟩)) :
    (ofKeys s keys).ModulesAre P := by
  refine modulesAre_withBuiltins ?_ bare
  intro name m found
  rw [get?, get?_foldl_addKey, NameMap.get?_nil, Option.none_or] at found
  obtain ⟨key, met, rfl⟩ := Option.map_eq_some_iff.mp found
  exact all key (List.mem_of_find?_eq_some met)

theorem ModulesAre.answer {lib : Library} (h : i.ModulesAre P)
    (load : ∀ {m n : Module}, P m → m.loaded lib = .ok n → P n) {name : String} {n : Module}
    (ok : i.answer lib name = .ok n) : P n := by
  rw [Index.answer] at ok
  split at ok
  · simp at ok
  · rename_i m found
    exact load (h _ m found) ok

private theorem ModulesAre.settle {lib : Library} (h : i.ModulesAre P)
    (load : ∀ {m n : Module}, P m → m.loaded lib = .ok n → P n) {m : Module} (own : P m) :
    (i.settle lib m).ModulesAre P := by
  cases m with
  | source m => exact h
  | builtin t => exact h
  | placeholder key =>
    cases result : (Module.placeholder key).loaded lib with
    | ok n =>
      rw [settle_of_loaded result]
      exact h.put _ (load own result)
    | error cause =>
      simp only [Index.settle, result]
      cases key.file with
      | none => exact h
      | some file => exact h.erase _

theorem ModulesAre.resolve {s : State} {lib : Library} (h : s.index.ModulesAre P)
    (load : ∀ {m n : Module}, P m → m.loaded lib = .ok n → P n) (name : String) :
    (s.resolve lib name).2.index.ModulesAre P := by
  rw [State.resolve_index]
  split
  · exact h
  · rename_i m found
    exact h.settle load (h _ m found)

theorem ModulesAre.lookups {lib : Library} {s t : State} (h : s.index.ModulesAre P)
    (load : ∀ {m n : Module}, P m → m.loaded lib = .ok n → P n)
    (run : State.Lookups lib s t) : t.index.ModulesAre P := by
  induction run with
  | refl => exact h
  | tail _ step ih =>
    obtain ⟨name, rfl⟩ := step
    exact ih.resolve load name

end Index

namespace State

variable {s : State} {P : Module → Prop}

theorem modulesAre_changeFile (h : s.index.ModulesAre P) (lib : Library) (path : Path)
    (text : String)
    (own : ∀ name tree, P (.source (.ofTree name
      (some (Path.normalize s.index.searchPath.cwd (s.fileOf path))) tree))) :
    (s.changeFile lib path text).2.index.ModulesAre P := by
  rcases s.changeFile_cases lib path text with ⟨-, -, same⟩ | ⟨-, -, -, -, -, same⟩ |
    ⟨-, -, -, -, -, -, -, -, same⟩ | ⟨name, tree, -, -, -, -, replaced⟩
  · rw [same]
    exact h
  · rw [same]
    exact h
  · rw [same]
    exact h
  · rw [replaced]
    exact h.put name (own name tree)

theorem modulesAre_removeFile (h : s.index.ModulesAre P)
    (next : ∀ name, ∀ file ∈ s.index.searchPath.candidates name, P (.placeholder ⟨name, some file⟩))
    (lib : Library) (path : Path) : (s.removeFile lib path).2.index.ModulesAre P := by
  unfold removeFile Index.remove
  simp only
  cases s.index.searchPath.moduleName (Path.normalize s.index.searchPath.cwd path) with
  | none => exact h
  | some name =>
    simp only
    split
    · rename_i removed index ok
      split at ok
      · split at ok
        · rename_i file successor
          obtain ⟨-, rfl⟩ := Prod.mk.inj (Except.ok.inj ok)
          exact (h.erase name).put name (next name file (List.mem_of_find?_eq_some successor))
        · obtain ⟨-, rfl⟩ := Prod.mk.inj (Except.ok.inj ok)
          exact h.erase name
      · obtain ⟨-, rfl⟩ := Prod.mk.inj (Except.ok.inj ok)
        exact h
    · exact h

theorem modulesAre_removeDirectory (well : s.index.WellFormed) (h : s.index.ModulesAre P)
    (path : Path) : (s.removeDirectory path).2.index.ModulesAre P := by
  cases result : (s.removeDirectory path).1 with
  | error cause =>
    rw [index_of_removeDirectory_error result]
    exact h
  | ok count =>
    obtain ⟨above, -, -, filtered⟩ := removeDirectory_of_ok well result
    intro name m found
    rw [filtered] at found
    exact h name m (Option.eq_some_of_filter_eq_some found)

end State

/-- The modules that come about: a placeholder, a module made of a syntax tree, or one of the tables
of the modules without a file. -/
inductive Module.Made : Module → Prop
  | placeholder (key : ModuleKey) : Made (.placeholder key)
  | source (name : String) (file : Option Path) (tree : List Python.Statement) :
      Made (.source (.ofTree name file tree))
  | builtin {name : String} {t : Builtin.Table} (known : Builtin.ofName? name = some t) :
      Made (.builtin t)

theorem Module.Made.loaded {lib : Library} {m n : Module} (h : m.Made) (ok : m.loaded lib = .ok n) :
    n.Made := by
  cases h with
  | placeholder key =>
    obtain ⟨name, file⟩ := key
    cases file with
    | none =>
      simp only [Module.loaded] at ok
      split at ok
      · rename_i table known
        obtain rfl := Except.ok.inj ok
        exact .builtin known
      · simp at ok
    | some file =>
      simp only [Module.loaded] at ok
      split at ok
      · simp at ok
      · split at ok
        · simp at ok
        · obtain rfl := Except.ok.inj ok
          exact .source _ _ _
  | source name file tree =>
    obtain rfl := Except.ok.inj ok
    exact .source _ _ _
  | builtin known =>
    obtain rfl := Except.ok.inj ok
    exact .builtin known

namespace Engine

/-- Each step puts in made modules only, and so does a run. -/
theorem Reachable.modulesAre_made {e : Engine} (run : Reachable e) :
    e.state.index.ModulesAre Module.Made := by
  have bare : ∀ name, (Module.placeholder ⟨name, none⟩).Made := fun _ => .placeholder _
  induction run with
  | initial config _ => exact Index.modulesAre_initial _ bare
  | rebuild _ text cancel home ih =>
    exact ih.rebuild _ (fun _ _ _ => .placeholder _) bare cancel
  | restore before written text home stored restored _ _ =>
    simp only [restoreStored, stored, Except.map, Except.ok.injEq] at restored
    obtain ⟨-, rfl⟩ := Prod.mk.inj restored
    exact Index.modulesAre_ofKeys _ (fun _ _ => .placeholder _) bare
  | changeFile _ lib path text ih =>
    rw [state_withState]
    exact State.modulesAre_changeFile ih lib path text fun _ _ => .source _ _ _
  | removeFile _ lib path ih =>
    rw [state_withState]
    exact State.modulesAre_removeFile ih (fun _ _ _ => .placeholder _) lib path
  | removeDirectory before path ih =>
    rw [state_withState]
    exact State.modulesAre_removeDirectory before.wellFormed ih path
  | resolve _ lib name ih =>
    rw [state_withState]
    exact ih.resolve Module.Made.loaded name
  | atCursor _ lib m activation ih =>
    rw [state_withState]
    exact ih.lookups Module.Made.loaded (Completion.lookups_atCursor m activation _)
  | inImport _ lib raw ih =>
    rw [state_withState]
    exact ih.lookups Module.Made.loaded (Completion.lookups_inImport raw _)
  | preload _ lib cancel _ ih =>
    rw [state_withState]
    exact ih.lookups Module.Made.loaded (State.lookups_preloadNames cancel _ _)

end Engine

end ImportAtlas
