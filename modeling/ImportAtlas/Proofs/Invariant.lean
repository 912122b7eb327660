import ImportAtlas.Index.Update
import ImportAtlas.Proofs.Enumeration
import ImportAtlas.Proofs.Loading
import ImportAtlas.Proofs.Lookups
import ImportAtlas.Proofs.Rebuild

/-!
What every index keeps: the reserved names are there without a file, and each other module has a
normal file whose name on the search path is the one it stands under.
-/

set_option autoImplicit false

namespace ImportAtlas

namespace Index

/-- What may stand under a name: its built-in module or the placeholder of it if the name is
reserved, or else a module of that name from a normal file that the search path gives that name. -/
structure Placed (s : SearchPath) (name : String) (m : Module) : Prop where
  named : m.name = name
  reserved : Builtin.isReserved name →
    ∃ t, Builtin.ofName? name = some t ∧ (m = .placeholder ⟨name, none⟩ ∨ m = .builtin t)
  filed : Builtin.isReserved name = false →
    name ≠ "" ∧ ∃ file, m.file = some file ∧ file.IsNormal ∧ s.moduleName file = some name

/-- What holds of an index however it came about. -/
structure WellFormed (i : Index) : Prop where
  path : i.searchPath.IsNormal
  ordered : NameMap.Ordered i.modules
  placed : ∀ name m, i.get? name = some m → Placed i.searchPath name m
  complete : ∀ name, Builtin.isReserved name → i.contains name

namespace Placed

variable {s : SearchPath} {name : String} {m : Module}

theorem file_of_reserved (h : Placed s name m) (reserved : Builtin.isReserved name) :
    m.file = none := by
  obtain ⟨t, -, rfl | rfl⟩ := h.reserved reserved
  · rfl
  · rfl

theorem not_reserved (h : Placed s name m) {file : Path} (backed : m.file = some file) :
    Builtin.isReserved name = false := by
  rw [Bool.eq_false_iff]
  intro reserved
  rw [h.file_of_reserved reserved] at backed
  exact Option.some_ne_none file backed.symm

theorem of_file (h : Placed s name m) {file : Path} (backed : m.file = some file) :
    name ≠ "" ∧ file.IsNormal ∧ s.moduleName file = some name := by
  obtain ⟨nonempty, other, same, normal, found⟩ := h.filed (h.not_reserved backed)
  obtain rfl := Option.some.inj (same.symm.trans backed)
  exact ⟨nonempty, normal, found⟩

private theorem placeholder_of_reserved (reserved : Builtin.isReserved name) :
    Placed s name (.placeholder ⟨name, none⟩) := by
  obtain ⟨t, found⟩ := Option.isSome_iff_exists.mp (Builtin.isReserved_iff.mp reserved)
  refine ⟨rfl, fun _ => ⟨t, found, Or.inl rfl⟩, ?_⟩
  intro free
  rw [reserved] at free
  exact absurd free (by simp)

private theorem of_filed {file : Path} (named : m.name = name)
    (free : Builtin.isReserved name = false) (nonempty : name ≠ "") (backed : m.file = some file)
    (normal : file.IsNormal)
    (found : s.moduleName file = some name) : Placed s name m := by
  refine ⟨named, ?_, fun _ => ⟨nonempty, file, backed, normal, found⟩⟩
  intro reserved
  rw [reserved] at free
  exact absurd free (by simp)

theorem of_no_file (h : Placed s name m) (bare : m.file = none) :
    ∃ t, Builtin.ofName? name = some t ∧ (m = .placeholder ⟨name, none⟩ ∨ m = .builtin t) := by
  cases reserved : Builtin.isReserved name with
  | true => exact h.reserved reserved
  | false =>
    obtain ⟨-, file, backed, -⟩ := h.filed reserved
    rw [bare] at backed
    exact absurd backed (by simp)

theorem loaded {lib : Library} (h : Placed s name m) {n : Module} (ok : m.loaded lib = .ok n) :
    Placed s name n := by
  obtain ⟨same_name, same_file, -⟩ := Module.key_of_loaded ok
  cases reserved : Builtin.isReserved name with
  | false =>
    obtain ⟨nonempty, file, backed, normal, found⟩ := h.filed reserved
    exact of_filed (same_name.trans h.named) reserved nonempty (same_file.trans backed) normal found
  | true =>
    obtain ⟨t, found, rfl | rfl⟩ := h.reserved reserved
    · simp only [Module.loaded, found, Except.ok.injEq] at ok
      subst ok
      refine ⟨Builtin.name_of_ofName? found, fun _ => ⟨t, found, Or.inr rfl⟩, ?_⟩
      rw [reserved]
      simp
    · obtain rfl := Except.ok.inj ok
      exact h

end Placed

namespace WellFormed

variable {lib : Library} {i : Index}

theorem put (h : i.WellFormed) {name : String} {m : Module}
    (placed : Placed i.searchPath name m) : (i.put name m).WellFormed := by
  refine ⟨h.path, NameMap.ordered_put h.ordered name m, ?_, ?_⟩
  · intro other n found
    simp only [get?, Index.put, NameMap.get?_put] at found
    split at found
    · rename_i same
      obtain rfl := Option.some.inj found
      rw [same]
      exact placed
    · exact h.placed other n found
  · intro other reserved
    have before := h.complete other reserved
    simp only [contains, NameMap.contains, Index.put, NameMap.get?_put] at before ⊢
    split
    · rfl
    · exact before

private theorem filter (h : i.WellFormed) (p : String × Module → Bool)
    (keep : ∀ name m, i.get? name = some m → m.file = none → p (name, m)) :
    ({ i with modules := i.modules.filter p } : Index).WellFormed := by
  refine ⟨h.path, NameMap.ordered_filter h.ordered p, ?_, ?_⟩
  · intro name m found
    rw [get?, NameMap.get?_filter h.ordered] at found
    exact h.placed name m (Option.eq_some_of_filter_eq_some found)
  · intro name reserved
    obtain ⟨m, found⟩ := Option.isSome_iff_exists.mp (h.complete name reserved)
    have kept := keep name m found ((h.placed name m found).file_of_reserved reserved)
    simp only [contains, NameMap.contains, NameMap.get?_filter h.ordered, found, Option.filter,
      kept, if_true, Option.isSome_some]

private theorem erase (h : i.WellFormed) {name : String} (free : Builtin.isReserved name = false) :
    (i.erase name).WellFormed := by
  refine h.filter _ ?_
  intro other m found bare
  simp only [ne_eq, decide_not, Bool.not_eq_true', decide_eq_false_iff_not]
  rintro rfl
  obtain ⟨t, known, -⟩ := (h.placed other m found).of_no_file bare
  have reserved := Builtin.isReserved_iff.mpr (Option.isSome_of_eq_some known)
  rw [free] at reserved
  exact Bool.false_ne_true reserved

/-- The placeholder that a lookup finds stands under its own name: a second look before it is loaded
finds it again, and its module takes the place of nothing else. -/
theorem get?_of_entryFor (h : i.WellFormed) {name : String} {key : ModuleKey}
    (found : i.entryFor name = some (.placeholder key)) :
    i.get? key.name = some (.placeholder key) := by
  rw [entryFor_eq] at found
  have own : key.name = i.keyFor name := (h.placed _ _ found).named
  rw [own, found]

/-- All that settling an entry can do: a loaded module stays, a placeholder gives way to its module,
and a file that makes no module is gone. -/
theorem settle_cases (lib : Library) (h : i.WellFormed) {name : String} {m : Module}
    (found : i.get? name = some m) :
    (m.isLoaded ∧ i.settle lib m = i) ∨
    (∃ n, m.loaded lib = .ok n ∧ i.settle lib m = i.put name n) ∨
    (∃ cause, m.loaded lib = .error cause ∧ Builtin.isReserved name = false ∧
      i.settle lib m = i.erase name) := by
  have placed := h.placed name m found
  cases m with
  | source m => exact Or.inl ⟨rfl, rfl⟩
  | builtin t => exact Or.inl ⟨rfl, rfl⟩
  | placeholder key =>
    obtain ⟨own, backing⟩ := key
    obtain rfl : own = name := placed.named
    right
    cases loaded : (Module.placeholder ⟨own, backing⟩).loaded lib with
    | ok n => exact Or.inl ⟨n, rfl, Index.settle_of_loaded loaded⟩
    | error cause =>
      cases backing with
      | some file =>
        exact Or.inr ⟨cause, rfl, placed.not_reserved rfl, Index.settle_of_failed rfl loaded⟩
      | none =>
        -- Only a reserved name stands without a file, and it is loaded from a table.
        obtain ⟨t, known, -⟩ := placed.of_no_file rfl
        simp [Module.loaded, known] at loaded

private theorem settle (h : i.WellFormed) {name : String} {m : Module}
    (found : i.get? name = some m) :
    (i.settle lib m).WellFormed := by
  rcases h.settle_cases lib found with ⟨-, same⟩ | ⟨n, loaded, replaced⟩ | ⟨cause, -, free, gone⟩
  · rw [same]
    exact h
  · rw [replaced]
    exact h.put ((h.placed name m found).loaded loaded)
  · rw [gone]
    exact h.erase free

theorem resolve {s : State} (h : s.index.WellFormed) (name : String) :
    (s.resolve lib name).2.index.WellFormed := by
  rw [State.resolve_index]
  split
  · exact h
  · rename_i found
    exact h.settle found

theorem lookups {s t : State} (h : s.index.WellFormed) (run : State.Lookups lib s t) :
    t.index.WellFormed := by
  induction run with
  | refl => exact h
  | tail _ step ih =>
    obtain ⟨name, rfl⟩ := step
    exact ih.resolve name

theorem upsert (h : i.WellFormed) {exists? : Path → Bool} {name : String} {file : Path}
    {tree : List Python.Statement} {m : Module} {after : Index} (nonempty : name ≠ "")
    (found : i.searchPath.moduleName file = some name)
    (ok : i.upsert exists? name (some file) tree = .ok (m, after)) : after.WellFormed := by
  unfold Index.upsert at ok
  split at ok
  · exact absurd ok (by simp)
  · rename_i free
    rw [Bool.not_eq_true] at free
    have placed : Placed i.searchPath name (.source (.ofTree name
        (some (Path.normalize i.searchPath.cwd file)) tree)) :=
      Placed.of_filed rfl free nonempty rfl (h.path.normalize_of_moduleName found)
        (h.path.moduleName_normalize found)
    simp only [Option.map_some] at ok
    split at ok
    · split at ok
      · exact absurd ok (by simp)
      · obtain ⟨rfl, rfl⟩ := Prod.mk.inj (Except.ok.inj ok)
        exact h.put placed
    · obtain ⟨rfl, rfl⟩ := Prod.mk.inj (Except.ok.inj ok)
      exact h.put placed

theorem remove (h : i.WellFormed) {exists? : Path → Bool} {file : Path} {removed : Bool}
    {after : Index} (ok : i.remove exists? file = .ok (removed, after)) : after.WellFormed := by
  simp only [Index.remove] at ok
  split at ok
  · exact absurd ok (by simp)
  · rename_i name named
    split at ok
    · rename_i indexed
      obtain ⟨backing, provided, -⟩ := (Option.any_eq_true _ _).mp indexed
      obtain ⟨m, found, backed⟩ := Option.bind_eq_some_iff.mp provided
      have free := (h.placed name m found).not_reserved backed
      have left := h.erase free
      split at ok
      · rename_i next successor
        obtain ⟨-, rfl⟩ := Prod.mk.inj (Except.ok.inj ok)
        have candidate : next ∈ i.searchPath.candidates name := List.mem_of_find?_eq_some successor
        have nonempty : name ≠ "" := ((h.placed name m found).of_file backed).1
        have normal : next.IsNormal := h.path.of_mem_candidates candidate
        have named : i.searchPath.moduleName next = some name :=
          SearchPath.moduleName_of_mem_candidates candidate
        exact left.put (Placed.of_filed rfl free nonempty rfl normal named)
      · obtain ⟨-, rfl⟩ := Prod.mk.inj (Except.ok.inj ok)
        exact left
    · obtain ⟨-, rfl⟩ := Prod.mk.inj (Except.ok.inj ok)
      exact h

theorem removeTree (h : i.WellFormed) {dir : Path} {removed : Nat} {after : Index}
    (ok : i.removeTree dir = .ok (removed, after)) : after.WellFormed := by
  simp only [Index.removeTree] at ok
  split at ok
  · exact absurd ok (by simp)
  · obtain ⟨-, rfl⟩ := Prod.mk.inj (Except.ok.inj ok)
    refine h.filter _ ?_
    intro name m found bare
    simp [isRemoved, bare]

end WellFormed

private theorem wellFormed_withBuiltins {s : SearchPath} (path : s.IsNormal)
    {modules : NameMap Module} (ordered : NameMap.Ordered modules)
    (placed : ∀ name m, Builtin.isReserved name = false → NameMap.get? modules name = some m →
      Placed s name m) : (⟨s, withBuiltins modules⟩ : Index).WellFormed := by
  refine ⟨path, ordered_withBuiltins ordered, ?_, ?_⟩
  · intro name m found
    rw [get?, get?_withBuiltins] at found
    split at found
    · rename_i reserved
      obtain rfl := Option.some.inj found
      exact Placed.placeholder_of_reserved reserved
    · rename_i free
      exact placed name m (Bool.eq_false_iff.mpr free) found
  · intro name reserved
    simp [contains, NameMap.contains, get?_withBuiltins, reserved]

theorem wellFormed_initial {cwd : Path} (home : cwd.isAbsolute) : (initial cwd).WellFormed :=
  wellFormed_withBuiltins (SearchPath.isNormal_empty home) NameMap.ordered_nil
    fun _ _ _ found => absurd found (by simp)

theorem WellFormed.rebuild {i : Index} (h : i.WellFormed) {s : SearchPath} (path : s.IsNormal)
    {files : List Path} (normal : ∀ file ∈ files, file.IsNormal) (cancel : Cancellation) :
    (i.rebuild s files cancel).2.WellFormed := by
  cases interrupted : cancel.interrupts files.length with
  | true =>
    rw [(rebuild_of_interrupts i s files interrupted).2]
    exact h
  | false =>
    rw [rebuild_of_not_interrupts i s files interrupted]
    refine wellFormed_withBuiltins path (ordered_foldl_add s files NameMap.ordered_nil) ?_
    intro name m free found
    have entry := get?_withBuiltins_foldl_add s files name
    rw [get?_withBuiltins, free, found, rebuilt, free] at entry
    simp only [Bool.false_eq_true, if_false] at entry
    split at entry
    · exact absurd entry (by simp)
    · rename_i nonempty
      obtain ⟨file, first, rfl⟩ := Option.map_eq_some_iff.mp entry.symm
      have named := List.find?_some first
      rw [decide_eq_true_eq] at named
      exact Placed.of_filed rfl free nonempty rfl (normal file (List.mem_of_find?_eq_some first))
        named

theorem addKey_cases (s : SearchPath) (modules : NameMap Module) (key : ModuleKey) :
    addKey s modules key = modules ∨
    (∃ file, key.file = some file ∧ Builtin.isReserved key.name = false ∧
      s.moduleName file = some key.name ∧
      addKey s modules key = NameMap.put modules key.name (.placeholder key)) := by
  unfold addKey NameMap.putNew
  split
  · exact Or.inl rfl
  · rename_i file backed
    split
    · exact Or.inl rfl
    · rename_i agrees
      simp only [Bool.or_eq_true, decide_eq_true_eq, not_or, Bool.not_eq_true, not_not] at agrees
      split
      · exact Or.inl rfl
      · exact Or.inr ⟨file, backed, agrees.1, agrees.2, rfl⟩

theorem wellFormed_ofKeys {s : SearchPath} (path : s.IsNormal) {keys : List ModuleKey}
    (clean : ∀ key ∈ keys, ∀ file, key.file = some file → key.name ≠ "" ∧ file.IsNormal) :
    (ofKeys s keys).WellFormed := by
  have fold : ∀ modules : NameMap Module, NameMap.Ordered modules →
      (∀ name m, NameMap.get? modules name = some m → Placed s name m) →
      NameMap.Ordered (keys.foldl (addKey s) modules) ∧
        ∀ name m, NameMap.get? (keys.foldl (addKey s) modules) name = some m → Placed s name m := by
    induction keys with
    | nil => exact fun modules ordered placed => ⟨ordered, placed⟩
    | cons key keys ih =>
      intro modules ordered placed
      rw [List.foldl_cons]
      have others := ih fun other member => clean other (List.mem_cons_of_mem _ member)
      rcases addKey_cases s modules key with same | ⟨file, backed, free, agrees, added⟩
      · rw [same]
        exact others modules ordered placed
      · rw [added]
        refine others _ (NameMap.ordered_put ordered _ _) ?_
        intro name m found
        rw [NameMap.get?_put] at found
        split at found
        · rename_i same
          obtain rfl := Option.some.inj found
          obtain ⟨nonempty, normal⟩ := clean key List.mem_cons_self file backed
          rw [same]
          exact Placed.of_filed rfl free nonempty backed normal agrees
        · exact placed name m found
  have all := fold [] NameMap.ordered_nil fun _ _ found => absurd found (by simp)
  exact wellFormed_withBuiltins path all.1 fun name m _ => all.2 name m

end Index

end ImportAtlas
