import ImportAtlas.Index.Resolve
import ImportAtlas.Proofs.Table

/-!
What a lookup answers and what it does to the index. Both depend on the index and the library alone:
the entry that is asked for is loaded, or leaves the index if that fails.
-/

set_option autoImplicit false

namespace ImportAtlas

theorem Builtin.name_of_ofName? {name : String} {t : Builtin.Table}
    (h : Builtin.ofName? name = some t) : t.name = name := by
  unfold Builtin.ofName? at h
  split at h
  · rename_i ambient
    obtain rfl := Option.some.inj h
    exact ambient.symm
  · split at h
    · rename_i system
      obtain rfl := Option.some.inj h
      exact system.symm
    · simp at h

namespace Module

/-- What a module becomes when it is asked for: a placeholder is loaded, any other module stays as it
is. -/
def loaded (lib : Library) : Module → Except Failure Module
  | .placeholder ⟨name, none⟩ =>
    match Builtin.ofName? name with
    | some table => .ok (.builtin table)
    | none => .error (.unresolvable name)
  | .placeholder ⟨name, some file⟩ =>
    match lib.sources.read file with
    | .error cause => .error (.ofRead name file cause)
    | .ok text =>
      match lib.parser text with
      | .error cause => .error (.unparsable file.text cause)
      | .ok tree => .ok (.source (.ofTree name (some file) tree))
  | m => .ok m

theorem eq_placeholder_iff {m : Module} {key : ModuleKey} :
    m = .placeholder key ↔ m.key = key ∧ m.isLoaded = false := by
  cases m with
  | placeholder own => simp [Module.key, name, file, isLoaded]
  | source m => simp [isLoaded]
  | builtin t => simp [isLoaded]

variable {lib : Library}

theorem loaded_of_isLoaded {m : Module} (h : m.isLoaded) : m.loaded lib = .ok m := by
  cases m with
  | placeholder key => simp [isLoaded] at h
  | source m => rfl
  | builtin t => rfl

theorem key_of_loaded {m n : Module} (h : m.loaded lib = .ok n) :
    n.name = m.name ∧ n.file = m.file ∧ n.isLoaded := by
  cases m with
  | placeholder key =>
    obtain ⟨name, file⟩ := key
    cases file with
    | none =>
      simp only [loaded] at h
      split at h
      · rename_i table found
        obtain rfl := Except.ok.inj h
        exact ⟨Builtin.name_of_ofName? found, rfl, rfl⟩
      · simp at h
    | some file =>
      simp only [loaded] at h
      split at h
      · simp at h
      · split at h
        · simp at h
        · obtain rfl := Except.ok.inj h
          exact ⟨rfl, rfl, rfl⟩
  | source m =>
    obtain rfl := Except.ok.inj h
    exact ⟨rfl, rfl, rfl⟩
  | builtin t =>
    obtain rfl := Except.ok.inj h
    exact ⟨rfl, rfl, rfl⟩

end Module

namespace Index

/-- The name under which the entry stands that a name asks for. -/
def keyFor (i : Index) (name : String) : String :=
  if i.contains name then name else name ++ "." ++ Path.packageInit

theorem contains_eq_false_iff {i : Index} {name : String} :
    i.contains name = false ↔ i.get? name = none := by
  unfold contains NameMap.contains get?
  rw [Option.isSome_eq_false_iff, Option.isNone_iff_eq_none]

theorem entryFor_eq (i : Index) (name : String) : i.entryFor name = i.get? (i.keyFor name) := by
  unfold entryFor keyFor contains NameMap.contains
  cases found : i.get? name with
  | none =>
    rw [get?] at found
    simp [found]
  | some m =>
    rw [get?] at found
    simp [found, get?]

def answer (lib : Library) (i : Index) (name : String) : Except Failure Module :=
  match i.get? (i.keyFor name) with
  | none => .error (.unresolvable name)
  | some m => m.loaded lib

theorem answer_of_get? {lib : Library} {i : Index} {name : String} {m : Module}
    (found : i.get? (i.keyFor name) = some m) : i.answer lib name = m.loaded lib := by
  rw [answer, found]

/-- The index once a module has been asked for: the module that a placeholder stands for is in its
place, and a placeholder whose file makes no module is gone. -/
def settle (lib : Library) (i : Index) : Module → Index
  | .placeholder key =>
    match (Module.placeholder key).loaded lib, key.file with
    | .ok m, _ => i.put key.name m
    | .error _, some _ => i.erase key.name
    | .error _, none => i
  | _ => i

variable {lib : Library} {i : Index} {key : ModuleKey}

theorem settle_of_loaded {m : Module} (ok : (Module.placeholder key).loaded lib = .ok m) :
    i.settle lib (.placeholder key) = i.put key.name m := by
  simp only [settle, ok]

theorem settle_of_failed {file : Path} {cause : Failure} (backed : key.file = some file)
    (failed : (Module.placeholder key).loaded lib = .error cause) :
    i.settle lib (.placeholder key) = i.erase key.name := by
  simp only [settle, failed, backed]

end Index

namespace State

private theorem load_eq (lib : Library) (key : ModuleKey) (s : State) :
    (s.load lib key).1 = (Module.placeholder key).loaded lib ∧
      (s.load lib key).2.index = s.index.settle lib (.placeholder key) := by
  obtain ⟨name, file⟩ := key
  cases file with
  | none =>
    simp only [load, Index.settle, Module.loaded]
    cases Builtin.ofName? name with
    | none => exact ⟨rfl, rfl⟩
    | some table => exact ⟨rfl, rfl⟩
  | some file =>
    simp only [load, readModule, parseModule, Index.settle, Module.loaded, log]
    cases lib.sources.read file with
    | error cause => exact ⟨rfl, rfl⟩
    | ok text =>
      simp only
      cases lib.parser text with
      | error cause => exact ⟨rfl, rfl⟩
      | ok tree => exact ⟨rfl, rfl⟩

theorem resolve_fst (lib : Library) (name : String) (s : State) :
    (s.resolve lib name).1 = s.index.answer lib name := by
  unfold resolve Index.answer
  rw [Index.entryFor_eq]
  cases s.index.get? (s.index.keyFor name) with
  | none => rfl
  | some m =>
    cases m with
    | placeholder key => exact (load_eq lib key s).1
    | source m => rfl
    | builtin t => rfl

theorem resolve_index (lib : Library) (name : String) (s : State) :
    (s.resolve lib name).2.index =
      match s.index.get? (s.index.keyFor name) with
      | none => s.index
      | some m => s.index.settle lib m := by
  unfold resolve
  rw [Index.entryFor_eq]
  cases s.index.get? (s.index.keyFor name) with
  | none => rfl
  | some m =>
    cases m with
    | placeholder key => exact (load_eq lib key s).2
    | source m => rfl
    | builtin t => rfl

theorem resolve_index_of_get? {lib : Library} {name : String} {s : State} {m : Module}
    (found : s.index.get? (s.index.keyFor name) = some m) :
    (s.resolve lib name).2.index = s.index.settle lib m := by
  rw [resolve_index, found]

theorem resolve_of_missing {lib : Library} {name : String} {s : State}
    (missing : s.index.get? (s.index.keyFor name) = none) :
    s.resolve lib name = (.error (.unresolvable name), s) := by
  unfold resolve
  rw [Index.entryFor_eq, missing]

theorem resolve_of_isLoaded {lib : Library} {name : String} {s : State} {m : Module}
    (found : s.index.get? (s.index.keyFor name) = some m) (loaded : m.isLoaded) :
    s.resolve lib name = (.ok m, s) := by
  unfold resolve
  rw [Index.entryFor_eq, found]
  cases m with
  | placeholder key => simp [Module.isLoaded] at loaded
  | source m => rfl
  | builtin t => rfl

end State

end ImportAtlas
