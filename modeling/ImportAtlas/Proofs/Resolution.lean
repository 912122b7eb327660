import ImportAtlas.Proofs.Reachable

/-!
A lookup concerns one entry: it answers what that entry becomes when it is loaded, and no other entry
changes.
-/

set_option autoImplicit false

namespace ImportAtlas

namespace Index

variable {lib : Library} {i : Index}

@[simp] theorem searchPath_settle (lib : Library) (i : Index) (m : Module) :
    (i.settle lib m).searchPath = i.searchPath := by
  cases m with
  | source m => rfl
  | builtin t => rfl
  | placeholder key =>
    simp only [settle]
    split <;> rfl

/-- Settling an entry concerns that entry alone: it is loaded, or gone if that fails. -/
theorem WellFormed.get?_settle (h : i.WellFormed) {name : String} {m : Module}
    (found : i.get? name = some m) (other : String) :
    (i.settle lib m).get? other =
      if other = name then (m.loaded lib).toOption else i.get? other := by
  rcases h.settle_cases lib found with ⟨loaded, same⟩ | ⟨n, loaded, replaced⟩ |
    ⟨cause, failed, -, gone⟩
  · rw [same, Module.loaded_of_isLoaded loaded]
    by_cases here : other = name
    · rw [if_pos here, here, found]
      rfl
    · rw [if_neg here]
  · rw [replaced, loaded, get?, Index.put, NameMap.get?_put]
    rfl
  · rw [gone, failed, get?, Index.erase, NameMap.get?_erase]
    rfl

theorem WellFormed.get?_resolve {s : State} (h : s.index.WellFormed) (name other : String) :
    (s.resolve lib name).2.index.get? other =
      if other = s.index.keyFor name then
        (s.index.get? other).bind fun m => (m.loaded lib).toOption
      else s.index.get? other := by
  rw [State.resolve_index]
  cases found : s.index.get? (s.index.keyFor name) with
  | none =>
    simp only
    split
    · rename_i same
      rw [same, found]
      rfl
    · rfl
  | some m =>
    simp only [h.get?_settle found]
    split
    · rename_i same
      rw [same, found]
      rfl
    · rfl

theorem searchPath_resolve (lib : Library) (name : String) (s : State) :
    (s.resolve lib name).2.index.searchPath = s.index.searchPath := by
  rw [State.resolve_index]
  split
  · rfl
  · exact searchPath_settle lib _ _

private theorem isLoaded_of_answer {name : String} {m : Module} (h : i.answer lib name = .ok m) :
    m.isLoaded := by
  unfold answer at h
  split at h
  · exact absurd h (by simp)
  · exact (Module.key_of_loaded h).2.2

private theorem WellFormed.keys_put (h : i.WellFormed) {name : String} {m n : Module}
    (found : i.get? name = some m) (after : (i.put name n).WellFormed) (same : n.key = m.key) :
    (i.put name n).keys = i.keys := by
  rw [after.keys_eq, h.keys_eq]
  exact NameMap.map_put h.ordered found same

end Index

namespace Engine

/-- A lookup asks for the entry of the name itself, or else for that of the initializer below it. It
never answers a placeholder. A name without an entry cannot be resolved, and a loaded module is the
answer as it is. A built-in name always gets its module. A placeholder with a file is replaced by the
module of the file under the same key, or is gone and the failure tells why. No other entry
changes. -/
theorem resolve_settles_one_entry {e : Engine} (run : Reachable e) (lib : Library)
    (name : String) :
    let i := e.state.index
    let k := if i.contains name then name else name ++ "." ++ Path.packageInit
    let answer := (e.state.resolve lib name).1
    let after := (e.state.resolve lib name).2.index
    (∀ m, answer = .ok m → m.isLoaded) ∧
    after.searchPath = i.searchPath ∧
    (∀ other, other ≠ k → after.get? other = i.get? other) ∧
    (i.get? k = none → e.state.resolve lib name = (.error (.unresolvable name), e.state)) ∧
    (∀ m, i.get? k = some m → m.isLoaded → e.state.resolve lib name = (.ok m, e.state)) ∧
    (∀ key, i.get? k = some (.placeholder key) → key.file = none →
      ∃ t, Builtin.ofName? k = some t ∧ answer = .ok (.builtin t) ∧
        after = i.put k (.builtin t)) ∧
    (∀ key file, i.get? k = some (.placeholder key) → key.file = some file →
      (∀ text tree, lib.sources.read file = .ok text → lib.parser text = .ok tree →
        let m : Module := .source (.ofTree k (some file) tree)
        m.key = key ∧ answer = .ok m ∧ after = i.put k m ∧ after.keys = i.keys) ∧
      (∀ cause, lib.sources.read file = .error cause →
        answer = .error
          (if cause.cause = .notFound then .stale k file else .unreadable file cause) ∧
        after = i.erase k ∧ after.get? k = none) ∧
      (∀ text cause, lib.sources.read file = .ok text → lib.parser text = .error cause →
        answer = .error (.unparsable file.text cause) ∧
        after = i.erase k ∧ after.get? k = none)) := by
  intro i k answer after
  have h : i.WellFormed := run.wellFormed
  have answered : answer = i.answer lib name := State.resolve_fst lib name e.state
  have asked : ∀ {m}, i.get? k = some m → answer = m.loaded lib :=
    fun found => answered.trans (Index.answer_of_get? found)
  have settled : ∀ {m}, i.get? k = some m → after = i.settle lib m :=
    State.resolve_index_of_get?
  have gone : (i.erase k).get? k = none := by
    rw [Index.get?, Index.erase, NameMap.get?_erase, if_pos rfl]
  refine ⟨?_, Index.searchPath_resolve lib name e.state, ?_, ?_, ?_, ?_, ?_⟩
  · intro m ok
    rw [answered] at ok
    exact Index.isLoaded_of_answer ok
  · intro other different
    rw [h.get?_resolve name other]
    exact if_neg different
  · exact State.resolve_of_missing
  · intro m found loaded
    exact State.resolve_of_isLoaded found loaded
  · rintro ⟨own, file⟩ found bare
    obtain rfl : own = k := (h.placed k _ found).named
    obtain rfl : file = none := bare
    obtain ⟨t, known, -⟩ := (h.placed _ _ found).of_no_file rfl
    rw [asked found, settled found]
    refine ⟨t, known, ?_, ?_⟩
    · simp only [Module.loaded, known]
    · simp only [Index.settle, Module.loaded, known]
  · rintro ⟨own, backing⟩ file found backed
    obtain rfl : own = k := (h.placed k _ found).named
    obtain rfl : backing = some file := backed
    have fails : ∀ cause, (Module.placeholder ⟨k, some file⟩).loaded lib = .error cause →
        answer = .error cause ∧ after = i.erase k ∧ after.get? k = none := by
      intro cause failed
      have removed : after = i.erase k := (settled found).trans (Index.settle_of_failed rfl failed)
      exact ⟨(asked found).trans failed, removed, removed ▸ gone⟩
    refine ⟨?_, ?_, ?_⟩
    · intro text tree reads parses m
      have ok : (Module.placeholder ⟨k, some file⟩).loaded lib = .ok m := by
        simp only [Module.loaded, reads, parses]
        rfl
      have replaced : after = i.put k m := (settled found).trans (Index.settle_of_loaded ok)
      have wellFormed : (i.put k m).WellFormed := h.put ((h.placed _ _ found).loaded ok)
      refine ⟨rfl, (asked found).trans ok, replaced, ?_⟩
      rw [replaced]
      exact h.keys_put found wellFormed rfl
    · intro cause unread
      apply fails
      simp only [Module.loaded, unread]
      rfl
    · intro text cause reads unparsed
      apply fails
      simp only [Module.loaded, reads, unparsed]

theorem resolve_settles_one_entry_stale :
    let h : Host := ⟨.ofEntries ⟨"/"⟩ [], ⟨"/"⟩, ⟨0, 0⟩⟩
    let lib : Library :=
      ⟨⟨fun _ => .error ⟨.notFound, "gone"⟩, fun file => file = ⟨"/b/x.py"⟩⟩, fun _ => .ok []⟩
    let fresh := ((initial {} ⟨"/"⟩).rebuild "/a:/b" .never h).2.1
    let changed := fresh.withState (fresh.state.changeFile lib ⟨"/a/x.py"⟩ "").2
    let e := changed.withState (changed.state.removeFile lib ⟨"/a/x.py"⟩).2
    Reachable e ∧ e.state.index.names = ["__builtin__", "sys", "x"] ∧
      (e.state.resolve lib "x").1 = .error (.stale "x" ⟨"/b/x.py"⟩) ∧
      (e.state.resolve lib "x").2.index.get? "x" = none := by
  intro h lib fresh changed e
  have home : (⟨"/"⟩ : Path).isAbsolute := by decide
  have run : Reachable e :=
    .removeFile (.changeFile (.rebuild (.initial {} home) _ .never home) lib _ _) lib _
  obtain ⟨names, own, entry⟩ :
      e.state.index.names = ["__builtin__", "sys", "x"] ∧ e.state.index.contains "x" ∧
        ((e.state.index.get? "x").map fun m => (m.key, m.isLoaded)) =
          some (⟨"x", some ⟨"/b/x.py"⟩⟩, false) := by decide +kernel
  obtain ⟨m, found, same⟩ := Option.map_eq_some_iff.mp entry
  obtain rfl := Module.eq_placeholder_iff.mpr (Prod.mk.inj same)
  obtain ⟨-, -, -, -, -, -, filed⟩ := resolve_settles_one_entry run lib "x"
  simp only [own, if_true] at filed
  obtain ⟨-, stale, -⟩ := filed _ ⟨"/b/x.py"⟩ found rfl
  obtain ⟨answered, -, gone⟩ := stale ⟨.notFound, "gone"⟩ rfl
  exact ⟨run, names, answered, gone⟩

end Engine

end ImportAtlas
