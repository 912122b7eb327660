import ImportAtlas.Proofs.Resolution

/-!
What lookups leave of an index. A module that can be loaded stays as it is; an entry that cannot be
loaded is lost when it is asked for. So a later lookup finds what an earlier one would have found,
but for one case: where a name has lost its own entry to the lookup of another name, it falls back to
the initializer below it.
-/

set_option autoImplicit false

namespace ImportAtlas.Index

def initializer (name : String) : String :=
  name ++ "." ++ Path.packageInit

def load? (lib : Library) (i : Index) (name : String) : Option Module :=
  (i.get? name).bind fun m => (m.loaded lib).toOption

variable {lib : Library} {i j k : Index}

theorem keyFor_of_contains {name : String} (h : i.contains name) : i.keyFor name = name :=
  if_pos h

theorem keyFor_of_not_contains {name : String} (h : i.contains name = false) :
    i.keyFor name = initializer name := by
  unfold keyFor
  rw [h]
  rfl

theorem answer_eq_ok_iff {name : String} {m : Module} :
    i.answer lib name = .ok m ↔ i.load? lib (i.keyFor name) = some m := by
  unfold answer load?
  cases i.get? (i.keyFor name) with
  | none => simp
  | some n =>
    simp only [Option.bind_some]
    cases n.loaded lib <;> simp [Except.toOption]

theorem contains_of_load? {name : String} {m : Module} (h : i.load? lib name = some m) :
    i.contains name := by
  obtain ⟨n, found, -⟩ := Option.bind_eq_some_iff.mp h
  exact Option.isSome_of_eq_some found

theorem isLoaded_of_load? {name : String} {m : Module} (h : i.load? lib name = some m) :
    m.isLoaded := by
  obtain ⟨n, -, made⟩ := Option.bind_eq_some_iff.mp h
  cases loaded : n.loaded lib with
  | error cause => simp [loaded, Except.toOption] at made
  | ok m' =>
    simp only [loaded, Except.toOption, Option.some.injEq] at made
    exact made ▸ (Module.key_of_loaded loaded).2.2

theorem WellFormed.name_of_load? (h : i.WellFormed) {name : String} {m : Module}
    (made : i.load? lib name = some m) : m.name = name := by
  obtain ⟨n, found, made⟩ := Option.bind_eq_some_iff.mp made
  cases loaded : n.loaded lib with
  | error cause => simp [loaded, Except.toOption] at made
  | ok m' =>
    simp only [loaded, Except.toOption, Option.some.injEq] at made
    rw [← made, (Module.key_of_loaded loaded).1]
    exact (h.placed name n found).named

/-- Whether an index can come from another by lookups: every entry makes the module it made before,
and there is no new name. -/
structure Later (lib : Library) (i j : Index) : Prop where
  loads : ∀ name, j.load? lib name = i.load? lib name
  names : ∀ name, j.contains name → i.contains name

theorem Later.refl (i : Index) : Later lib i i :=
  ⟨fun _ => rfl, fun _ => id⟩

theorem Later.trans (h : Later lib i j) (h' : Later lib j k) : Later lib i k :=
  ⟨fun name => (h'.loads name).trans (h.loads name), fun name => h.names name ∘ h'.names name⟩

theorem WellFormed.later_resolve {s : State} (h : s.index.WellFormed) (name : String) :
    Later lib s.index (s.resolve lib name).2.index := by
  constructor
  · intro other
    rw [load?, h.get?_resolve]
    split
    · -- What the entry makes is loaded, so that it makes the same again.
      cases made : s.index.load? lib other with
      | none =>
        rw [load?] at made
        rw [made]
        rfl
      | some m =>
        have loaded : m.loaded lib = .ok m := Module.loaded_of_isLoaded (isLoaded_of_load? made)
        rw [load?] at made
        rw [made]
        simp [loaded, Except.toOption]
    · rfl
  · intro other present
    rw [contains, NameMap.contains, ← get?, h.get?_resolve] at present
    split at present
    · obtain ⟨m, made⟩ := Option.isSome_iff_exists.mp present
      rw [← load?] at made
      exact contains_of_load? made
    · exact present

/-- The names whose entry, which cannot be loaded, is lost when another name is asked for: that of
the initializer below a name without an entry, or below a name whose entry is lost in this way. -/
inductive Exposed (lib : Library) (i : Index) : String → Prop
  | absent {name : String} (missing : i.contains name = false)
      (indexed : i.contains (initializer name))
      (broken : i.load? lib (initializer name) = none) : Exposed lib i (initializer name)
  | lost {name : String} (above : Exposed lib i name) (indexed : i.contains (initializer name))
      (broken : i.load? lib (initializer name) = none) : Exposed lib i (initializer name)

/-- What a walk keeps of the index it began in: an entry is lost only if its name has been visited or
is exposed. -/
structure Kept (lib : Library) (i : Index) (visited : List String) (j : Index) : Prop where
  wellFormed : j.WellFormed
  later : Later lib i j
  lost : ∀ name, i.contains name → j.contains name = false → name ∈ visited ∨ Exposed lib i name

theorem Kept.start (lib : Library) (h : i.WellFormed) : Kept lib i [] i := by
  refine ⟨h, Later.refl i, ?_⟩
  intro name before after
  rw [before] at after
  exact absurd after (by simp)

theorem Kept.mono {visited visited' : List String} (h : Kept lib i visited j)
    (sub : visited ⊆ visited') : Kept lib i visited' j :=
  ⟨h.wellFormed, h.later, fun name before after =>
    (h.lost name before after).imp_left fun member => sub member⟩

private theorem Kept.resolve {s : State} {visited : List String} (h : Kept lib i visited s.index)
    {target : String} (fresh : target ∉ visited) :
    Kept lib i (target :: visited) (s.resolve lib target).2.index := by
  refine ⟨h.wellFormed.resolve target, h.later.trans (h.wellFormed.later_resolve target), ?_⟩
  intro name before after
  cases present : s.index.contains name with
  | false => exact (h.lost name before present).imp_left (List.mem_cons_of_mem _)
  | true =>
    -- The entry has just been lost, so that it is the one asked for, and it makes no module.
    rw [contains, NameMap.contains, ← get?, h.wellFormed.get?_resolve] at after
    split at after
    · rename_i asked
      have broken : i.load? lib name = none := by
        rw [← h.later.loads]
        exact Option.isNone_iff_eq_none.mp (Option.isSome_eq_false_iff.mp after)
      cases own : s.index.contains target with
      | true =>
        rw [keyFor_of_contains own] at asked
        exact Or.inl (asked ▸ List.mem_cons_self)
      | false =>
        rw [keyFor_of_not_contains own] at asked
        subst asked
        right
        cases missing : i.contains target with
        | false => exact Exposed.absent missing before broken
        | true =>
          rcases h.lost target missing own with member | exposed
          · exact absurd member fresh
          · exact Exposed.lost exposed before broken
    · rw [contains, NameMap.contains, ← get?, after] at present
      exact absurd present (by simp)

theorem Kept.of_resolve {s t : State} {visited : List String} (h : Kept lib i visited s.index)
    {target : String} (fresh : target ∉ visited) {result : Except Failure Module}
    (answer : s.resolve lib target = (result, t)) :
    Kept lib i (target :: visited) t.index ∧ s.index.answer lib target = result := by
  have next := h.resolve fresh
  rw [answer] at next
  refine ⟨next, ?_⟩
  rw [← State.resolve_fst, answer]

theorem Later.answer (h : Later lib i j) {target : String} {m : Module}
    (ok : i.answer lib target = .ok m) : j.answer lib target = .ok m := by
  rw [answer_eq_ok_iff] at ok ⊢
  cases before : i.contains target with
  | true =>
    rw [keyFor_of_contains before] at ok
    rw [← h.loads] at ok
    rw [keyFor_of_contains (contains_of_load? ok)]
    exact ok
  | false =>
    have after : j.contains target = false := by
      rw [Bool.eq_false_iff]
      intro present
      rw [h.names target present] at before
      exact absurd before (by simp)
    rw [keyFor_of_not_contains before] at ok
    rw [keyFor_of_not_contains after, h.loads]
    exact ok

/-- What a target resolves to in a walk it resolves to at first, unless its own entry has been lost in
the meantime. -/
theorem Kept.answer {visited : List String} (h : Kept lib i visited j) {target : String}
    (fresh : target ∉ visited) {m : Module} (ok : j.answer lib target = .ok m) :
    i.answer lib target = .ok m ∨
      Exposed lib i target ∧ i.load? lib (initializer target) = some m := by
  rw [answer_eq_ok_iff] at ok ⊢
  rw [h.later.loads] at ok
  cases after : j.contains target with
  | true =>
    rw [keyFor_of_contains after] at ok
    rw [keyFor_of_contains (h.later.names target after)]
    exact Or.inl ok
  | false =>
    rw [keyFor_of_not_contains after] at ok
    cases before : i.contains target with
    | false =>
      rw [keyFor_of_not_contains before]
      exact Or.inl ok
    | true =>
      rcases h.lost target before after with member | exposed
      · exact absurd member fresh
      · exact Or.inr ⟨exposed, ok⟩

end ImportAtlas.Index
