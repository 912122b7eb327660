import ImportAtlas.Proofs.Later
import ImportAtlas.Proofs.SymbolSets

/-!
The walk along wildcard imports without a bound on its depth. It always comes to an end, since each
step down visits one more of the names that can resolve at all; the bound of the program is above
their number.
-/

set_option autoImplicit false

namespace ImportAtlas.Completion

structure Ask where
  target : String
  found : Option Module

/-- How a walk follows a list of wildcard imports, and what it asks for on the way. A target that has
been visited is passed over; a module that is found is entered and its wildcard imports are followed
first. -/
inductive Follows (lib : Library) : List Symbol → Walk → List Ask → Walk → Prop
  | done (w : Walk) : Follows lib [] w [] w
  | seen {x : Symbol} {rest : List Symbol} {w w' : Walk} {asks : List Ask}
      (visited : x.path ∈ w.visited) (later : Follows lib rest w asks w') :
      Follows lib (x :: rest) w asks w'
  | failed {x : Symbol} {rest : List Symbol} {w w' : Walk} {asks : List Ask} {cause : Failure}
      {s : State} (fresh : x.path ∉ w.visited)
      (answer : w.state.resolve lib x.path = (.error cause, s))
      (later : Follows lib rest ⟨w.symbols, x.path :: w.visited, s⟩ asks w') :
      Follows lib (x :: rest) w (⟨x.path, none⟩ :: asks) w'
  | found {x : Symbol} {rest : List Symbol} {w inner w' : Walk} {below asks : List Ask} {m : Module}
      {s : State} (fresh : x.path ∉ w.visited)
      (answer : w.state.resolve lib x.path = (.ok m, s))
      (inside : Follows lib m.wildcards (enter m (x.path :: w.visited) s) below inner)
      (later : Follows lib rest
        ⟨w.symbols.insertAll inner.symbols.toList, inner.visited, inner.state⟩ asks w') :
      Follows lib (x :: rest) w (⟨x.path, some m⟩ :: below ++ asks) w'

section Step

variable {lib : Library} {expand : Module → Visited → State → Walk} {w : Walk} {x : Symbol}
  {s : State}

theorem followWildcard_of_visited (visited : x.path ∈ w.visited) :
    followWildcard lib expand w x = w := by
  simp [followWildcard, visited]

theorem followWildcard_of_failed (fresh : x.path ∉ w.visited) {cause : Failure}
    (answer : w.state.resolve lib x.path = (.error cause, s)) :
    followWildcard lib expand w x = ⟨w.symbols, x.path :: w.visited, s⟩ := by
  simp [followWildcard, fresh, answer]

theorem followWildcard_of_found (fresh : x.path ∉ w.visited) {m : Module}
    (answer : w.state.resolve lib x.path = (.ok m, s)) :
    followWildcard lib expand w x =
      let inner := expand m (x.path :: w.visited) s
      ⟨w.symbols.insertAll inner.symbols.toList, inner.visited, inner.state⟩ := by
  simp [followWildcard, fresh, answer]

end Step

theorem mem_visit {visited : Visited} {name other : String} :
    other ∈ visit visited name ↔ other ∈ visited ∨ (other = name ∧ name ≠ "") := by
  unfold visit
  split
  · rename_i stays
    simp only [Bool.or_eq_true, decide_eq_true_eq, List.contains_iff_mem] at stays
    refine ⟨Or.inl, ?_⟩
    rintro (member | ⟨rfl, nonempty⟩)
    · exact member
    · exact stays.resolve_left nonempty
  · rename_i added
    simp only [Bool.or_eq_true, decide_eq_true_eq, not_or] at added
    rw [List.mem_cons, or_comm]
    exact or_congr_right ⟨fun same => ⟨same, added.1⟩, And.left⟩

theorem subset_visit (visited : Visited) (name : String) : visited ⊆ visit visited name :=
  fun _ member => mem_visit.mpr (Or.inl member)

theorem mem_symbols_enter {m : Module} {visited : Visited} {s : State} {y : Symbol}
    (h : y ∈ (enter m visited s).symbols.toList) : y ∈ m.globals ++ m.imports := by
  rcases SymbolSet.mem_insertAll h with own | imported
  · rcases SymbolSet.mem_insertAll own with nothing | own
    · simp at nothing
    · exact List.mem_append_left _ own
  · exact List.mem_append_right _ imported

theorem mem_ids_enter {m : Module} {visited : Visited} {s : State} {y : Symbol}
    (h : y ∈ m.globals ++ m.imports) : y.id ∈ (enter m visited s).symbols.ids := by
  apply SymbolSet.mem_ids_insertAll.mpr
  rcases List.mem_append.mp h with own | imported
  · left
    apply SymbolSet.mem_ids_insertAll.mpr
    exact Or.inr (List.mem_map_of_mem own)
  · right
    exact List.mem_map_of_mem imported

namespace Follows

variable {lib : Library} {xs : List Symbol} {w w' : Walk} {asks : List Ask}

theorem visited_subset (h : Follows lib xs w asks w') : w.visited ⊆ w'.visited := by
  induction h with
  | done w => exact List.Subset.refl _
  | seen _ _ ih => exact ih
  | failed _ _ _ ih => exact fun name member => ih (List.mem_cons_of_mem _ member)
  | found _ _ _ _ ih_inside ih_later =>
    intro name member
    apply ih_later
    apply ih_inside
    exact subset_visit _ _ (List.mem_cons_of_mem _ member)

private theorem visited_subset_of_enter {m : Module} {visited : Visited} {s : State}
    (h : Follows lib xs (enter m visited s) asks w') : visited ⊆ w'.visited :=
  fun _ member => h.visited_subset (subset_visit _ _ member)

private theorem deterministic (h : Follows lib xs w asks w') {asks' : List Ask} {w'' : Walk}
    (h' : Follows lib xs w asks' w'') : asks = asks' ∧ w' = w'' := by
  induction h generalizing asks' w'' with
  | done w =>
    cases h'
    exact ⟨rfl, rfl⟩
  | seen visited _ ih =>
    cases h' with
    | seen _ later => exact ih later
    | failed fresh => exact absurd visited fresh
    | found fresh => exact absurd visited fresh
  | failed fresh answer _ ih =>
    cases h' with
    | seen visited => exact absurd visited fresh
    | failed _ answer' later =>
      obtain ⟨-, rfl⟩ := Prod.mk.inj (answer.symm.trans answer')
      obtain ⟨rfl, rfl⟩ := ih later
      exact ⟨rfl, rfl⟩
    | found _ answer' => simp [answer] at answer'
  | found fresh answer _ _ ih_inside ih_later =>
    cases h' with
    | seen visited => exact absurd visited fresh
    | failed _ answer' => simp [answer] at answer'
    | found _ answer' inside later =>
      obtain ⟨same, rfl⟩ := Prod.mk.inj (answer.symm.trans answer')
      obtain rfl := Except.ok.inj same
      obtain ⟨rfl, rfl⟩ := ih_inside inside
      obtain ⟨rfl, rfl⟩ := ih_later later
      exact ⟨rfl, rfl⟩

/-- What is asked for has not been visited before and is visited afterwards, and nothing is asked for
twice. -/
theorem asked (h : Follows lib xs w asks w') :
    (∀ ask ∈ asks, ask.target ∉ w.visited ∧ ask.target ∈ w'.visited) ∧
      (asks.map Ask.target).Nodup := by
  induction h with
  | done w => simp
  | seen _ _ ih => exact ih
  | failed fresh _ later ih =>
    constructor
    · intro ask member
      rcases List.mem_cons.mp member with rfl | member
      · exact ⟨fresh, later.visited_subset List.mem_cons_self⟩
      · obtain ⟨unseen, seen⟩ := ih.1 ask member
        exact ⟨fun before => unseen (List.mem_cons_of_mem _ before), seen⟩
    · refine List.nodup_cons.mpr ⟨?_, ih.2⟩
      intro again
      obtain ⟨ask, member, same⟩ := List.mem_map.mp again
      exact (ih.1 ask member).1 (same ▸ List.mem_cons_self)
  | found fresh _ inside later ih_inside ih_later =>
    rename_i x rest w inner w' below asks m s _
    have entered : x.path :: w.visited ⊆ inner.visited := inside.visited_subset_of_enter
    constructor
    · intro ask member
      rcases List.mem_cons.mp member with rfl | member
      · exact ⟨fresh, later.visited_subset (entered List.mem_cons_self)⟩
      rcases List.mem_append.mp member with member | member
      · obtain ⟨unseen, seen⟩ := ih_inside.1 ask member
        have fresh : ask.target ∉ w.visited := by
          intro before
          exact unseen (subset_visit _ _ (List.mem_cons_of_mem _ before))
        exact ⟨fresh, later.visited_subset seen⟩
      · obtain ⟨unseen, seen⟩ := ih_later.1 ask member
        have fresh : ask.target ∉ w.visited := by
          intro before
          exact unseen (entered (List.mem_cons_of_mem _ before))
        exact ⟨fresh, seen⟩
    · rw [List.cons_append, List.map_cons, List.map_append]
      refine List.nodup_cons.mpr ⟨?_, List.nodup_append.mpr ⟨ih_inside.2, ih_later.2, ?_⟩⟩
      · intro again
        rcases List.mem_append.mp again with again | again
        · obtain ⟨ask, member, same⟩ := List.mem_map.mp again
          exact (ih_inside.1 ask member).1 (subset_visit _ _ (same ▸ List.mem_cons_self))
        · obtain ⟨ask, member, same⟩ := List.mem_map.mp again
          exact (ih_later.1 ask member).1 (entered (same ▸ List.mem_cons_self))
      · intro target first other second equal
        obtain ⟨ask, member, rfl⟩ := List.mem_map.mp first
        obtain ⟨ask', member', rfl⟩ := List.mem_map.mp second
        exact (ih_later.1 ask' member').1 (equal ▸ (ih_inside.1 ask member).2)

theorem mem_symbols (h : Follows lib xs w asks w') {y : Symbol} (member : y ∈ w'.symbols.toList) :
    y ∈ w.symbols.toList ∨ ∃ ask ∈ asks, ∃ m, ask.found = some m ∧ y ∈ m.globals ++ m.imports := by
  induction h with
  | done w => exact Or.inl member
  | seen _ _ ih => exact ih member
  | failed _ _ _ ih =>
    rcases ih member with before | ⟨ask, inside, rest⟩
    · exact Or.inl before
    · exact Or.inr ⟨ask, List.mem_cons_of_mem _ inside, rest⟩
  | @found x _ _ _ _ below _ m _ _ _ _ _ ih_inside ih_later =>
    rcases ih_later member with before | ⟨ask, inside, rest⟩
    · rcases SymbolSet.mem_insertAll before with old | inner
      · exact Or.inl old
      · rcases ih_inside inner with own | ⟨ask, inside, rest⟩
        · exact Or.inr ⟨⟨x.path, some m⟩, List.mem_cons_self, m, rfl, mem_symbols_enter own⟩
        · exact Or.inr ⟨ask, List.mem_cons_of_mem _ (List.mem_append_left _ inside), rest⟩
    · exact Or.inr ⟨ask, List.mem_cons_of_mem _ (List.mem_append_right _ inside), rest⟩

theorem ids_subset (h : Follows lib xs w asks w') : w.symbols.ids ⊆ w'.symbols.ids := by
  induction h with
  | done w => exact List.Subset.refl _
  | seen _ _ ih => exact ih
  | failed _ _ _ ih => exact ih
  | found _ _ _ _ _ ih_later =>
    exact fun a member => ih_later (SymbolSet.mem_ids_insertAll.mpr (Or.inl member))

theorem mem_ids (h : Follows lib xs w asks w') {ask : Ask} (member : ask ∈ asks) {m : Module}
    (found : ask.found = some m) {y : Symbol} (own : y ∈ m.globals ++ m.imports) :
    y.id ∈ w'.symbols.ids := by
  induction h with
  | done w => simp at member
  | seen _ _ ih => exact ih member
  | failed _ _ _ ih =>
    rcases List.mem_cons.mp member with rfl | member
    · simp at found
    · exact ih member
  | found _ _ inside later ih_inside ih_later =>
    have merged : ∀ a ∈ _, a ∈ _ := fun a inner =>
      later.ids_subset (SymbolSet.mem_ids_insertAll.mpr (Or.inr inner))
    rcases List.mem_cons.mp member with rfl | member
    · obtain rfl := Option.some.inj found
      exact merged _ (inside.ids_subset (mem_ids_enter own))
    rcases List.mem_append.mp member with member | member
    · exact merged _ (ih_inside member)
    · exact ih_later member

theorem visited_of_wildcard (h : Follows lib xs w asks w') :
    (∀ x ∈ xs, x.path ∈ w'.visited) ∧
      ∀ ask ∈ asks, ∀ m, ask.found = some m → ∀ x ∈ m.wildcards, x.path ∈ w'.visited := by
  induction h with
  | done w => simp
  | seen visited later ih =>
    refine ⟨?_, ih.2⟩
    intro x member
    rcases List.mem_cons.mp member with rfl | member
    · exact later.visited_subset visited
    · exact ih.1 x member
  | failed _ _ later ih =>
    constructor
    · intro x member
      rcases List.mem_cons.mp member with rfl | member
      · exact later.visited_subset List.mem_cons_self
      · exact ih.1 x member
    · intro ask member m found
      rcases List.mem_cons.mp member with rfl | member
      · simp at found
      · exact ih.2 ask member m found
  | found _ _ inside later ih_inside ih_later =>
    constructor
    · intro x member
      rcases List.mem_cons.mp member with rfl | member
      · exact later.visited_subset
          (inside.visited_subset (subset_visit _ _ List.mem_cons_self))
      · exact ih_later.1 x member
    · intro ask member m found x wildcard
      rcases List.mem_cons.mp member with rfl | member
      · obtain rfl := Option.some.inj found
        exact later.visited_subset (ih_inside.1 x wildcard)
      rcases List.mem_append.mp member with member | member
      · exact later.visited_subset (ih_inside.2 ask member m found x wildcard)
      · exact ih_later.2 ask member m found x wildcard

theorem mem_visited (h : Follows lib xs w asks w') {name : String} (member : name ∈ w'.visited) :
    name ∈ w.visited ∨ ∃ ask ∈ asks,
      ask.target = name ∨ ∃ m, ask.found = some m ∧ m.name = name := by
  induction h with
  | done w => exact Or.inl member
  | seen _ _ ih => exact ih member
  | failed _ _ _ ih =>
    rcases ih member with before | ⟨ask, inside, rest⟩
    · rcases List.mem_cons.mp before with rfl | before
      · exact Or.inr ⟨_, List.mem_cons_self, Or.inl rfl⟩
      · exact Or.inl before
    · exact Or.inr ⟨ask, List.mem_cons_of_mem _ inside, rest⟩
  | found _ _ _ _ ih_inside ih_later =>
    rcases ih_later member with before | ⟨ask, inside, rest⟩
    · rcases ih_inside before with entered | ⟨ask, inside, rest⟩
      · rcases mem_visit.mp entered with before | ⟨rfl, -⟩
        · rcases List.mem_cons.mp before with rfl | before
          · exact Or.inr ⟨_, List.mem_cons_self, Or.inl rfl⟩
          · exact Or.inl before
        · exact Or.inr ⟨_, List.mem_cons_self, Or.inr ⟨_, rfl, rfl⟩⟩
      · exact Or.inr ⟨ask, List.mem_cons_of_mem _ (List.mem_append_left _ inside), rest⟩
    · exact Or.inr ⟨ask, List.mem_cons_of_mem _ (List.mem_append_right _ inside), rest⟩

theorem kept {i : Index} (h : Follows lib xs w asks w')
    (kept : Index.Kept lib i w.visited w.state.index) :
    Index.Kept lib i w'.visited w'.state.index ∧
      ∀ ask ∈ asks, ∃ visited j, Index.Kept lib i visited j ∧ ask.target ∉ visited ∧
        ∀ m, ask.found = some m ↔ j.answer lib ask.target = .ok m := by
  induction h with
  | done w => exact ⟨kept, by simp⟩
  | seen _ _ ih => exact ih kept
  | failed fresh answer _ ih =>
    obtain ⟨next, answered⟩ := kept.of_resolve fresh answer
    refine ⟨(ih next).1, ?_⟩
    intro ask member
    rcases List.mem_cons.mp member with rfl | member
    · exact ⟨_, _, kept, fresh, fun m => by simp [answered]⟩
    · exact (ih next).2 ask member
  | found fresh answer _ _ ih_inside ih_later =>
    obtain ⟨next, answered⟩ := kept.of_resolve fresh answer
    have entered := ih_inside (next.mono (subset_visit _ _))
    refine ⟨(ih_later entered.1).1, ?_⟩
    intro ask member
    rcases List.mem_cons.mp member with rfl | member
    · exact ⟨_, _, kept, fresh, fun m => by simp [answered]⟩
    rcases List.mem_append.mp member with member | member
    · exact entered.2 ask member
    · exact (ih_later entered.1).2 ask member

end Follows

def packageOf (name : String) : String :=
  String.ofList (name.toList.take (name.toList.length - (Index.initializer "").toList.length))

private theorem packageOf_initializer (name : String) : packageOf (Index.initializer name) =
    name := by
  simp [packageOf, Index.initializer]

/-- The names that can resolve in an index: the indexed ones, and the packages of those that name an
initializer. -/
def targets (i : Index) : List String :=
  i.names ++ i.names.map packageOf

private theorem mem_targets {lib : Library} {i j : Index} (later : Index.Later lib i j)
    {target : String} {m : Module} (ok : j.answer lib target = .ok m) : target ∈ targets i := by
  rw [Index.answer_eq_ok_iff] at ok
  have named := later.names _ (Index.contains_of_load? ok)
  have listed : j.keyFor target ∈ i.names := NameMap.contains_iff_mem_keys.mp named
  cases own : j.contains target with
  | true =>
    rw [Index.keyFor_of_contains own] at listed
    exact List.mem_append_left _ listed
  | false =>
    rw [Index.keyFor_of_not_contains own] at listed
    exact List.mem_append_right _ (List.mem_map.mpr ⟨_, listed, packageOf_initializer target⟩)

/-- How many names that can resolve have not been visited. -/
def room (i : Index) (visited : Visited) : Nat :=
  (targets i).countP (· ∉ visited)

private theorem room_le {i : Index} {visited visited' : Visited} (sub : visited ⊆ visited') :
    room i visited' ≤ room i visited := by
  apply List.countP_mono_left
  intro name _ unseen
  simp only [decide_eq_true_eq] at unseen ⊢
  exact fun before => unseen (sub before)

private theorem room_cons_lt {i : Index} {visited : Visited} {target : String}
    (member : target ∈ targets i) (fresh : target ∉ visited) :
    room i (target :: visited) < room i visited := by
  obtain ⟨before, behind, whole⟩ := List.append_of_mem member
  have fewer : ∀ names : List String,
      names.countP (· ∉ target :: visited) ≤ names.countP (· ∉ visited) := by
    intro names
    apply List.countP_mono_left
    intro name _ unseen
    simp only [decide_eq_true_eq] at unseen ⊢
    exact fun seen => unseen (List.mem_cons_of_mem _ seen)
  have front := fewer before
  have back := fewer behind
  have seen : decide (target ∉ target :: visited) = false := by simp
  have unseen : decide (target ∉ visited) = true := by simp [fresh]
  unfold room
  rw [whole]
  simp only [List.countP_append, List.countP_cons, seen, unseen, Bool.false_eq_true, if_false,
    if_true]
  omega

private theorem room_lt_enoughDepth (s : State) : room s.index [] < enoughDepth s := by
  have most : room s.index [] ≤ (targets s.index).length := List.countP_le_length
  have twice : (targets s.index).length = 2 * s.index.size := by
    simp [targets, Index.names, NameMap.keys, Index.size]
    omega
  unfold enoughDepth
  omega

section Depth

variable {lib : Library} {i : Index}

private theorem follows_foldl {depth : Nat}
    (inside : ∀ m visited s, Index.Kept lib i visited s.index → room i visited < depth →
      ∃ asks, Follows lib m.wildcards (enter m visited s) asks (expand lib depth m visited s))
    (xs : List Symbol) (w : Walk) (kept : Index.Kept lib i w.visited w.state.index)
    (deep : room i w.visited ≤ depth) :
    ∃ asks, Follows lib xs w asks (xs.foldl (followWildcard lib (expand lib depth)) w) := by
  induction xs generalizing w with
  | nil => exact ⟨[], .done w⟩
  | cons x rest ih =>
    rw [List.foldl_cons]
    by_cases visited : x.path ∈ w.visited
    · rw [followWildcard_of_visited visited]
      obtain ⟨asks, later⟩ := ih w kept deep
      exact ⟨asks, .seen visited later⟩
    · cases answer : w.state.resolve lib x.path with
      | mk result s =>
        obtain ⟨next, answered⟩ := kept.of_resolve visited answer
        cases result with
        | error cause =>
          rw [followWildcard_of_failed visited answer]
          have smaller := room_le (i := i) (List.subset_cons_self x.path w.visited)
          obtain ⟨asks, later⟩ := ih ⟨w.symbols, x.path :: w.visited, s⟩ next
            (Nat.le_trans smaller deep)
          exact ⟨_, .failed visited answer later⟩
        | ok m =>
          rw [followWildcard_of_found visited answer]
          -- The target is one more visited name that can resolve, so that there is depth left.
          have shallower := room_cons_lt (mem_targets kept.later answered) visited
          obtain ⟨below, entered⟩ := inside m (x.path :: w.visited) s next (by omega)
          generalize expand lib depth m (x.path :: w.visited) s = inner at entered
          have after := (entered.kept (next.mono (subset_visit _ _))).1
          have smaller := room_le (i := i) entered.visited_subset_of_enter
          have enough : room i inner.visited ≤ depth := by omega
          obtain ⟨asks, later⟩ := ih
            ⟨w.symbols.insertAll inner.symbols.toList, inner.visited, inner.state⟩ after enough
          exact ⟨_, .found visited answer entered later⟩

/-- A bound on the depth above the number of names that can still resolve is no bound. -/
theorem follows_expand (depth : Nat) (m : Module) (visited : Visited) (s : State)
    (kept : Index.Kept lib i visited s.index) (deep : room i visited < depth) :
    ∃ asks, Follows lib m.wildcards (enter m visited s) asks (expand lib depth m visited s) := by
  induction depth generalizing m visited s with
  | zero => exact absurd deep (Nat.not_lt_zero _)
  | succ depth ih =>
    rw [expand_succ]
    have fewer : room i (enter m visited s).visited ≤ room i visited :=
      room_le (subset_visit _ _)
    exact follows_foldl ih m.wildcards (enter m visited s) (kept.mono (subset_visit _ _)) (by omega)

theorem exists_follows (lib : Library) {s : State} (h : s.index.WellFormed) (m : Module) :
    ∃ asks, Follows lib m.wildcards (enter m [] s) asks (expand lib (enoughDepth s) m [] s) ∧
      ∀ depth, enoughDepth s ≤ depth →
        expand lib depth m [] s = expand lib (enoughDepth s) m [] s := by
  have kept := Index.Kept.start lib h
  have room := room_lt_enoughDepth s
  obtain ⟨asks, walk⟩ := follows_expand _ m [] s kept room
  refine ⟨asks, walk, ?_⟩
  intro depth enough
  obtain ⟨asks', walk'⟩ := follows_expand depth m [] s kept (by omega)
  exact (walk'.deterministic walk).2

end Depth

end ImportAtlas.Completion
