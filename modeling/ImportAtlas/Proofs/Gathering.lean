import ImportAtlas.Proofs.Walk

/-!
What bare completion gathers: the symbols of the modules that the wildcard imports lead to from the
state before the query, and those that are visible everywhere. No such module is lost because a name
was visited before. In one kind of state it gathers more: where a target has lost its own entry to
an earlier lookup, it leads to the initializer below it.
-/

set_option autoImplicit false

namespace ImportAtlas.Completion

/-- What a wildcard import leads to in a state: the module in which the walk began if the target is
its name, and else the module to which the target resolves. -/
def LeadsTo (lib : Library) (s : State) (home : Module) (target : String) (n : Module) : Prop :=
  if home.name ≠ "" ∧ target = home.name then n = home else (s.resolve lib target).1 = .ok n

/-- What a wildcard import can lead to besides, once its target has lost its own entry. -/
def LeadsLate (lib : Library) (s : State) (target : String) (n : Module) : Prop :=
  Index.Exposed lib s.index target ∧
    s.index.load? lib (Index.initializer target) = some n

abbrev Reaches (lib : Library) (s : State) (home : Module) : Module → Prop :=
  Relation.ReflTransGen (fun m n => ∃ x ∈ m.wildcards, LeadsTo lib s home x.path n) home

/-- The modules to which wildcard imports can lead from a module in the course of a walk. -/
abbrev ReachesLate (lib : Library) (s : State) (home : Module) : Module → Prop :=
  Relation.ReflTransGen (fun m n => ∃ x ∈ m.wildcards,
    LeadsTo lib s home x.path n ∨ LeadsLate lib s x.path n) home

variable {lib : Library} {s : State} {home : Module}

private theorem Follows.reachesLate {xs : List Symbol} {w w' : Walk} {asks : List Ask}
    (h : Follows lib xs w asks w') (kept : Index.Kept lib s.index w.visited w.state.index)
    (begun : home.name ≠ "" → home.name ∈ w.visited)
    (source : ∀ x ∈ xs, ∃ m, ReachesLate lib s home m ∧ x ∈ m.wildcards) :
    ∀ ask ∈ asks, ∀ n, ask.found = some n → ReachesLate lib s home n := by
  induction h with
  | done w => simp
  | seen _ _ ih => exact ih kept begun fun x member => source x (List.mem_cons_of_mem _ member)
  | failed fresh answer _ ih =>
    have next := (kept.of_resolve fresh answer).1
    intro ask member n found
    rcases List.mem_cons.mp member with rfl | member
    · simp at found
    · exact ih next (fun named => List.mem_cons_of_mem _ (begun named))
        (fun x member => source x (List.mem_cons_of_mem _ member)) ask member n found
  | @found x rest w inner w' below asks m t fresh answer inside later ih_inside ih_later =>
    obtain ⟨next, answered⟩ := kept.of_resolve fresh answer
    have reached : ReachesLate lib s home m := by
      obtain ⟨from_, reached, wildcard⟩ := source x List.mem_cons_self
      refine reached.tail ⟨x, wildcard, ?_⟩
      rcases kept.answer fresh answered with early | late
      · left
        have other : ¬ (home.name ≠ "" ∧ x.path = home.name) := by
          rintro ⟨named, same⟩
          exact fresh (same ▸ begun named)
        rw [LeadsTo, if_neg other, State.resolve_fst]
        exact early
      · exact Or.inr late
    have entered : x.path :: w.visited ⊆ (enter m (x.path :: w.visited) t).visited :=
      subset_visit _ _
    have still : home.name ≠ "" → home.name ∈ (enter m (x.path :: w.visited) t).visited :=
      fun named => entered (List.mem_cons_of_mem _ (begun named))
    intro ask member n found
    rcases List.mem_cons.mp member with rfl | member
    · exact Option.some.inj found ▸ reached
    rcases List.mem_append.mp member with member | member
    · exact ih_inside (next.mono entered) still (fun y wildcard => ⟨m, reached, wildcard⟩)
        ask member n found
    · exact ih_later (inside.kept (next.mono entered)).1
        (fun named => inside.visited_subset (still named))
        (fun y member => source y (List.mem_cons_of_mem _ member)) ask member n found

/-- A module to which wildcard imports lead is entered by the walk, however many paths lead to it. -/
theorem Follows.found_of_reaches {w : Walk} {asks : List Ask} (wellFormed : s.index.WellFormed)
    (h : Follows lib home.wildcards (enter home [] s) asks w) {n : Module}
    (reached : Reaches lib s home n) : n = home ∨ ∃ ask ∈ asks, ask.found = some n := by
  have start := (Index.Kept.start lib wellFormed).mono (subset_visit [] home.name)
  have kept := (h.kept start).2
  induction reached with
  | refl => exact Or.inl rfl
  | @tail m n _ edge ih =>
    obtain ⟨x, wildcard, leads⟩ := edge
    have visited : x.path ∈ w.visited := by
      rcases ih with rfl | ⟨ask, member, found⟩
      · exact h.visited_of_wildcard.1 x wildcard
      · exact h.visited_of_wildcard.2 ask member m found x wildcard
    rw [LeadsTo] at leads
    split at leads
    · exact Or.inl leads
    · rename_i other
      rw [State.resolve_fst] at leads
      rcases h.mem_visited visited with own | ⟨ask, member, asked | ⟨p, found, same⟩⟩
      · rcases mem_visit.mp own with before | ⟨same, named⟩
        · simp at before
        · exact absurd ⟨named, same⟩ other
      · -- The target was asked for, and it still resolved to the same module.
        obtain ⟨_, j, before, -, outcome⟩ := kept ask member
        have answer := before.later.answer leads
        rw [← asked] at answer
        exact Or.inr ⟨ask, member, (outcome n).mpr answer⟩
      · -- The target is the name of a module that was found, so that it resolves to that module.
        obtain ⟨_, j, before, -, outcome⟩ := kept ask member
        have answer := Index.answer_eq_ok_iff.mp ((outcome p).mp found)
        rw [before.later.loads] at answer
        have key := wellFormed.name_of_load? answer
        rw [same] at key
        rw [← key] at answer
        have direct := Index.answer_eq_ok_iff.mp leads
        rw [Index.keyFor_of_contains (Index.contains_of_load? answer)] at direct
        rw [answer] at direct
        exact Or.inr ⟨ask, member, found.trans direct⟩

/-- If no name can lose its entry to the lookup of another name and has an initializer below it, then
nothing is reached late. -/
theorem reaches_of_reachesLate
    (steady : ∀ name, Index.Exposed lib s.index name →
      s.index.contains (Index.initializer name) = false) {n : Module}
    (h : ReachesLate lib s home n) : Reaches lib s home n := by
  refine Relation.ReflTransGen.mono ?_ _ _ h
  rintro m n ⟨x, wildcard, early | ⟨exposed, made⟩⟩
  · exact ⟨x, wildcard, early⟩
  · have present := Index.contains_of_load? made
    rw [steady _ exposed] at present
    exact absurd present (by simp)

private theorem answer_reserved {i : Index} (h : i.WellFormed) {name : String} {t : Builtin.Table}
    (known : Builtin.ofName? name = some t) : i.answer lib name = .ok (.builtin t) := by
  have reserved := Builtin.isReserved_iff.mpr (Option.isSome_of_eq_some known)
  have present := h.complete name reserved
  obtain ⟨m, found⟩ := Option.isSome_iff_exists.mp present
  rw [← Index.get?] at found
  rw [Index.answer, Index.keyFor_of_contains present, found]
  obtain ⟨t', known', rfl | rfl⟩ := (h.placed name m found).reserved reserved
  · simp only [Module.loaded, known]
  · obtain rfl := Option.some.inj (known.symm.trans known')
    rfl

theorem atCursor_blank (h : s.index.WellFormed) (m : Module) {activation : String}
    (blank : cursorName activation = "") :
    (atCursor lib m activation s).1 =
      ((expand lib (enoughDepth s) m [] s).symbols.insertAll Builtin.ambient.globals).toList := by
  have after := h.lookups (lookups_reachable lib m s)
  have ambient : ((reachable lib m s).2.resolve lib Builtin.ambientName).1 =
      .ok (.builtin Builtin.ambient) := by
    rw [State.resolve_fst]
    exact answer_reserved after rfl
  simp only [atCursor, blank, if_true, bare]
  split
  · rename_i n t answer
    rw [answer] at ambient
    obtain rfl := Except.ok.inj ambient
    rfl
  · rename_i cause t answer
    rw [answer] at ambient
    exact absurd ambient (by simp)

private theorem no_initializer_of_exposed {i : Index}
    (steady : ∀ name, i.contains name = false → i.contains (Index.initializer name) →
      i.contains (Index.initializer (Index.initializer name)) →
      i.load? lib (Index.initializer name) ≠ none) {name : String}
    (exposed : Index.Exposed lib i name) : i.contains (Index.initializer name) = false := by
  induction exposed with
  | absent missing indexed broken =>
    rw [Bool.eq_false_iff]
    intro present
    exact steady _ missing indexed present broken
  | lost _ indexed _ ih =>
    rw [ih] at indexed
    exact absurd indexed (by simp)

/-- For a module and an index that a run leads to, bare completion comes to an end without meeting
the bound on its depth, and asks for each target of a wildcard import at most once. It answers the
symbols of all modules to which wildcard imports lead from the state before, and those visible
everywhere. It answers no others but those that wildcard imports lead to late; and there are none of
these unless a name is not indexed, the initializer below it cannot be loaded, and there is an
initializer below that. -/
theorem atCursor_gathers_reachable {e : Engine} (run : e.Reachable) (lib : Library) (m : Module)
    {activation : String} (blank : cursorName activation = "") :
    let s := e.state
    let i := s.index
    let walk := expand lib (enoughDepth s) m [] s
    let answer := (atCursor lib m activation s).1
    answer = (walk.symbols.insertAll Builtin.ambient.globals).toList ∧
    (∀ depth, enoughDepth s ≤ depth → expand lib depth m [] s = walk) ∧
    (∃ asks, Follows lib m.wildcards (enter m [] s) asks walk ∧ (asks.map Ask.target).Nodup) ∧
    (∀ n, Reaches lib s m n → ∀ x ∈ n.globals ++ n.imports, x.id ∈ answer.map Symbol.id) ∧
    (∀ x ∈ Builtin.ambient.globals, x.id ∈ answer.map Symbol.id) ∧
    (∀ x ∈ answer, x ∈ Builtin.ambient.globals ∨
      ∃ n, ReachesLate lib s m n ∧ x ∈ n.globals ++ n.imports) ∧
    ((∀ name, i.contains name = false → i.contains (Index.initializer name) →
        i.contains (Index.initializer (Index.initializer name)) →
        i.load? lib (Index.initializer name) ≠ none) →
      ∀ x ∈ answer, x ∈ Builtin.ambient.globals ∨
        ∃ n, Reaches lib s m n ∧ x ∈ n.globals ++ n.imports) := by
  intro s i walk answer
  have h : s.index.WellFormed := run.wellFormed
  have whole : answer = (walk.symbols.insertAll Builtin.ambient.globals).toList :=
    atCursor_blank h m blank
  obtain ⟨asks, follows, deep⟩ := exists_follows lib h m
  have kept := (Index.Kept.start lib h).mono (subset_visit [] m.name)
  have late : ∀ x ∈ answer, x ∈ Builtin.ambient.globals ∨
      ∃ n, ReachesLate lib s m n ∧ x ∈ n.globals ++ n.imports := by
    intro x member
    rw [whole] at member
    rcases SymbolSet.mem_insertAll member with gathered | ambient
    · right
      rcases follows.mem_symbols gathered with own | ⟨ask, asked, n, found, inside⟩
      · exact ⟨m, Relation.ReflTransGen.refl, mem_symbols_enter own⟩
      · refine ⟨n, ?_, inside⟩
        refine follows.reachesLate kept ?_ ?_ ask asked n found
        · exact fun named => mem_visit.mpr (Or.inr ⟨rfl, named⟩)
        · exact fun y wildcard => ⟨m, Relation.ReflTransGen.refl, wildcard⟩
    · exact Or.inl ambient
  have ids : ∀ a, a ∈ answer.map Symbol.id ↔
      a ∈ walk.symbols.ids ∨ a ∈ Builtin.ambient.globals.map Symbol.id := by
    intro a
    rw [whole, ← SymbolSet.ids]
    exact SymbolSet.mem_ids_insertAll
  refine ⟨whole, deep, ⟨asks, follows, follows.asked.2⟩, ?_, ?_, late, ?_⟩
  · intro n reached x inside
    refine (ids x.id).mpr (Or.inl ?_)
    rcases follows.found_of_reaches h reached with rfl | ⟨ask, asked, found⟩
    · exact follows.ids_subset (mem_ids_enter inside)
    · exact follows.mem_ids asked found inside
  · intro x ambient
    exact (ids x.id).mpr (Or.inr (List.mem_map_of_mem ambient))
  · intro steady x member
    refine (late x member).imp_right ?_
    rintro ⟨n, reached, inside⟩
    exact ⟨n, reaches_of_reachesLate (fun name => no_initializer_of_exposed steady) reached, inside⟩

theorem atCursor_gathers_reachable_changed :
    let h : Host := ⟨.ofEntries ⟨"/"⟩ [], ⟨"/"⟩, ⟨0, 0⟩⟩
    let lib : Library :=
      ⟨⟨fun _ => .error ⟨.notFound, "gone"⟩, fun _ => true⟩, fun _ => .ok [.assign [.name "own"]]⟩
    let fresh := ((Engine.initial {} ⟨"/"⟩).rebuild "/a" .never h).2.1
    let e := fresh.withState (fresh.state.changeFile lib ⟨"/a/x.py"⟩ "own = 1").2
    let m : Module := .source (.ofTree "" none [.importAll [.word "x"]])
    e.Reachable ∧ cursorName " " = "" ∧
      (⟨"own", .attribute, "x"⟩ : SymbolId) ∈ (atCursor lib m " " e.state).1.map Symbol.id := by
  intro h lib fresh e m
  have home : (⟨"/"⟩ : Path).isAbsolute := by decide
  have run : e.Reachable :=
    .changeFile (.rebuild (.initial {} home) _ .never home) lib _ _
  have blank : cursorName " " = "" := by decide
  obtain ⟨wildcards, resolved⟩ : m.wildcards.map Symbol.path = ["x"] ∧
      ((e.state.resolve lib "x").1.toOption.map fun n => n.globals) =
        some [⟨"own", .attribute, "x", none, none⟩] := by decide +kernel
  obtain ⟨n, found, own⟩ := Option.map_eq_some_iff.mp resolved
  obtain ⟨x, wildcard, path⟩ := List.mem_map.mp (wildcards ▸ List.mem_singleton_self "x")
  have answered : (e.state.resolve lib "x").1 = .ok n := by
    cases answer : (e.state.resolve lib "x").1 with
    | error cause => simp [answer, Except.toOption] at found
    | ok n' =>
      simp only [answer, Except.toOption, Option.some.injEq] at found
      rw [found]
  have reached : Reaches lib e.state m n := by
    refine Relation.ReflTransGen.single ⟨x, wildcard, ?_⟩
    rw [LeadsTo, if_neg (fun named => named.1 rfl), path]
    exact answered
  obtain ⟨-, -, -, gathered, -⟩ := atCursor_gathers_reachable run lib m blank
  refine ⟨run, blank, ?_⟩
  exact gathered n reached ⟨"own", .attribute, "x", none, none⟩ (by simp [own])

namespace LostFallback

def library : Library :=
  ⟨⟨fun _ => .error ⟨.notFound, "gone"⟩, fun file => file = ⟨"/a/x/__init__/__init__.pyw"⟩⟩,
    fun _ => .ok [.assign [.name "deep"]]⟩

def fresh : Engine :=
  let h : Host := ⟨.ofEntries ⟨"/"⟩ [], ⟨"/"⟩, ⟨0, 0⟩⟩
  ((Engine.initial {} ⟨"/"⟩).rebuild "/a" .never h).2.1

/-- An engine in which an initializer has come and gone; a placeholder of the other file is left. -/
def replaced : Engine :=
  let e := fresh.withState
    (fresh.state.changeFile library ⟨"/a/x/__init__/__init__.py"⟩ "deep = 1").2
  e.withState (e.state.removeFile library ⟨"/a/x/__init__/__init__.py"⟩).2

def engine : Engine :=
  replaced.withState
    (replaced.state.changeFile library ⟨"/a/x/__init__/__init__/__init__.py"⟩ "deep = 1").2

def context : Module :=
  .source (.ofTree "" none
    [.importAll [.word "x"], .importAll [.word "x", .dot, .word "__init__"]])

def deep : Symbol :=
  ⟨"deep", .attribute, "x.__init__.__init__", none, none⟩

private theorem reachable_engine : engine.Reachable := by
  have home : (⟨"/"⟩ : Path).isAbsolute := by decide
  exact .changeFile (.removeFile (.changeFile (.rebuild (.initial {} home) "/a" .never home)
    library _ _) library _) library _ _

/-- Symbols can be answered from a module to which no wildcard import leads from the state before:
here the first target loses the entry of the second one, which then leads to the initializer below
it. -/
theorem atCursor_gathers_lost_fallback :
    engine.Reachable ∧ deep ∈ (atCursor library context "" engine.state).1 ∧
      deep ∉ Builtin.ambient.globals ∧
      ∀ n, Reaches library engine.state context n → deep ∉ n.globals ++ n.imports := by
  obtain ⟨wildcards, first, second, gathered, own, ambient⟩ :
      context.wildcards.map Symbol.path = ["x", "x.__init__"] ∧
        (engine.state.resolve library "x").1.toOption.isSome = false ∧
        (engine.state.resolve library "x.__init__").1.toOption.isSome = false ∧
        deep ∈ (expand library (enoughDepth engine.state) context [] engine.state).symbols.toList ∧
        deep ∉ context.globals ++ context.imports ∧ deep ∉ Builtin.ambient.globals := by
    decide +kernel
  refine ⟨reachable_engine, ?_, ambient, ?_⟩
  · rw [atCursor_blank reachable_engine.wellFormed context (by decide)]
    exact SymbolSet.mem_insertAll_of_mem _ gathered
  · -- No target resolves, so that the module reaches itself only.
    have alone : ∀ n, Reaches library engine.state context n → n = context := by
      intro n reached
      induction reached with
      | refl => rfl
      | tail _ edge ih =>
        obtain ⟨x, wildcard, leads⟩ := edge
        rw [ih] at wildcard
        rw [LeadsTo, if_neg (fun named => named.1 rfl)] at leads
        have path : x.path ∈ ["x", "x.__init__"] := wildcards ▸ List.mem_map_of_mem wildcard
        rcases List.mem_cons.mp path with same | path
        · rw [← same, leads] at first
          exact absurd first (by simp [Except.toOption])
        · rw [← List.mem_singleton.mp path, leads] at second
          exact absurd second (by simp [Except.toOption])
    intro n reached
    rw [alone n reached]
    exact own

end LostFallback

end ImportAtlas.Completion
