import ImportAtlas.Proofs.NormalPath
import ImportAtlas.Proofs.Questions
import ImportAtlas.Proofs.Walk

/-!
Completion does not depend on what has been asked before. Questions change the index, but as long as
no name is that of an initializer, a name resolves after them to the module to which it resolved
before, or it resolves neither time. Two states that are alike in this way answer alike.
-/

set_option autoImplicit false

namespace ImportAtlas

namespace Index

/-- Whether no indexed name ends in the segment of an initializer. -/
def Plain (i : Index) : Prop :=
  ∀ name, i.contains name → (Text.split '.' name).getLast? ≠ some Path.packageInit

private theorem getLast?_split_initializer (name : String) :
    (Text.split '.' (initializer name)).getLast? = some Path.packageInit := by
  have chars : (initializer name).toList = name.toList ++ '.' :: Path.packageInit.toList := by
    simp [initializer]
  have whole : Text.splitChars '.' Path.packageInit.toList = [Path.packageInit.toList] :=
    Text.splitChars_of_not_mem (by decide)
  simp [Text.split, chars, Text.splitChars_append_sep, whole]

variable {lib : Library} {i j : Index}

private theorem Plain.of_later (plain : i.Plain) (later : Later lib i j) : j.Plain :=
  fun name present => plain name (later.names name present)

private theorem Plain.answer_toOption (plain : i.Plain) (name : String) :
    (i.answer lib name).toOption = i.load? lib name := by
  have eq : (i.answer lib name).toOption = i.load? lib (i.keyFor name) := by
    unfold answer load?
    cases i.get? (i.keyFor name) <;> rfl
  rw [eq]
  cases own : i.contains name with
  | true => rw [keyFor_of_contains own]
  | false =>
    -- The name falls back to an initializer, and there is none.
    have absent : i.contains (initializer name) = false := by
      rw [Bool.eq_false_iff]
      exact fun present => plain _ present (getLast?_split_initializer name)
    have nothing : ∀ other, i.contains other = false → i.load? lib other = none := by
      intro other missing
      rw [load?, contains_eq_false_iff.mp missing]
      rfl
    rw [keyFor_of_not_contains own, nothing _ absent, nothing _ own]

end Index

/-- Whether two states have indices without initializers in which every entry makes the same. -/
structure State.Alike (lib : Library) (s t : State) : Prop where
  wellFormed : s.index.WellFormed
  wellFormed' : t.index.WellFormed
  plain : s.index.Plain
  plain' : t.index.Plain
  loads : ∀ name, t.index.load? lib name = s.index.load? lib name

namespace State

variable {lib : Library} {s t : State}

private theorem Alike.resolve (h : Alike lib s t) (name : String) :
    Alike lib (s.resolve lib name).2 (t.resolve lib name).2 ∧
      (t.resolve lib name).1.toOption = (s.resolve lib name).1.toOption := by
  have later : Index.Later lib s.index _ := h.wellFormed.later_resolve name
  have later' : Index.Later lib t.index _ := h.wellFormed'.later_resolve name
  refine ⟨⟨h.wellFormed.resolve name, h.wellFormed'.resolve name, h.plain.of_later later,
    h.plain'.of_later later', ?_⟩, ?_⟩
  · intro other
    rw [later'.loads, later.loads, h.loads]
  · rw [resolve_fst, resolve_fst, h.plain.answer_toOption, h.plain'.answer_toOption, h.loads]

private theorem Alike.resolve_cases (h : Alike lib s t) (name : String) :
    (∃ m s' t', s.resolve lib name = (.ok m, s') ∧ t.resolve lib name = (.ok m, t') ∧
      Alike lib s' t') ∨
    (∃ cause cause' s' t', s.resolve lib name = (.error cause, s') ∧
      t.resolve lib name = (.error cause', t') ∧ Alike lib s' t') := by
  obtain ⟨alike, same⟩ := h.resolve name
  rcases answer : s.resolve lib name with ⟨cause | m, s'⟩
  · rcases answer' : t.resolve lib name with ⟨cause' | m', t'⟩
    · rw [answer, answer'] at alike
      exact Or.inr ⟨cause, cause', s', t', rfl, rfl, alike⟩
    · rw [answer, answer'] at same
      exact absurd same (Option.some_ne_none m')
  · rcases answer' : t.resolve lib name with ⟨cause' | m', t'⟩
    · rw [answer, answer'] at same
      exact absurd same.symm (Option.some_ne_none m)
    · rw [answer, answer'] at same alike
      obtain rfl := Option.some.inj same
      exact Or.inl ⟨m', s', t', rfl, rfl, alike⟩

end State

namespace Completion

open State (Alike)

variable {lib : Library} {s t : State}

structure Walk.Alike (lib : Library) (w w' : Walk) : Prop where
  symbols : w'.symbols = w.symbols
  visited : w'.visited = w.visited
  state : State.Alike lib w.state w'.state

private theorem alike_followWildcard {expand : Module → Visited → State → Walk}
    (inner : ∀ m visited s t, Alike lib s t →
      Walk.Alike lib (expand m visited s) (expand m visited t))
    {w w' : Walk} (h : Walk.Alike lib w w') (x : Symbol) :
    Walk.Alike lib (followWildcard lib expand w x) (followWildcard lib expand w' x) := by
  obtain ⟨symbols, visited, s⟩ := w
  obtain ⟨symbols', visited', t⟩ := w'
  obtain ⟨rfl, rfl, alike⟩ := h
  by_cases before : x.path ∈ visited'
  · rw [followWildcard_of_visited before, followWildcard_of_visited before]
    exact ⟨rfl, rfl, alike⟩
  · rcases alike.resolve_cases x.path with ⟨m, s', t', answer, answer', next⟩ |
      ⟨cause, cause', s', t', answer, answer', next⟩
    · have below := inner m (x.path :: visited') s' t' next
      rw [followWildcard_of_found before answer, followWildcard_of_found before answer']
      refine ⟨?_, below.visited, below.state⟩
      simp only [below.symbols]
    · rw [followWildcard_of_failed before answer, followWildcard_of_failed before answer']
      exact ⟨rfl, rfl, next⟩

private theorem alike_expand (depth : Nat) (m : Module) (visited : Visited) (s t : State)
    (h : Alike lib s t) :
    Walk.Alike lib (expand lib depth m visited s) (expand lib depth m visited t) := by
  induction depth generalizing m visited s t with
  | zero => exact ⟨rfl, rfl, h⟩
  | succ depth ih =>
    rw [expand_succ, expand_succ]
    have entered : Walk.Alike lib (enter m visited s) (enter m visited t) := ⟨rfl, rfl, h⟩
    exact List.foldl_rel entered fun x _ w w' alike => alike_followWildcard ih alike x

/-- The two indices may differ in size, and so may the bounds on the depth; neither bound is met. -/
theorem alike_reachable (h : Alike lib s t) (m : Module) :
    (reachable lib m t).1 = (reachable lib m s).1 ∧
      Alike lib (reachable lib m s).2 (reachable lib m t).2 := by
  -- Both walks are compared at one bound that is enough for either.
  obtain ⟨-, -, deep⟩ := exists_follows lib h.wellFormed m
  obtain ⟨-, -, deep'⟩ := exists_follows lib h.wellFormed' m
  have walks := alike_expand (max (enoughDepth s) (enoughDepth t)) m [] s t h
  rw [deep _ (Nat.le_max_left _ _), deep' _ (Nat.le_max_right _ _)] at walks
  exact ⟨walks.symbols, walks.state⟩

private theorem alike_bare (h : Alike lib s t) (m : Module) : (bare lib m t).1 =
    (bare lib m s).1 := by
  obtain ⟨symbols, next⟩ := alike_reachable h m
  simp only [bare, symbols]
  rcases next.resolve_cases Builtin.ambientName with ⟨ambient, s', t', answer, answer', -⟩ |
    ⟨cause, cause', s', t', answer, answer', -⟩
  · rw [answer, answer']
  · rw [answer, answer']

private theorem alike_descend (h : Alike lib s t) (path rest : List String) :
    (descend lib path rest t).1 = (descend lib path rest s).1 := by
  induction path generalizing rest s t with
  | nil => rfl
  | cons last before ih =>
    simp only [descend]
    rcases h.resolve_cases (SearchPath.joinDots (last :: before).reverse) with
      ⟨m, s', t', answer, answer', next⟩ | ⟨cause, cause', s', t', answer, answer', next⟩
    · rw [answer, answer']
      simp only
      split
      · rw [(alike_reachable next m).1]
      · rfl
    · rw [answer, answer']
      exact ih next (last :: rest)

private theorem alike_atCursor (h : Alike lib s t) (m : Module) (activation : String) :
    (atCursor lib m activation t).1 = (atCursor lib m activation s).1 := by
  simp only [atCursor]
  split
  · rw [alike_bare h m]
  · unfold behind
    split
    · exact alike_descend h _ []
    · rfl

end Completion

private theorem State.alike_after {lib : Library} {s : State} {qs : List Question}
    (well : s.index.WellFormed) (plain : s.index.Plain) (looking : ∀ q ∈ qs, q.looksUp) :
    Alike lib s (s.after (qs.map fun q => (lib, q))) := by
  let Kept (t : State) : Prop := t.index.WellFormed ∧ Index.Later lib s.index t.index
  have all : ∀ r ∈ qs.map fun q => (lib, q), r.2.looksUp := by
    intro r member
    obtain ⟨q, inside, rfl⟩ := List.mem_map.mp member
    exact looking q inside
  have reached : Kept (s.after (qs.map fun q => (lib, q))) := by
    refine after_induction all ?_ ⟨well, Index.Later.refl s.index⟩
    rintro r member name t ⟨well', later⟩
    obtain ⟨q, -, rfl⟩ := List.mem_map.mp member
    exact ⟨well'.resolve name, later.trans (well'.later_resolve name)⟩
  obtain ⟨well', later⟩ := reached
  exact ⟨well, well', plain, plain.of_later later, later.loads⟩

namespace Engine

/-- With one library, and where no indexed name ends in the segment of an initializer, completion
at a cursor answers after any questions that look modules up what it answers without them, symbol
by symbol. -/
theorem atCursor_after_questions {e : Engine} (run : Reachable e)
    (plain : ∀ name, e.state.index.contains name →
      (Text.split '.' name).getLast? ≠ some Path.packageInit)
    (lib : Library) (qs : List Question) (looking : ∀ q ∈ qs, q.looksUp) (m : Module)
    (activation : String) :
    (Completion.atCursor lib m activation (e.state.after (qs.map fun q => (lib, q)))).1 =
      (Completion.atCursor lib m activation e.state).1 :=
  Completion.alike_atCursor (State.alike_after run.wellFormed plain looking) m activation

theorem atCursor_after_questions_of_broken_file :
    let disk : Disk :=
      .ofEntries ⟨"/"⟩ [(["a"], .dir), (["a", "x.py"], .file []), (["b"], .dir),
          (["b", "y.py"], .file [])]
    let h : Host := ⟨disk, ⟨"/"⟩, ⟨0, 0⟩⟩
    let lib : Library :=
      ⟨⟨fun file => if file = ⟨"/a/x.py"⟩ then .error ⟨.notFound, "gone"⟩ else .ok "",
        fun _ => true⟩,
        fun _ => .ok [.assign [.name "own"]]⟩
    let e := ((initial {} ⟨"/"⟩).rebuild "/a:/b" .never h).2.1
    let qs := [Question.resolve "x", .preload .never ["y", "sys"]]
    let after := e.state.after (qs.map fun q => (lib, q))
    let m : Module := .source (.ofTree "" none
      [.importAll [.word "x"], .importAll [.word "y"]])
    Reachable e ∧ e.state.index.unloaded = ["__builtin__", "sys", "x", "y"] ∧
      after.index.names = ["__builtin__", "sys", "y"] ∧ after.index.unloaded = ["__builtin__"] ∧
      (⟨"own", .attribute, "y"⟩ : SymbolId) ∈
        (Completion.reachable lib m e.state).1.toList.map Symbol.id ∧
      (Completion.atCursor lib m "" after).1 = (Completion.atCursor lib m "" e.state).1 := by
  intro disk h lib e qs after m
  have home : (⟨"/"⟩ : Path).isAbsolute := by decide
  have run : Reachable e := .rebuild (.initial {} home) "/a:/b" .never home
  have names : e.state.index.names = ["__builtin__", "sys", "x", "y"] := by decide +kernel
  have plain : ∀ name, e.state.index.contains name →
      (Text.split '.' name).getLast? ≠ some Path.packageInit := by
    intro name present
    have listed : name ∈ e.state.index.names := NameMap.contains_iff_mem_keys.mp present
    have ordinary : ∀ other ∈ ["__builtin__", "sys", "x", "y"],
        (Text.split '.' other).getLast? ≠ some Path.packageInit := by decide
    exact ordinary name (names ▸ listed)
  have same := atCursor_after_questions run plain lib qs (by decide) m ""
  exact ⟨run, by decide +kernel, by decide +kernel, by decide +kernel, by decide +kernel, same⟩

end Engine

end ImportAtlas
