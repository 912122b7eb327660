import ImportAtlas.Proofs.Collected
import ImportAtlas.Proofs.ImportPrefix

/-!
No two symbols of an answer have one identity. Whatever is inserted into a set, it holds the symbols
as they came, without those that have the identity of an earlier one; all tables of modules and most
answers are such sets, and the other answers are tables of modules.
-/

set_option autoImplicit false

namespace ImportAtlas

namespace SymbolSet

/-- A call on a set: a symbol is inserted, or those of a list are. -/
inductive Call
  | insert (x : Symbol)
  | extend (xs : List Symbol)

def Call.symbols : Call → List Symbol
  | insert x => [x]
  | extend xs => xs

def Call.run (s : SymbolSet) : Call → SymbolSet
  | insert x => (s.insertNew x).2
  | extend xs => s.insertAll xs

def afterCalls (calls : List Call) : SymbolSet :=
  calls.foldl Call.run empty

private theorem Call.run_eq_insertAll (s : SymbolSet) (call : Call) : call.run s =
    s.insertAll call.symbols := by
  cases call <;> rfl

private theorem foldl_run (s : SymbolSet) (calls : List Call) :
    calls.foldl Call.run s = s.insertAll (calls.flatMap Call.symbols) := by
  induction calls generalizing s with
  | nil => rfl
  | cons call calls ih =>
    rw [List.foldl_cons, ih, Call.run_eq_insertAll, List.flatMap_cons, insertAll_append]

private theorem afterCalls_eq (calls : List Call) :
    afterCalls calls = empty.insertAll (calls.flatMap Call.symbols) :=
  foldl_run empty calls

private theorem contains_afterCalls (calls : List Call) (x : Symbol) :
    (afterCalls calls).contains x ↔ ∃ y ∈ calls.flatMap Call.symbols, y.id = x.id := by
  rw [afterCalls_eq, contains_iff, ← ids, mem_ids_insertAll, ids, toList_empty, List.map_nil,
    List.mem_map]
  exact or_iff_right List.not_mem_nil

end SymbolSet

/-! ### Tables -/

private theorem nodup_ids_blockSymbols (home : Home) (inClass : Bool)
    (block : List Python.Statement) :
    ((blockSymbols home inClass block).map Symbol.id).Nodup :=
  SymbolSet.nodup_ids_firsts _

namespace SourceModule

variable (name : String) (file : Option Path) (tree : List Python.Statement)

private theorem nodup_ids_members (scope : String) :
    (((ofTree name file tree).scopes.members scope).map Symbol.id).Nodup := by
  rw [ScopeTable.members, lookup_ofTree]
  cases (valuesAt scope (classesIn none tree)).getLast? with
  | none => exact List.nodup_nil
  | some body => exact nodup_ids_blockSymbols _ _ body

end SourceModule

private theorem Builtin.nodup_ids_members {name : String} {t : Builtin.Table}
    (known : Builtin.ofName? name = some t) (scope : String) :
    ((t.members scope).map Symbol.id).Nodup := by
  have all : ∀ entry ∈ t.scopes, (entry.2.map Symbol.id).Nodup := by
    rcases Builtin.eq_of_ofName? known with rfl | rfl <;> decide +kernel
  unfold Builtin.Table.members
  cases found : t.scopes.lookup scope with
  | none => exact List.nodup_nil
  | some symbols =>
    obtain ⟨front, back, listed, -⟩ := List.lookup_eq_some_iff.mp found
    exact all (scope, symbols) (listed ▸ List.mem_append_right _ List.mem_cons_self)

private theorem Module.Made.nodup_ids_members {m : Module} (h : m.Made) (scope : String) :
    ((m.members scope).map Symbol.id).Nodup := by
  cases h with
  | placeholder key => exact List.nodup_nil
  | source name file tree => exact SourceModule.nodup_ids_members name file tree scope
  | builtin known => exact Builtin.nodup_ids_members known scope

/-! ### Answers -/

namespace Completion

variable {lib : Library} {s : State} {m : Module}

private theorem nodup_ids_followWildcard {expand : Module → Visited → State → Walk} {w : Walk}
    (distinct : w.symbols.ids.Nodup) (wildcard : Symbol) :
    (followWildcard lib expand w wildcard).symbols.ids.Nodup := by
  simp only [followWildcard]
  split
  · exact distinct
  · split
    · exact SymbolSet.nodup_ids_insertAll distinct _
    · exact distinct

private theorem nodup_ids_expand (depth : Nat) (m : Module) (visited : Visited) (s : State) :
    (expand lib depth m visited s).symbols.ids.Nodup := by
  cases depth with
  | zero => exact SymbolSet.nodup_ids_empty
  | succ depth =>
    have entered : (enter m visited s).symbols.ids.Nodup :=
      SymbolSet.nodup_ids_insertAll (SymbolSet.nodup_ids_insertAll SymbolSet.nodup_ids_empty _) _
    rw [expand_succ]
    exact List.foldlRecOn (motive := fun w : Walk => w.symbols.ids.Nodup) m.wildcards _ entered
      fun w distinct wildcard _ => nodup_ids_followWildcard distinct wildcard

private theorem nodup_ids_reachable (m : Module) (s : State) : (reachable lib m s).1.ids.Nodup :=
  nodup_ids_expand _ m [] s

private theorem nodup_ids_bare (m : Module) (s : State) : (bare lib m s).1.ids.Nodup := by
  simp only [bare]
  split
  · exact SymbolSet.nodup_ids_insertAll (nodup_ids_reachable m s) _
  · exact nodup_ids_reachable m s

private theorem nodup_ids_descend (made : s.index.ModulesAre Module.Made)
    (path rest : List String) :
    ((descend lib path rest s).1.map Symbol.id).Nodup := by
  induction path generalizing rest s with
  | nil => exact List.nodup_nil
  | cons last before ih =>
    simp only [descend]
    split
    · rename_i m t answer
      split
      · exact nodup_ids_reachable m t
      · have answered := congrArg Prod.fst answer
        rw [State.resolve_fst] at answered
        exact (made.answer Module.Made.loaded answered).nodup_ids_members _
    · rename_i cause t answer
      have left : (s.resolve lib (SearchPath.joinDots (last :: before).reverse)).2 = t := by
        rw [answer]
      have kept : t.index.ModulesAre Module.Made := left ▸ made.resolve Module.Made.loaded _
      exact ih kept (last :: rest)

private theorem nodup_ids_atCursor (made : s.index.ModulesAre Module.Made) (context : m.Made)
    (activation : String) : ((atCursor lib m activation s).1.map Symbol.id).Nodup := by
  simp only [atCursor]
  split
  · exact nodup_ids_bare m s
  · unfold behind
    split
    · exact nodup_ids_descend made _ []
    · exact context.nodup_ids_members _

private theorem nodup_ids_inImport (raw : String) (s : State) :
    ((inImport lib raw s).1.map Symbol.id).Nodup := by
  rw [inImport_fst, ← SymbolSet.ids]
  exact SymbolSet.nodup_ids_insertAll (SymbolSet.nodup_ids_insertAll SymbolSet.nodup_ids_empty _) _

/-- After any calls, a set holds the symbols that came in their order, without those that have the
identity of an earlier one, so that of each identity the first symbol is there with its documentation
and target. An insertion tells whether no symbol of the identity came before, and the set contains a
symbol if and only if one of its identity is listed, which is so if and only if one came. So the
symbols of each answer have identities of their own, at a cursor and inside an import, whatever modules
an index holds and however it is asked; and so have the symbols at the top level of a source module,
those that its imports bind, and the members of each of its scopes. -/
theorem answers_are_distinct (lib : Library) {s : State} {m : Module}
    (made : s.index.ModulesAre Module.Made) (context : m.Made) :
    (∀ (calls : List SymbolSet.Call) (x : Symbol),
      let set := SymbolSet.afterCalls calls
      let given := calls.flatMap SymbolSet.Call.symbols
      set.toList = given.eraseDupsBy (fun x y => x.id == y.id) ∧
        ((set.insertNew x).1 = true ↔ ∀ y ∈ given, y.id ≠ x.id) ∧
        (set.contains x = true ↔ ∃ y ∈ set.toList, y.id = x.id) ∧
        (set.contains x = true ↔ ∃ y ∈ given, y.id = x.id)) ∧
    (∀ activation, ((atCursor lib m activation s).1.map Symbol.id).Nodup) ∧
    (∀ typed, ((inImport lib typed s).1.map Symbol.id).Nodup) ∧
    (∀ name file tree, let read := SourceModule.ofTree name file tree
      (read.globals.map Symbol.id).Nodup ∧ (read.imports.map Symbol.id).Nodup ∧
        ∀ scope, ((read.scopes.members scope).map Symbol.id).Nodup) := by
  refine ⟨?_, nodup_ids_atCursor made context, fun typed => nodup_ids_inImport typed s, ?_⟩
  · intro calls x set given
    have held : set.contains x = true ↔ ∃ y ∈ given, y.id = x.id :=
      SymbolSet.contains_afterCalls calls x
    refine ⟨?_, ?_, ?_, held⟩
    · rw [← SymbolSet.firsts_eq_eraseDupsBy]
      exact congrArg SymbolSet.toList (SymbolSet.afterCalls_eq calls)
    · rw [SymbolSet.insertNew, Bool.not_eq_true', Bool.eq_false_iff, ne_eq, held]
      simp
    · rw [SymbolSet.contains_iff, List.mem_map]
  · intro name file tree read
    refine ⟨?_, ?_, SourceModule.nodup_ids_members name file tree⟩
    · rw [SourceModule.globals_ofTree]
      exact nodup_ids_blockSymbols _ _ tree
    · rw [SourceModule.imports_ofTree]
      exact SymbolSet.nodup_ids_firsts _

theorem answers_are_distinct_of_class_defined_twice :
    let again : Python.Statement := .classDef [] "A" [.assign [.name "x"], .assign [.name "x"]]
    let tree : List Python.Statement := [again, again, .importAll [.word "p"]]
    let lib : Library := ⟨⟨fun _ => .ok "", fun _ => true⟩, fun _ => .ok tree⟩
    let h : Host := ⟨.ofEntries ⟨"/"⟩ [], ⟨"/"⟩, ⟨0, 0⟩⟩
    let fresh := ((Engine.initial {} ⟨"/"⟩).rebuild "/a" .never h).2.1
    let e := fresh.withState (fresh.state.changeFile lib ⟨"/a/p.py"⟩ "").2
    let m : Module := .source (.ofTree "" none tree)
    let bare := (atCursor lib m "" e.state).1
    let members := (atCursor lib m "A" e.state).1
    Engine.Reachable e ∧ m.Made ∧
      (bare.take 2).map Symbol.id = [⟨"A", .classDef, ""⟩, ⟨"A", .classDef, "p"⟩] ∧
      (bare.map Symbol.id).Nodup ∧
      members.map Symbol.id = [⟨"x", .attribute, ""⟩] ∧ (members.map Symbol.id).Nodup := by
  intro again tree lib h fresh e m bare members
  have home : (⟨"/"⟩ : Path).isAbsolute := by decide
  have run : Engine.Reachable e := .changeFile (.rebuild (.initial {} home) "/a" .never home) lib _ _
  have context : m.Made := .source "" none tree
  obtain ⟨-, cursor, -, -⟩ := answers_are_distinct lib run.modulesAre_made context
  exact ⟨run, context, by decide +kernel, cursor "", by decide +kernel, cursor "A"⟩

end Completion

end ImportAtlas
