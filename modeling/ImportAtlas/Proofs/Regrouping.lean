import ImportAtlas.Proofs.Collected

/-!
The symbol tables of texts that are put together from statements: what comes of two texts in a row,
and of code that is moved into compound statements or out of them. Only documentation depends on
where a statement stands, for it is read off the first statement of a body.
-/

set_option autoImplicit false

namespace ImportAtlas

open Python

namespace Python

private theorem inlined_of_no_compound : (block : List Statement) →
    (∀ clauses, .compound clauses ∉ block) → inlined block = block
  | [], _ => inlined_nil
  | statement :: rest, simple => by
    have behind := inlined_of_no_compound rest fun clauses member =>
      simple clauses (List.mem_cons_of_mem _ member)
    rw [inlined_cons, behind]
    cases statement with
    | compound clauses => exact absurd List.mem_cons_self (simple clauses)
    | _ => simp [inlinedStatement]

private theorem inlined_inlined (block : List Statement) : inlined (inlined block) =
    inlined block :=
  inlined_of_no_compound _ fun clauses => not_mem_inlined_compound clauses block

/-- Blocks that come from each other by moving code into compound statements or out of them, at the
top level or in the bodies of classes. -/
inductive Regrouped : List Statement → List Statement → Prop
  | refl (block : List Statement) : Regrouped block block
  | symm {a b : List Statement} : Regrouped a b → Regrouped b a
  | trans {a b c : List Statement} : Regrouped a b → Regrouped b c → Regrouped a c
  | append {a a' b b' : List Statement} :
      Regrouped a a' → Regrouped b b' → Regrouped (a ++ b) (a' ++ b')
  | compound (clauses : List Clause) :
      Regrouped [.compound clauses] (clauses.flatMap Clause.body)
  | classDef (decorators : List Decorator) (name : String) {body body' : List Statement} :
      Regrouped body body' →
      Regrouped [.classDef decorators name body] [.classDef decorators name body']

end Python

def Symbol.undocumented (s : Symbol) : Symbol :=
  { s with doc := none }

structure SourceModule.Alike (view : Symbol → Symbol) (m m' : SourceModule) : Prop where
  globals : m.globals.map view = m'.globals.map view
  imports : m.imports.map view = m'.imports.map view
  wildcards : m.wildcards.map view = m'.wildcards.map view
  scopes : ∀ path,
    (m.scopes.lookup path).map (List.map view) = (m'.scopes.lookup path).map (List.map view)

/-- A module with the symbols of one module and then those of another, the first of each identity
kept. For a scope that both have, the second counts. -/
structure SourceModule.Joined (first second m : SourceModule) : Prop where
  globals : m.globals = SymbolSet.firsts (first.globals ++ second.globals)
  imports : m.imports = SymbolSet.firsts (first.imports ++ second.imports)
  wildcards : m.wildcards = SymbolSet.firsts (first.wildcards ++ second.wildcards)
  scopes : ∀ path,
    m.scopes.lookup path = (second.scopes.lookup path).or (first.scopes.lookup path)

structure Members.Joined (first second m : Members) : Prop where
  set : m.set.toList = SymbolSet.firsts (first.set.toList ++ second.set.toList)
  scopes : ∀ path,
    m.scopes.lookup path = (second.scopes.lookup path).or (first.scopes.lookup path)

section

variable {home : Home} {a a' b b' c : List Statement}

/-! ### One text after another -/

private theorem classesIn_append (outer : Option String) (a b : List Statement) :
    classesIn outer (a ++ b) = classesIn outer a ++ classesIn outer b := by
  rw [classesIn_eq, inlined_append, List.flatMap_append, ← classesIn_eq, ← classesIn_eq]

private theorem firsts_inlined_append (own : Statement → List Symbol) (a b : List Statement) :
    SymbolSet.firsts ((inlined (a ++ b)).flatMap own) = SymbolSet.firsts
      (SymbolSet.firsts ((inlined a).flatMap own) ++ SymbolSet.firsts ((inlined b).flatMap own)) := by
  rw [inlined_append, List.flatMap_append, SymbolSet.firsts_append]

private theorem members_classesIn_append (path : String) (outer : Option String)
    (a b : List Statement) :
    (valuesAt path (classesIn outer (a ++ b))).getLast?.map (blockSymbols home true) =
      ((valuesAt path (classesIn outer b)).getLast?.map (blockSymbols home true)).or
        ((valuesAt path (classesIn outer a)).getLast?.map (blockSymbols home true)) := by
  rw [classesIn_append, valuesAt_append, List.getLast?_append, Option.map_or]

private theorem joined_ofTree (name : String) (file : Option Path) (a b : List Statement) :
    SourceModule.Joined (.ofTree name file a) (.ofTree name file b)
      (.ofTree name file (a ++ b)) where
  globals := by
    simp only [SourceModule.globals_ofTree]
    exact firsts_inlined_append _ a b
  imports := by
    simp only [SourceModule.imports_ofTree]
    exact firsts_inlined_append _ a b
  wildcards := by
    simp only [SourceModule.wildcards_ofTree]
    exact firsts_inlined_append _ a b
  scopes path := by
    simp only [SourceModule.lookup_ofTree]
    exact members_classesIn_append path none a b

private theorem joined_memberBlock (scope : String) (a b : List Statement) :
    Members.Joined (memberBlock home scope ⟨.empty, []⟩ a) (memberBlock home scope ⟨.empty, []⟩ b)
      (memberBlock home scope ⟨.empty, []⟩ (a ++ b)) where
  set := by
    simp only [toList_memberBlock]
    exact firsts_inlined_append _ a b
  scopes path := by
    simp only [lookup_members]
    exact members_classesIn_append path (some scope) a b

/-! ### Compound statements -/

theorem block_of_inlined_eq {σ : Type} (w : Walk σ) (s : σ) (same : inlined a = inlined b) :
    w.block s a = w.block s b := by
  rw [w.block_eq_foldl, w.block_eq_foldl, same]

/-! ### Moving code -/

variable (home) in
/-- Blocks that define and import the same in the same order, documentation aside. -/
structure Agree (a b : List Statement) : Prop where
  defined : ∀ inClass, ((inlined a).flatMap (definedSymbols home inClass)).map Symbol.undocumented =
    ((inlined b).flatMap (definedSymbols home inClass)).map Symbol.undocumented
  bound : (inlined a).flatMap (boundSymbols home) = (inlined b).flatMap (boundSymbols home)
  spread : (inlined a).flatMap (spreadSymbols home) = (inlined b).flatMap (spreadSymbols home)
  classes : ∀ outer,
    (classesIn outer a).map (fun d => (d.1, (blockSymbols home true d.2).map Symbol.undocumented)) =
      (classesIn outer b).map (fun d => (d.1, (blockSymbols home true d.2).map Symbol.undocumented))

namespace Agree

private theorem of_inlined_eq (same : inlined a = inlined b) : Agree home a b where
  defined _ := by rw [same]
  bound := by rw [same]
  spread := by rw [same]
  classes _ := by rw [classesIn_eq, classesIn_eq, same]

private theorem symm (h : Agree home a b) : Agree home b a :=
  ⟨fun inClass => (h.defined inClass).symm, h.bound.symm, h.spread.symm,
    fun outer => (h.classes outer).symm⟩

private theorem trans (h : Agree home a b) (h' : Agree home b c) : Agree home a c :=
  ⟨fun inClass => (h.defined inClass).trans (h'.defined inClass), h.bound.trans h'.bound,
    h.spread.trans h'.spread, fun outer => (h.classes outer).trans (h'.classes outer)⟩

private theorem append (h : Agree home a a') (h' : Agree home b b') :
    Agree home (a ++ b) (a' ++ b') where
  defined inClass := by
    simp only [inlined_append, List.flatMap_append, List.map_append, h.defined inClass,
      h'.defined inClass]
  bound := by simp only [inlined_append, List.flatMap_append, h.bound, h'.bound]
  spread := by simp only [inlined_append, List.flatMap_append, h.spread, h'.spread]
  classes outer := by
    simp only [classesIn_append, List.map_append, h.classes outer, h'.classes outer]

private theorem blockSymbols_eq (h : Agree home a b) (inClass : Bool) :
    (blockSymbols home inClass a).map Symbol.undocumented =
      (blockSymbols home inClass b).map Symbol.undocumented := by
  have same (x : Symbol) : x.undocumented.id = x.id := rfl
  rw [blockSymbols, blockSymbols, SymbolSet.map_firsts same, SymbolSet.map_firsts same,
    h.defined inClass]

private theorem classDef (h : Agree home a b) (decorators : List Decorator) (name : String) :
    Agree home [.classDef decorators name a] [.classDef decorators name b] where
  defined _ := by
    rw [inlined_classDef, inlined_classDef, List.flatMap_singleton, List.flatMap_singleton,
      definedSymbols, definedSymbols]
    rfl
  bound := by simp only [inlined_classDef, List.flatMap_singleton, boundSymbols]
  spread := by simp only [inlined_classDef, List.flatMap_singleton, spreadSymbols]
  classes outer := by
    simp only [classesIn_eq outer, inlined_classDef, List.flatMap_singleton, classesInStatement,
      List.map_cons, h.blockSymbols_eq, h.classes]

private theorem of_regrouped (h : Regrouped a b) : Agree home a b := by
  induction h with
  | refl block => exact of_inlined_eq rfl
  | symm _ ih => exact ih.symm
  | trans _ _ ih ih' => exact ih.trans ih'
  | append _ _ ih ih' => exact ih.append ih'
  | compound clauses => exact of_inlined_eq (inlined_compound clauses)
  | classDef decorators name _ ih => exact ih.classDef decorators name

private theorem alike {name : String} {file : Option Path} (h : Agree (Home.ofFile name file) a b) :
    SourceModule.Alike Symbol.undocumented (.ofTree name file a) (.ofTree name file b) where
  globals := by
    simp only [SourceModule.globals_ofTree]
    exact h.blockSymbols_eq false
  imports := by rw [SourceModule.imports_ofTree, h.bound, SourceModule.imports_ofTree]
  wildcards := by rw [SourceModule.wildcards_ofTree, h.spread, SourceModule.wildcards_ofTree]
  scopes path := by
    -- the definitions of a path come in the same order, so the last ones belong together
    have members := congrArg (fun pairs => (valuesAt path pairs).getLast?) (h.classes none)
    simp only [valuesAt_map fun body =>
      (blockSymbols (Home.ofFile name file) true body).map Symbol.undocumented,
      List.getLast?_map] at members
    simp only [SourceModule.lookup_ofTree, Option.map_map]
    exact members

end Agree

end

/-- The tables of two texts in a row are those of the first and of the second put together; a
compound statement counts as the statements of its blocks, at the top level and in the body of a
class. So code can move into compound statements and out of them: no table changes but for
documentation. -/
theorem tables_follow_statements (name : String) (file : Option Path) :
    (∀ a b, SourceModule.Joined (.ofTree name file a) (.ofTree name file b)
      (.ofTree name file (a ++ b))) ∧
    (∀ clauses, Tables.ofTree (Home.ofFile name file) [.compound clauses] =
      Tables.ofTree (Home.ofFile name file) (clauses.flatMap Clause.body)) ∧
    (∀ tree, Tables.ofTree (Home.ofFile name file) tree =
      Tables.ofTree (Home.ofFile name file) (inlined tree)) ∧
    (∀ scope a b, Members.Joined
      (memberBlock (Home.ofFile name file) scope ⟨.empty, []⟩ a)
      (memberBlock (Home.ofFile name file) scope ⟨.empty, []⟩ b)
      (memberBlock (Home.ofFile name file) scope ⟨.empty, []⟩ (a ++ b))) ∧
    (∀ scope m clauses, memberBlock (Home.ofFile name file) scope m [.compound clauses] =
      memberBlock (Home.ofFile name file) scope m (clauses.flatMap Clause.body)) ∧
    (∀ scope m body, memberBlock (Home.ofFile name file) scope m body =
      memberBlock (Home.ofFile name file) scope m (inlined body)) ∧
    ∀ a b, Regrouped a b →
      SourceModule.Alike Symbol.undocumented (.ofTree name file a) (.ofTree name file b) := by
  refine ⟨joined_ofTree name file, fun clauses => ?_, fun tree => ?_, joined_memberBlock,
    fun scope m clauses => ?_, fun scope m body => ?_, fun a b h => (Agree.of_regrouped h).alike⟩
  · exact block_of_inlined_eq (topWalk _) {} (inlined_compound clauses)
  · exact block_of_inlined_eq (topWalk _) {} (inlined_inlined tree).symm
  · exact block_of_inlined_eq (memberWalk _ scope) m (inlined_compound clauses)
  · exact block_of_inlined_eq (memberWalk _ scope) m (inlined_inlined body).symm

/-- A string that is moved into a compound statement is no documentation any more; everything else
stays. -/
theorem tables_follow_statements_documented :
    let inside : List Statement :=
      [.classDef [] "A" [.compound [.mk "if" [.text "'d'", .assign [.name "x"]]]]]
    let outside : List Statement := [.classDef [] "A" [.text "'d'", .assign [.name "x"]]]
    SourceModule.Alike Symbol.undocumented (.ofTree "m" none inside) (.ofTree "m" none outside) ∧
      (SourceModule.ofTree "m" none inside).globals = [⟨"A", .classDef, "m", none, none⟩] ∧
      (SourceModule.ofTree "m" none outside).globals = [⟨"A", .classDef, "m", some "d", none⟩] := by
  refine ⟨?_, by decide +kernel, by decide +kernel⟩
  obtain ⟨-, -, -, -, -, -, moved⟩ := tables_follow_statements "m" none
  exact moved _ _ (.classDef [] "A" (.compound [.mk "if" [.text "'d'", .assign [.name "x"]]]))

end ImportAtlas
