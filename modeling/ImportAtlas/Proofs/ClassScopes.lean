import ImportAtlas.Proofs.Collected

/-!
From the symbol of a class to its members. The symbols of a module that denote classes make the
paths of its classes: from the top level, and further from the members of a class to the classes
inside it.
-/

set_option autoImplicit false

namespace ImportAtlas

open Python

/-- The dotted paths that lead through the symbols of classes, as a query follows them. -/
inductive SourceModule.IsClassPath (m : SourceModule) : String → Prop
  | top {s : Symbol} : s ∈ m.globals → s.kind = .classDef → IsClassPath m s.name
  | inner {path : String} {s : Symbol} : IsClassPath m path → s ∈ m.scopes.members path →
      s.kind = .classDef → IsClassPath m (path ++ "." ++ s.name)

/-- The bodies of the class definitions at a path, in document order. -/
def classDefinitions (path : String) (tree : List Statement) : List (List Statement) :=
  valuesAt path (classesIn none tree)

variable {home : Home} {inClass : Bool}

theorem eq_classDef_of_mem_definedSymbols {statement : Statement} {s : Symbol}
    (h : s ∈ definedSymbols home inClass statement) (kind : s.kind = .classDef) :
    ∃ decorators body, statement = .classDef decorators s.name body ∧
      s = classSymbol home s.name body := by
  cases statement with
  | classDef decorators name body =>
    rw [definedSymbols, List.mem_singleton] at h
    subst h
    exact ⟨decorators, body, rfl, rfl⟩
  | functionDef decorators name parameters body =>
    rw [definedSymbols, List.mem_append, List.mem_singleton] at h
    rcases h with field | rfl
    · split at field
      · rw [eq_symbol_of_mem_methodAttributes field] at kind
        exact SymbolKind.noConfusion kind
      · exact absurd field List.not_mem_nil
    · exact SymbolKind.noConfusion kind
  | assign targets =>
    rw [definedSymbols] at h
    obtain ⟨name, -, rfl⟩ := List.mem_map.mp h
    exact SymbolKind.noConfusion kind
  | _ => exact absurd h List.not_mem_nil

theorem exists_classDef_of_mem_blockSymbols {block : List Statement} {s : Symbol}
    (h : s ∈ blockSymbols home inClass block) (kind : s.kind = .classDef) :
    ∃ decorators body, .classDef decorators s.name body ∈ inlined block := by
  obtain ⟨statement, member, own⟩ := List.mem_flatMap.mp (SymbolSet.mem_of_mem_firsts h)
  obtain ⟨decorators, body, rfl, -⟩ := eq_classDef_of_mem_definedSymbols own kind
  exact ⟨decorators, body, member⟩

private theorem mem_classesIn_of_inside {outer : Option String} {block : List Statement}
    {around inside : String × List Statement} (h : around ∈ classesIn outer block)
    (h' : inside ∈ classesIn (some around.1) around.2) : inside ∈ classesIn outer block := by
  induction block using block_induction generalizing outer with
  | step block ih =>
    obtain ⟨decorators, name, body, member, rfl | deeper⟩ := exists_of_mem_classesIn h
    · exact mem_classesIn member (Or.inr h')
    · exact mem_classesIn member (Or.inr (ih decorators name body member deeper))

namespace SourceModule

variable {name : String} {file : Option Path} {tree : List Statement}

private theorem members_of_mem {path : String} {body : List Statement}
    (h : (path, body) ∈ classesIn none tree) :
    ∃ last, (path, last) ∈ classesIn none tree ∧
      (classDefinitions path tree).getLast? = some last ∧
      (ofTree name file tree).scopes.lookup path =
        some (blockSymbols (Home.ofFile name file) true last) := by
  have defined : classDefinitions path tree ≠ [] := List.ne_nil_of_mem (mem_valuesAt.mpr h)
  refine ⟨(classDefinitions path tree).getLast defined,
    mem_valuesAt.mp (List.getLast_mem defined), List.getLast?_eq_some_getLast defined, ?_⟩
  rw [lookup_ofTree, ← classDefinitions, List.getLast?_eq_some_getLast defined, Option.map_some]

/-- There is a definition at each path that leads through classes. -/
theorem exists_definition_of_classPath {path : String}
    (h : (ofTree name file tree).IsClassPath path) :
    ∃ body, (path, body) ∈ classesIn none tree := by
  induction h with
  | top member kind =>
    rw [globals_ofTree] at member
    obtain ⟨decorators, body, defined⟩ := exists_classDef_of_mem_blockSymbols member kind
    exact ⟨body, mem_classesIn defined (Or.inl rfl)⟩
  | inner _ member kind ih =>
    obtain ⟨_, around⟩ := ih
    obtain ⟨last, listed, -, members⟩ := @members_of_mem name file tree _ _ around
    rw [ScopeTable.members, members, Option.getD_some] at member
    obtain ⟨decorators, body, defined⟩ := exists_classDef_of_mem_blockSymbols member kind
    exact ⟨body, mem_classesIn_of_inside listed (mem_classesIn defined (Or.inl rfl))⟩

/-- The symbols of classes lead to members: a path through them has a scope, with the members in the
body of the last class definition at the path. -/
theorem classPath_leads_to_members (name : String) (file : Option Path) (tree : List Statement)
    {path : String} (h : (ofTree name file tree).IsClassPath path) :
    ∃ body, (classDefinitions path tree).getLast? = some body ∧
      (ofTree name file tree).scopes.lookup path =
        some (blockSymbols (Home.ofFile name file) true body) := by
  obtain ⟨_, defined⟩ := exists_definition_of_classPath h
  obtain ⟨last, -, found⟩ := members_of_mem defined
  exact ⟨last, found⟩

/-- A decorated class in a class that a clause defines and that is defined again behind it: the
later definition has the members, among them the attribute that a method sets. -/
theorem classPath_leads_to_members_of_later_class :
    let method : Statement :=
      .functionDef [] "f" [.named "self"] [.assign [.attribute "self" "x"]]
    let again : Statement := .classDef [⟨[], "final"⟩] "B" [method, .assign [.name "f"]]
    let m := ofTree "m" none [
      .compound [.mk "try" [.classDef [] "A" []]],
      .classDef [] "A" [.classDef [] "B" [], .compound [.mk "if" [again]]]]
    m.IsClassPath "A.B" ∧ m.scopes.lookup "A.B" = some [
      ⟨"x", .attribute, "m", none, none⟩, ⟨"f", .function, "m", none, none⟩,
      ⟨"f", .attribute, "m", none, none⟩] := by
  intro method again m
  have path : m.IsClassPath "A.B" := by
    have top : m.IsClassPath "A" :=
      .top (s := ⟨"A", .classDef, "m", none, none⟩) (by decide +kernel) rfl
    exact .inner (s := ⟨"B", .classDef, "m", none, none⟩) top (by decide +kernel) rfl
  obtain ⟨body, last, members⟩ := classPath_leads_to_members "m" none _ path
  have found : body = [method, .assign [.name "f"]] := (Option.some.inj last).symm
  rw [found] at members
  exact ⟨path, members⟩

end SourceModule

end ImportAtlas
