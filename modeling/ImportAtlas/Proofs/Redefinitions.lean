import ImportAtlas.Proofs.ClassNames
import ImportAtlas.Proofs.ClassScopes
import Mathlib.Data.List.Basic

/-!
Classes that are defined several times. The symbol of a class is that of its first definition in
the scope, its members are those of the last one, and the members of the classes inside a definition
stay when a later definition takes its place. Where no path is defined twice, all come from one
definition.
-/

set_option autoImplicit false

namespace ImportAtlas

open Python

def bodyOf (name : String) : Statement → List (List Statement)
  | .classDef _ own body => if own = name then [body] else []
  | _ => []

/-- The bodies of the definitions of the class `name` at the level of a block, in document order. -/
def classBodies (name : String) (block : List Statement) : List (List Statement) :=
  (inlined block).flatMap (bodyOf name)

/-- The blocks that stand for a scope, in document order: the text at the top level, and the bodies
of the definitions of a class. -/
def scopeBlocks (tree : List Statement) : Option String → List (List Statement)
  | none => [tree]
  | some path => classDefinitions path tree

def SourceModule.symbolsIn (m : SourceModule) : Option String → List Symbol
  | none => m.globals
  | some path => m.scopes.members path

/-! ### Paths -/

private theorem toList_dotted (path name : String) :
    (path ++ "." ++ name).toList = path.toList ++ '.' :: name.toList := by
  simp

private theorem classPath_inj {outer outer' : Option String} {name name' : String}
    (plain : '.' ∉ name.toList) (plain' : '.' ∉ name'.toList)
    (h : classPath outer name = classPath outer' name') : outer = outer' ∧ name = name' := by
  have chars := congrArg String.toList h
  cases outer with
  | none =>
    cases outer' with
    | none => exact ⟨rfl, h⟩
    | some path =>
      rw [classPath, classPath, toList_dotted] at chars
      exact absurd (chars ▸ List.mem_append_right _ List.mem_cons_self) plain
  | some path =>
    cases outer' with
    | none =>
      rw [classPath, classPath, toList_dotted] at chars
      exact absurd (chars ▸ List.mem_append_right _ List.mem_cons_self) plain'
    | some path' =>
      rw [classPath, classPath, toList_dotted, toList_dotted] at chars
      -- both are cut at their last dot
      have cut := congrArg (Text.splitLast? '.') chars
      rw [Text.splitLast?_append_cons _ plain, Text.splitLast?_append_cons _ plain'] at cut
      simp only [Option.some.injEq, Prod.mk.injEq, String.toList_inj] at cut
      exact ⟨congrArg some cut.1, cut.2⟩

private theorem classPath_ne_inside {name : String} (plain : '.' ∉ name.toList)
    (outer : Option String)
    (own rest : String) : classPath outer name ≠ classPath outer own ++ "." ++ rest := by
  have dotted : name ≠ own ++ "." ++ rest := by
    rintro rfl
    rw [toList_dotted] at plain
    exact plain (List.mem_append_right _ List.mem_cons_self)
  cases outer with
  | none => exact dotted
  | some path =>
    intro h
    simp only [classPath, String.append_assoc, String.append_right_inj] at h
    exact dotted (by rw [h, String.append_assoc])

private theorem valuesAt_classPath {name : String} (plain : '.' ∉ name.toList)
    (outer : Option String) {block : List Statement} (named : Named block) :
    valuesAt (classPath outer name) (classesIn outer block) = classBodies name block := by
  rw [classesIn_eq, valuesAt_flatMap, classBodies]
  refine List.flatMap_congr fun statement member => ?_
  cases statement with
  | classDef decorators own body =>
    have plain' : '.' ∉ own.toList := not_mem_of_isIdentifier (named.identifier member) (by decide)
    -- a path inside `own` has one part more
    have inside : valuesAt (classPath outer name)
        (classesIn (some (classPath outer own)) body) = [] := by
      refine List.eq_nil_iff_forall_not_mem.mpr fun other listed => ?_
      obtain ⟨rest, path⟩ := exists_of_mem_classesIn_some (mem_valuesAt.mp listed)
      exact classPath_ne_inside plain outer own rest path
    rw [classesInStatement, valuesAt_cons, inside, List.append_nil, bodyOf]
    by_cases same : own = name
    · rw [if_pos (congrArg (classPath outer) same), if_pos same]
    · rw [if_neg fun h => same (classPath_inj plain' plain h).2, if_neg same]
  | compound clauses => exact absurd member (not_mem_inlined_compound clauses block)
  | _ => rfl

private theorem valuesAt_classPath_inside {name : String} (plain : '.' ∉ name.toList)
    (path : String) {outer : Option String} (other : outer ≠ some path) {block : List Statement}
    (named : Named block) :
    valuesAt (classPath (some path) name) (classesIn outer block) =
      (valuesAt path (classesIn outer block)).flatMap (classBodies name) := by
  induction block using block_induction generalizing outer with
  | step block ih =>
    rw [classesIn_eq, valuesAt_flatMap, valuesAt_flatMap, List.flatMap_assoc]
    refine List.flatMap_congr fun statement member => ?_
    cases statement with
    | classDef decorators own body =>
      have plain' : '.' ∉ own.toList :=
        not_mem_of_isIdentifier (named.identifier member) (by decide)
      have differs : classPath outer own ≠ classPath (some path) name :=
        fun h => other (classPath_inj plain' plain h).1
      rw [classesInStatement, valuesAt_cons, if_neg differs, List.nil_append, valuesAt_cons]
      -- at the path before, the classes at the level of the body count; else those further inside
      by_cases here : classPath outer own = path
      · rw [here, if_pos rfl, valuesAt_classPath plain (some path) (named.body member),
          valuesAt_self, List.append_nil, List.flatMap_singleton]
      · rw [if_neg here, List.nil_append]
        exact ih decorators own body member (fun h => here (Option.some.inj h)) (named.body member)
    | compound clauses => exact absurd member (not_mem_inlined_compound clauses block)
    | _ => rfl

/-- The definitions at a path are those of its last name in the blocks of the scope before it. -/
theorem classDefinitions_classPath {tree : List Statement} (named : Named tree) {name : String}
    (plain : '.' ∉ name.toList) (parent : Option String) :
    classDefinitions (classPath parent name) tree =
      (scopeBlocks tree parent).flatMap (classBodies name) := by
  cases parent with
  | none => exact (valuesAt_classPath plain none named).trans (List.flatMap_singleton ..).symm
  | some path => exact valuesAt_classPath_inside plain path (Option.some_ne_none path).symm named

/-! ### Symbols -/

section

variable {home : Home} {inClass : Bool} {block : List Statement}

private theorem find?_definedSymbols (name : String) (statement : Statement) :
    (definedSymbols home inClass statement).find? (·.id = ⟨name, .classDef, home.name⟩) =
      (bodyOf name statement).head?.map (classSymbol home name) := by
  have not_found (other : bodyOf name statement = []) :
      (definedSymbols home inClass statement).find? (·.id = ⟨name, .classDef, home.name⟩) = none := by
    refine List.find?_eq_none.mpr fun s member found => ?_
    have same := of_decide_eq_true found
    obtain ⟨decorators, body, rfl, -⟩ :=
      eq_classDef_of_mem_definedSymbols member (congrArg SymbolId.kind same)
    have own : s.name = name := congrArg SymbolId.name same
    rw [bodyOf, if_pos own] at other
    exact List.cons_ne_nil _ _ other
  cases statement with
  | classDef decorators own body =>
    by_cases same : own = name
    · subst same
      rw [definedSymbols, bodyOf, if_pos rfl]
      exact List.find?_cons_of_pos (decide_eq_true rfl)
    · rw [not_found (if_neg same), bodyOf, if_neg same]
      rfl
  | _ => exact not_found rfl

private theorem find?_blockSymbols (name : String) :
    ((inlined block).flatMap (definedSymbols home inClass)).find?
        (·.id = ⟨name, .classDef, home.name⟩) =
      (classBodies name block).head?.map (classSymbol home name) := by
  rw [List.find?_flatMap, classBodies, List.head?_flatMap, List.map_findSome?]
  exact congrArg (List.findSome? · (inlined block)) (funext (find?_definedSymbols name))

private theorem eq_classSymbol_of_mem_blockSymbols {s : Symbol}
    (h : s ∈ blockSymbols home inClass block) (kind : s.kind = .classDef) : ∃ first,
    (classBodies s.name block).head? = some first ∧
      s = classSymbol home s.name first := by
  have first := SymbolSet.find?_of_mem_firsts h
  obtain ⟨statement, -, own⟩ := List.mem_flatMap.mp (SymbolSet.mem_of_mem_firsts h)
  obtain ⟨_, body, -, symbol⟩ := eq_classDef_of_mem_definedSymbols own kind
  have id : s.id = ⟨s.name, .classDef, home.name⟩ := congrArg Symbol.id symbol
  rw [id, find?_blockSymbols] at first
  obtain ⟨body, found, same⟩ := Option.map_eq_some_iff.mp first
  exact ⟨body, found, same.symm⟩

private theorem exists_mem_blockSymbols {name : String} (h : classBodies name block ≠ []) :
    ∃ s ∈ blockSymbols home inClass block, s.kind = .classDef ∧ s.name = name := by
  obtain ⟨body, member⟩ := List.exists_mem_of_ne_nil _ h
  obtain ⟨statement, listed, own⟩ := List.mem_flatMap.mp member
  have defined : classSymbol home name body ∈ definedSymbols home inClass statement := by
    cases statement with
    | classDef decorators other inner =>
      rw [bodyOf] at own
      split at own
      · rename_i same
        rw [List.mem_singleton.mp own, ← same]
        exact List.mem_singleton_self _
      · exact absurd own List.not_mem_nil
    | _ => exact absurd own List.not_mem_nil
  obtain ⟨s, kept, same⟩ := SymbolSet.exists_mem_firsts (List.mem_flatMap.mpr ⟨_, listed, defined⟩)
  exact ⟨s, kept, congrArg SymbolId.kind same, congrArg SymbolId.name same⟩

end

private theorem named_of_mem_classesIn {outer : Option String} {block : List Statement}
    (named : Named block) {d : String × List Statement} (h : d ∈ classesIn outer block) : Named d.2 := by
  induction block using block_induction generalizing outer with
  | step block ih =>
    obtain ⟨decorators, name, body, member, rfl | inner⟩ := exists_of_mem_classesIn h
    · exact named.body member
    · exact ih decorators name body member (named.body member) inner

private theorem named_of_mem_scopeBlocks {tree : List Statement} (named : Named tree)
    {parent : Option String} {scope : List Statement} (h : scope ∈ scopeBlocks tree parent) :
    Named scope := by
  cases parent with
  | none =>
    rw [List.mem_singleton.mp h]
    exact named
  | some path => exact named_of_mem_classesIn named (mem_valuesAt.mp h)

private theorem valuesAt_eq_singleton {β : Type} {pairs : List (String × β)}
    (once : (pairs.map Prod.fst).Nodup) {key : String} {b : β} (h : (key, b) ∈ pairs) :
    valuesAt key pairs = [b] := by
  induction pairs with
  | nil => exact absurd h List.not_mem_nil
  | cons p pairs ih =>
    obtain ⟨fresh, once⟩ := List.nodup_cons.mp once
    rw [valuesAt_cons]
    rcases List.mem_cons.mp h with rfl | later
    · have none_later : valuesAt key pairs = [] := by
        refine List.eq_nil_iff_forall_not_mem.mpr fun c member => ?_
        exact fresh (List.mem_map.mpr ⟨(key, c), mem_valuesAt.mp member, rfl⟩)
      rw [if_pos rfl, none_later, List.append_nil]
    · have other : p.1 ≠ key := by
        rintro rfl
        exact fresh (List.mem_map.mpr ⟨_, later, rfl⟩)
      rw [if_neg other, List.nil_append, ih once later]

private theorem dropLast_scopeBlocks {tree : List Statement}
    (once : ((classesIn none tree).map Prod.fst).Nodup) (parent : Option String) :
    (scopeBlocks tree parent).dropLast = [] := by
  cases parent with
  | none => rfl
  | some path =>
    refine List.eq_nil_iff_forall_not_mem.mpr fun body member => ?_
    have only : classDefinitions path tree = [body] :=
      valuesAt_eq_singleton once (mem_valuesAt.mp (List.dropLast_subset _ member))
    rw [scopeBlocks, only] at member
    exact List.not_mem_nil member

namespace SourceModule

variable {name : String} {file : Option Path} {tree : List Statement} {parent : Option String}

private theorem symbolsIn_ofTree : (ofTree name file tree).symbolsIn parent =
    ((scopeBlocks tree parent).getLast?.map
      (blockSymbols (Home.ofFile name file) parent.isSome)).getD [] := by
  cases parent with
  | none => exact globals_ofTree name file tree
  | some path => rw [symbolsIn, ScopeTable.members, lookup_ofTree, ← classDefinitions]; rfl

private theorem mem_symbolsIn {s : Symbol} (h : s ∈ (ofTree name file tree).symbolsIn parent) :
    ∃ scope, (scopeBlocks tree parent).getLast? = some scope ∧
      s ∈ blockSymbols (Home.ofFile name file) parent.isSome scope := by
  rw [symbolsIn_ofTree] at h
  cases last : (scopeBlocks tree parent).getLast? with
  | none =>
    rw [last] at h
    exact absurd h List.not_mem_nil
  | some scope =>
    rw [last] at h
    exact ⟨scope, rfl, h⟩

private theorem plain_of_mem_symbolsIn (named : Named tree) {s : Symbol}
    (h : s ∈ (ofTree name file tree).symbolsIn parent) (kind : s.kind = .classDef) :
    '.' ∉ s.name.toList := by
  obtain ⟨scope, lastBlock, member⟩ := mem_symbolsIn h
  obtain ⟨decorators, body, defined⟩ := exists_classDef_of_mem_blockSymbols member kind
  have scopeNamed := named_of_mem_scopeBlocks named (List.mem_of_getLast? lastBlock)
  exact not_mem_of_isIdentifier (scopeNamed.identifier defined) (by decide)

private theorem symbol_first_members_last (named : Named tree) {s : Symbol}
    (h : s ∈ (ofTree name file tree).symbolsIn parent) (kind : s.kind = .classDef) :
    ∃ scope first last, (scopeBlocks tree parent).getLast? = some scope ∧
      (classBodies s.name scope).head? = some first ∧
      (classBodies s.name scope).getLast? = some last ∧
      s = classSymbol (Home.ofFile name file) s.name first ∧
      (ofTree name file tree).scopes.lookup (classPath parent s.name) =
        some (blockSymbols (Home.ofFile name file) true last) := by
  obtain ⟨scope, lastBlock, member⟩ := mem_symbolsIn h
  obtain ⟨first, found, symbol⟩ := eq_classSymbol_of_mem_blockSymbols member kind
  have plain := plain_of_mem_symbolsIn named h kind
  have some_body : classBodies s.name scope ≠ [] := List.ne_nil_of_mem (List.mem_of_head? found)
  have last := List.getLast?_eq_some_getLast some_body
  refine ⟨scope, first, _, lastBlock, found, last, symbol, ?_⟩
  obtain ⟨before, split⟩ := List.getLast?_eq_some_iff.mp lastBlock
  rw [lookup_ofTree, ← classDefinitions, classDefinitions_classPath named plain, split,
    List.flatMap_append, List.flatMap_singleton, List.getLast?_append, last]
  rfl

/-- Members of a class that is no symbol of the scope come from a definition of the scope that a
later one has taken the place of. -/
theorem symbol_or_members_overwritten (named : Named tree) {inner : String}
    (plain : '.' ∉ inner.toList) {members : List Symbol}
    (h : (ofTree name file tree).scopes.lookup (classPath parent inner) = some members) :
    (∃ s ∈ (ofTree name file tree).symbolsIn parent, s.kind = .classDef ∧ s.name = inner) ∨
      ∃ body,
        ((scopeBlocks tree parent).dropLast.flatMap (classBodies inner)).getLast? = some body ∧
        members = blockSymbols (Home.ofFile name file) true body := by
  rw [lookup_ofTree, ← classDefinitions, classDefinitions_classPath named plain] at h
  cases lastBlock : (scopeBlocks tree parent).getLast? with
  | none =>
    rw [List.getLast?_eq_none_iff.mp lastBlock] at h
    exact absurd h.symm (Option.some_ne_none members)
  | some scope =>
    by_cases defined : classBodies inner scope = []
    · obtain ⟨before, split⟩ := List.getLast?_eq_some_iff.mp lastBlock
      rw [split, List.flatMap_append, List.flatMap_singleton, defined, List.append_nil] at h
      obtain ⟨body, last, found⟩ := Option.map_eq_some_iff.mp h
      rw [split, List.dropLast_concat]
      exact Or.inr ⟨body, last, found.symm⟩
    · rw [symbolsIn_ofTree, lastBlock]
      exact Or.inl (exists_mem_blockSymbols defined)

private theorem one_definition (named : Named tree)
    (once : ((classesIn none tree).map Prod.fst).Nodup) {s : Symbol}
    (h : s ∈ (ofTree name file tree).symbolsIn parent) (kind : s.kind = .classDef) :
    ∃ body, classDefinitions (classPath parent s.name) tree = [body] ∧
      s = classSymbol (Home.ofFile name file) s.name body ∧
      (ofTree name file tree).scopes.lookup (classPath parent s.name) =
        some (blockSymbols (Home.ofFile name file) true body) := by
  obtain ⟨scope, first, last, lastBlock, head, tail, symbol, members⟩ :=
    symbol_first_members_last named h kind
  have plain := plain_of_mem_symbolsIn named h kind
  have listed {body : List Statement} (own : body ∈ classBodies s.name scope) :
      classDefinitions (classPath parent s.name) tree = [body] := by
    refine valuesAt_eq_singleton once (mem_valuesAt.mp ?_)
    rw [← classDefinitions, classDefinitions_classPath named plain]
    exact List.mem_flatMap.mpr ⟨scope, List.mem_of_getLast? lastBlock, own⟩
  have only := listed (List.mem_of_head? head)
  have same : last = first :=
    List.singleton_inj.mp ((listed (List.mem_of_getLast? tail)).symm.trans only)
  exact ⟨first, only, symbol, same ▸ members⟩

private theorem symbol_of_members (named : Named tree)
    (once : ((classesIn none tree).map Prod.fst).Nodup) {inner : String}
    (plain : '.' ∉ inner.toList)
    (h : (ofTree name file tree).scopes.members (classPath parent inner) ≠ []) :
    ∃ s ∈ (ofTree name file tree).symbolsIn parent, s.kind = .classDef ∧ s.name = inner := by
  cases found : (ofTree name file tree).scopes.lookup (classPath parent inner) with
  | none =>
    rw [ScopeTable.members, found] at h
    exact absurd rfl h
  | some members =>
    refine (symbol_or_members_overwritten named plain found).resolve_right ?_
    rintro ⟨body, earlier, -⟩
    rw [dropLast_scopeBlocks once] at earlier
    exact Option.some_ne_none body earlier.symm

/-- The classes of a text that can be read are named by identifiers. And in every tree with such
names: the symbol of a class is that of its first definition in the last block of its scope, and the
members are those of the last definition there. Members without such a symbol are left over from a
definition of the scope that was overwritten. So where no path is defined twice, a class has its
symbol and its members from one definition, and only classes among the symbols of a scope have
members. -/
theorem symbols_and_members_of_classes (name : String) (file : Option Path)
    (parent : Option String) :
    (∀ text tree, parse text = some tree → Named tree) ∧
    ∀ tree, Named tree →
      (∀ s ∈ (ofTree name file tree).symbolsIn parent, s.kind = .classDef →
        ∃ scope first last, (scopeBlocks tree parent).getLast? = some scope ∧
          (classBodies s.name scope).head? = some first ∧
          (classBodies s.name scope).getLast? = some last ∧
          s = classSymbol (Home.ofFile name file) s.name first ∧
          (ofTree name file tree).scopes.lookup (classPath parent s.name) =
            some (blockSymbols (Home.ofFile name file) true last)) ∧
      (∀ inner, '.' ∉ inner.toList → ∀ members,
        (ofTree name file tree).scopes.lookup (classPath parent inner) = some members →
        (∃ s ∈ (ofTree name file tree).symbolsIn parent, s.kind = .classDef ∧ s.name = inner) ∨
          ∃ body,
            ((scopeBlocks tree parent).dropLast.flatMap (classBodies inner)).getLast? = some body ∧
            members = blockSymbols (Home.ofFile name file) true body) ∧
      (((classesIn none tree).map Prod.fst).Nodup →
        (∀ s ∈ (ofTree name file tree).symbolsIn parent, s.kind = .classDef →
          ∃ body, classDefinitions (classPath parent s.name) tree = [body] ∧
            s = classSymbol (Home.ofFile name file) s.name body ∧
            (ofTree name file tree).scopes.lookup (classPath parent s.name) =
              some (blockSymbols (Home.ofFile name file) true body)) ∧
        ∀ inner, '.' ∉ inner.toList →
          (ofTree name file tree).scopes.members (classPath parent inner) ≠ [] →
          ∃ s ∈ (ofTree name file tree).symbolsIn parent, s.kind = .classDef ∧ s.name = inner) :=
  ⟨fun _ _ read => named_of_parse read, fun _ named =>
    ⟨fun _ member kind => symbol_first_members_last named member kind,
      fun _ plain _ found => symbol_or_members_overwritten named plain found,
      fun once => ⟨fun _ member kind => one_definition named once member kind,
        fun _ plain found => symbol_of_members named once plain found⟩⟩⟩

theorem symbols_and_members_of_inner_class :
    ∃ tree, parse "class A:\n class B:\n  'b'\n  x = 1\n" = some tree ∧
      ((classesIn none tree).map Prod.fst).Nodup ∧
      (ofTree "m" none tree).symbolsIn (some "A") = [⟨"B", .classDef, "m", some "b", none⟩] ∧
      ∃ body, classDefinitions "A.B" tree = [body] ∧
        classSymbol (Home.ofFile "m" none) "B" body = ⟨"B", .classDef, "m", some "b", none⟩ ∧
        (ofTree "m" none tree).scopes.lookup "A.B" =
          some (blockSymbols (Home.ofFile "m" none) true body) := by
  obtain ⟨tree, read, once, symbols⟩ := exists_of_any
    (P := fun tree => ((classesIn none tree).map Prod.fst).Nodup ∧
      (ofTree "m" none tree).symbolsIn (some "A") = [⟨"B", .classDef, "m", some "b", none⟩])
    (r := parse "class A:\n class B:\n  'b'\n  x = 1\n") (by decide +kernel)
  obtain ⟨named, classes⟩ := symbols_and_members_of_classes "m" none (some "A")
  obtain ⟨-, -, defined_once⟩ := classes tree (named _ tree read)
  obtain ⟨body, only, symbol, members⟩ :=
    (defined_once once).1 ⟨"B", .classDef, "m", some "b", none⟩ (by rw [symbols]; decide) rfl
  exact ⟨tree, read, once, symbols, body, only, symbol.symm, members⟩

/-- A class that is defined again: its symbol has the documentation of the first definition and its
members are those of the second. The class inside the first has members still, though none of the
members of the class is a class. -/
theorem overwritten_class_keeps_symbol_and_inner_members :
    ∃ tree, parse "class A:\n 'first'\n class B:\n  x = 1\nclass A:\n 'second'\n y = 1\n" =
        some tree ∧
      (ofTree "m" none tree).globals = [⟨"A", .classDef, "m", some "first", none⟩] ∧
      (∀ body ∈ classDefinitions "A" tree,
        classSymbol (Home.ofFile "m" none) "A" body ∈ (ofTree "m" none tree).globals →
        (ofTree "m" none tree).scopes.lookup "A" ≠
          some (blockSymbols (Home.ofFile "m" none) true body)) ∧
      (ofTree "m" none tree).scopes.lookup "A" = some [⟨"y", .attribute, "m", none, none⟩] ∧
      (ofTree "m" none tree).scopes.members "A.B" = [⟨"x", .attribute, "m", none, none⟩] :=
  exists_of_any (by decide +kernel)

end SourceModule

end ImportAtlas
