import ImportAtlas.Module.Basic
import ImportAtlas.Proofs.Inlining
import ImportAtlas.Proofs.SymbolSets

/-!
What the symbol tables of a text collect. Each statement has its own symbols, and the sets of the
tables are the symbols of the statements in document order, the first of each identity kept. The
scopes come from the class definitions, wherever they are nested: where several definitions have one
path, the last of them counts.
-/

set_option autoImplicit false

namespace ImportAtlas

open Python

variable (home : Home)

/-! ### The symbols of a block -/

/-- The symbols that a statement other than a compound one defines, in order. In a class, the
attributes that a method sets on its receiver come before the method. -/
def definedSymbols (inClass : Bool) : Statement → List Symbol
  | .classDef _ name body => [classSymbol home name body]
  | .functionDef decorators name parameters body =>
    (if inClass then methodAttributes home decorators parameters body else []) ++
      [functionSymbol home name body]
  | .assign targets => (Target.namesAll targets).map (home.symbol · .attribute)
  | _ => []

variable {home} in
theorem eq_symbol_of_mem_methodAttributes {decorators : List Decorator}
    {parameters : List Parameter} {body : List Statement} {s : Symbol}
    (h : s ∈ methodAttributes home decorators parameters body) :
    s = home.symbol s.name .attribute := by
  unfold methodAttributes at h
  split at h
  · exact absurd h List.not_mem_nil
  · split at h
    · obtain ⟨field, -, rfl⟩ := List.mem_map.mp h
      rfl
    · exact absurd h List.not_mem_nil

def boundSymbols : Statement → List Symbol
  | .importNames items => items.filterMap (importedSymbol home)
  | .importFrom source items =>
    items.filterMap (importedFromSymbol home (home.absolute source.text))
  | _ => []

def spreadSymbols : Statement → List Symbol
  | .importAll source => wildcardSymbols home (home.absolute source.text)
  | _ => []

/-- The symbols of a block in document order, of each identity the first. -/
def blockSymbols (inClass : Bool) (block : List Statement) : List Symbol :=
  SymbolSet.firsts ((inlined block).flatMap (definedSymbols home inClass))

def topWalk : Walk Tables where
  statement := topStatement home
  block := topBlock home
  clauses := topClauses home
  compound _ _ := by rw [topStatement]
  block_nil _ := by rw [topBlock]
  block_cons _ _ _ := by rw [topBlock]
  clauses_nil _ := by rw [topClauses]
  clauses_cons _ _ _ _ := by rw [topClauses]

def memberWalk (scope : String) : Walk Members where
  statement := memberStatement home scope
  block := memberBlock home scope
  clauses := memberClauses home scope
  compound _ _ := by rw [memberStatement]
  block_nil _ := by rw [memberBlock]
  block_cons _ _ _ := by rw [memberBlock]
  clauses_nil _ := by rw [memberClauses]
  clauses_cons _ _ _ _ := by rw [memberClauses]

variable {home}

section

variable {block : List Statement} {statement : Statement}

private theorem sets_topStatement (member : statement ∈ inlined block) (t : Tables) :
    (topStatement home t statement).globals =
        t.globals.insertAll (definedSymbols home false statement) ∧
      (topStatement home t statement).imports =
        t.imports.insertAll (boundSymbols home statement) ∧
      (topStatement home t statement).wildcards =
        t.wildcards.insertAll (spreadSymbols home statement) := by
  cases statement with
  | compound clauses => exact absurd member (not_mem_inlined_compound clauses block)
  | _ => simp [topStatement, definedSymbols, boundSymbols, spreadSymbols]

private theorem set_memberStatement (member : statement ∈ inlined block) (scope : String)
    (m : Members) :
    (memberStatement home scope m statement).set =
      m.set.insertAll (definedSymbols home true statement) := by
  cases statement with
  | compound clauses => exact absurd member (not_mem_inlined_compound clauses block)
  | _ => simp [memberStatement, definedSymbols, SymbolSet.insertAll_append]

end

private theorem globals_topBlock (t : Tables) (block : List Statement) :
    (topBlock home t block).globals =
      t.globals.insertAll ((inlined block).flatMap (definedSymbols home false)) :=
  (topWalk home).view_block Tables.globals SymbolSet.insertAll_nil SymbolSet.insertAll_append
    (fun _ member t => (sets_topStatement member t).1) t

private theorem imports_topBlock (t : Tables) (block : List Statement) :
    (topBlock home t block).imports =
      t.imports.insertAll ((inlined block).flatMap (boundSymbols home)) :=
  (topWalk home).view_block Tables.imports SymbolSet.insertAll_nil SymbolSet.insertAll_append
    (fun _ member t => (sets_topStatement member t).2.1) t

private theorem wildcards_topBlock (t : Tables) (block : List Statement) :
    (topBlock home t block).wildcards =
      t.wildcards.insertAll ((inlined block).flatMap (spreadSymbols home)) :=
  (topWalk home).view_block Tables.wildcards SymbolSet.insertAll_nil SymbolSet.insertAll_append
    (fun _ member t => (sets_topStatement member t).2.2) t

private theorem set_memberBlock (scope : String) (m : Members) (block : List Statement) :
    (memberBlock home scope m block).set =
      m.set.insertAll ((inlined block).flatMap (definedSymbols home true)) :=
  (memberWalk home scope).view_block Members.set SymbolSet.insertAll_nil SymbolSet.insertAll_append
    (fun _ member m => set_memberStatement member scope m) m

theorem toList_memberBlock (scope : String) (scopes : ScopeTable) (body : List Statement) :
    (memberBlock home scope ⟨.empty, scopes⟩ body).set.toList = blockSymbols home true body := by
  rw [set_memberBlock, blockSymbols, SymbolSet.firsts]

/-! ### Class definitions and their paths -/

def classPath (outer : Option String) (name : String) : String :=
  match outer with
  | none => name
  | some path => path ++ "." ++ name

mutual
/-- The class definitions in a statement in document order, those nested in others among them, each
with its path and its body. -/
def classesInStatement (outer : Option String) : Statement → List (String × List Statement)
  | .classDef _ name body =>
    (classPath outer name, body) :: classesIn (some (classPath outer name)) body
  | .compound clauses => classesInClauses outer clauses
  | _ => []

def classesIn (outer : Option String) : List Statement → List (String × List Statement)
  | [] => []
  | statement :: rest => classesInStatement outer statement ++ classesIn outer rest

def classesInClauses (outer : Option String) : List Clause → List (String × List Statement)
  | [] => []
  | .mk _ body :: rest => classesIn outer body ++ classesInClauses outer rest
end

def classWalk (outer : Option String) : Walk (List (String × List Statement)) where
  statement before s := before ++ classesInStatement outer s
  block before b := before ++ classesIn outer b
  clauses before cs := before ++ classesInClauses outer cs
  compound _ _ := by rw [classesInStatement]
  block_nil _ := by rw [classesIn, List.append_nil]
  block_cons _ _ _ := by rw [classesIn, List.append_assoc]
  clauses_nil _ := by rw [classesInClauses, List.append_nil]
  clauses_cons _ _ _ _ := by rw [classesInClauses, List.append_assoc]

theorem classesIn_eq (outer : Option String) (block : List Statement) :
    classesIn outer block = (inlined block).flatMap (classesInStatement outer) := by
  have listed : [] ++ classesIn outer block =
      [] ++ (inlined block).flatMap (classesInStatement outer) :=
    (classWalk outer).view_block id List.append_nil
      (fun v xs ys => (List.append_assoc v xs ys).symm) (fun _ _ _ => rfl) []
  exact listed

theorem mem_classesIn {outer : Option String} {block : List Statement}
    {decorators : List Decorator} {name : String} {body : List Statement}
    (member : .classDef decorators name body ∈ inlined block)
    {d : String × List Statement}
    (h : d = (classPath outer name, body) ∨ d ∈ classesIn (some (classPath outer name)) body) :
    d ∈ classesIn outer block := by
  rw [classesIn_eq]
  refine List.mem_flatMap.mpr ⟨_, member, ?_⟩
  rw [classesInStatement]
  exact List.mem_cons.mpr h

theorem exists_of_mem_classesIn {outer : Option String} {block : List Statement}
    {d : String × List Statement} (h : d ∈ classesIn outer block) :
    ∃ decorators name body, .classDef decorators name body ∈ inlined block ∧
      (d = (classPath outer name, body) ∨ d ∈ classesIn (some (classPath outer name)) body) := by
  rw [classesIn_eq] at h
  obtain ⟨statement, member, own⟩ := List.mem_flatMap.mp h
  cases statement with
  | classDef decorators name body =>
    rw [classesInStatement] at own
    exact ⟨decorators, name, body, member, List.mem_cons.mp own⟩
  | compound clauses => exact absurd member (not_mem_inlined_compound clauses block)
  | _ => simp [classesInStatement] at own

theorem exists_of_mem_classesIn_some {path : String} {block : List Statement}
    {d : String × List Statement} (h : d ∈ classesIn (some path) block) :
    ∃ rest, d.1 = path ++ "." ++ rest := by
  induction block using block_induction generalizing path with
  | step block ih =>
    obtain ⟨decorators, name, body, member, rfl | inner⟩ := exists_of_mem_classesIn h
    · exact ⟨name, rfl⟩
    · obtain ⟨rest, below⟩ := ih decorators name body member inner
      refine ⟨name ++ "." ++ rest, below.trans ?_⟩
      simp only [classPath, String.append_assoc]

/-! ### Scopes -/

def valuesAt {β : Type} (key : String) (pairs : List (String × β)) : List β :=
  (pairs.filter (·.1 = key)).map Prod.snd

section

variable {β γ : Type} {key : String}

theorem valuesAt_append (front back : List (String × β)) :
    valuesAt key (front ++ back) = valuesAt key front ++ valuesAt key back := by
  rw [valuesAt, List.filter_append, List.map_append, valuesAt, valuesAt]

theorem mem_valuesAt {pairs : List (String × β)} {b : β} :
    b ∈ valuesAt key pairs ↔ (key, b) ∈ pairs := by
  simp [valuesAt]

theorem valuesAt_cons (p : String × β) (pairs : List (String × β)) :
    valuesAt key (p :: pairs) = (if p.1 = key then [p.2] else []) ++ valuesAt key pairs := by
  unfold valuesAt
  by_cases own : p.1 = key <;> simp [own]

theorem valuesAt_flatMap {α : Type} (f : α → List (String × β)) (xs : List α) :
    valuesAt key (xs.flatMap f) = xs.flatMap fun x => valuesAt key (f x) := by
  induction xs with
  | nil => rfl
  | cons x xs ih => rw [List.flatMap_cons, valuesAt_append, ih, List.flatMap_cons]

theorem valuesAt_map (f : β → γ) (pairs : List (String × β)) :
    valuesAt key (pairs.map fun p => (p.1, f p.2)) = (valuesAt key pairs).map f := by
  simp [valuesAt, List.filter_map, Function.comp_def]

end

theorem valuesAt_self (path : String) (body : List Statement) :
    valuesAt path (classesIn (some path) body) = [] := by
  refine List.eq_nil_iff_forall_not_mem.mpr fun other member => ?_
  obtain ⟨rest, longer⟩ : ∃ rest, path = path ++ "." ++ rest :=
    exists_of_mem_classesIn_some (mem_valuesAt.mp member)
  have lengths := congrArg String.length longer
  have dot : ".".length = 1 := rfl
  rw [String.length_append, String.length_append] at lengths
  omega

variable (home) in
/-- What is recorded for a path when the classes in a list of definitions have been collected: the
members in the last definition with the path, or else what was recorded before. -/
def recorded (path : String) (before : Option (List Symbol))
    (classes : List (String × List Statement)) : Option (List Symbol) :=
  ((valuesAt path classes).getLast?.map (blockSymbols home true)).or before

private theorem recorded_nil (path : String) (before : Option (List Symbol)) :
    recorded home path before [] = before := by
  rw [recorded, valuesAt, List.filter_nil, List.map_nil, List.getLast?_nil, Option.map_none,
    Option.none_or]

private theorem recorded_append (path : String) (before : Option (List Symbol))
    (front back : List (String × List Statement)) :
    recorded home path before (front ++ back) =
      recorded home path (recorded home path before front) back := by
  rw [recorded, valuesAt_append, List.getLast?_append, Option.map_or, Option.or_assoc, recorded,
    recorded]

/-- A class and the classes inside it are recorded as their definitions come, though the class
itself comes last in the walk: none of those inside it has its path. -/
private theorem lookup_addClass_of {path scope : String} {body : List Statement}
    (inner : ∀ m, (memberBlock home scope m body).scopes.lookup path =
      recorded home path (m.scopes.lookup path) (classesIn (some scope) body))
    (scopes : ScopeTable) :
    (addClass home scopes scope body).lookup path =
      recorded home path (scopes.lookup path) ((scope, body) :: classesIn (some scope) body) := by
  rw [addClass, List.lookup_cons, toList_memberBlock, inner, recorded, recorded]
  rw [valuesAt_cons]
  -- the entry in front hides what the walk has recorded for its path, which is nothing new
  by_cases own : path = scope
  · subst own
    rw [if_pos rfl, valuesAt_self, beq_self_eq_true]
    rfl
  · rw [if_neg (Ne.symm own), List.nil_append, beq_false_of_ne own]

private theorem lookup_memberBlock (path : String) (block : List Statement) (scope : String)
    (m : Members) :
    (memberBlock home scope m block).scopes.lookup path =
      recorded home path (m.scopes.lookup path) (classesIn (some scope) block) := by
  induction block using block_induction generalizing scope m with
  | step block ih =>
    -- statement by statement; the bodies of classes are walked through in turn, hence the induction
    rw [classesIn_eq]
    refine (memberWalk home scope).view_block (fun m => m.scopes.lookup path)
      (recorded_nil path) (recorded_append path) ?_ m
    intro statement member m
    cases statement with
    | classDef decorators name body =>
      have added : (memberStatement home scope m (.classDef decorators name body)).scopes =
          addClass home m.scopes (classPath (some scope) name) body := by
        rw [memberStatement]
        rfl
      rw [classesInStatement]
      exact (congrArg _ added).trans
        (lookup_addClass_of (ih decorators name body member _) m.scopes)
    | compound clauses => exact absurd member (not_mem_inlined_compound clauses block)
    | _ =>
      rw [classesInStatement, recorded_nil]
      · simp [memberWalk, memberStatement]
      all_goals simp

private theorem lookup_topBlock (path : String) (t : Tables) (block : List Statement) :
    (topBlock home t block).scopes.lookup path =
      recorded home path (t.scopes.lookup path) (classesIn none block) := by
  rw [classesIn_eq]
  refine (topWalk home).view_block (fun t => t.scopes.lookup path)
    (recorded_nil path) (recorded_append path) ?_ t
  intro statement member t
  cases statement with
  | classDef decorators name body =>
    rw [classesInStatement]
    exact lookup_addClass_of (lookup_memberBlock path body (classPath none name)) t.scopes
  | compound clauses => exact absurd member (not_mem_inlined_compound clauses block)
  | _ =>
    rw [classesInStatement, recorded_nil]
    · simp [topWalk, topStatement]
    all_goals simp

theorem lookup_members (path scope : String) (body : List Statement) :
    (memberBlock home scope ⟨.empty, []⟩ body).scopes.lookup path =
      (valuesAt path (classesIn (some scope) body)).getLast?.map (blockSymbols home true) :=
  (lookup_memberBlock path body scope ⟨.empty, []⟩).trans (Option.or_none ..)

/-! ### The tables of a module -/

namespace SourceModule

variable (name : String) (file : Option Path) (tree : List Statement)

theorem globals_ofTree :
    (ofTree name file tree).globals = blockSymbols (Home.ofFile name file) false tree :=
  congrArg SymbolSet.toList (globals_topBlock {} tree)

theorem imports_ofTree : (ofTree name file tree).imports =
    SymbolSet.firsts ((inlined tree).flatMap (boundSymbols (Home.ofFile name file))) :=
  congrArg SymbolSet.toList (imports_topBlock {} tree)

theorem wildcards_ofTree : (ofTree name file tree).wildcards =
    SymbolSet.firsts ((inlined tree).flatMap (spreadSymbols (Home.ofFile name file))) :=
  congrArg SymbolSet.toList (wildcards_topBlock {} tree)

theorem lookup_ofTree (path : String) : (ofTree name file tree).scopes.lookup path =
    (valuesAt path (classesIn none tree)).getLast?.map
      (blockSymbols (Home.ofFile name file) true) :=
  (lookup_topBlock path {} tree).trans (Option.or_none ..)

end SourceModule

end ImportAtlas
