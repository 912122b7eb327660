import ImportAtlas.Proofs.ClassScopes

/-!
Assignments to names and to attributes of a receiver. At the top level a name counts wherever it
stands in a target. In a method an attribute of the receiver counts as a target on its own and as an
item of a list of targets without brackets or in parentheses, and nowhere else: not in square
brackets, not behind a star, not any deeper.
-/

set_option autoImplicit false

namespace ImportAtlas

namespace Python

mutual
def Target.isPattern : Target → Bool
  | .name _ => true
  | .comment _ => true
  | .starred target => isPattern target
  | .bare items => arePatterns items
  | .tuple items => arePatterns items
  | .list items => arePatterns items
  | .attribute _ _ => false
  | .subscript => false

def Target.arePatterns : List Target → Bool
  | [] => true
  | target :: rest => isPattern target && arePatterns rest
end

/-- A place in a target. -/
inductive Spot
  | here
  | starred (inner : Spot)
  | bare (before : List Target) (inner : Spot) (after : List Target)
  | tuple (before : List Target) (inner : Spot) (after : List Target)
  | list (before : List Target) (inner : Spot) (after : List Target)

namespace Spot

def fill : Spot → Target → Target
  | here, target => target
  | starred inner, target => .starred (inner.fill target)
  | bare before inner after, target => .bare (before ++ inner.fill target :: after)
  | tuple before inner after, target => .tuple (before ++ inner.fill target :: after)
  | list before inner after, target => .list (before ++ inner.fill target :: after)

def isHere : Spot → Bool
  | here => true
  | _ => false

/-- Whether the place is the whole target, or an item of a list of targets without brackets or in
parentheses. -/
def isShallow : Spot → Bool
  | here => true
  | bare _ inner _ => inner.isHere
  | tuple _ inner _ => inner.isHere
  | _ => false

end Spot

namespace Target

private theorem arePatterns_append (front back : List Target) :
    arePatterns (front ++ back) = (arePatterns front && arePatterns back) := by
  induction front with
  | nil => rw [List.nil_append, arePatterns, Bool.true_and]
  | cons target front ih => rw [List.cons_append, arePatterns, ih, arePatterns, Bool.and_assoc]

theorem namesAll_append (front back : List Target) :
    namesAll (front ++ back) = namesAll front ++ namesAll back := by
  induction front with
  | nil => rw [List.nil_append, namesAll, List.nil_append]
  | cons target front ih => rw [List.cons_append, namesAll, ih, namesAll, List.append_assoc]

private theorem mem_names_fill (spot : Spot) (x : String) : x ∈ (spot.fill (.name x)).names := by
  have among {before after : List Target} {target : Target} (h : x ∈ target.names) :
      x ∈ namesAll (before ++ target :: after) := by
    rw [namesAll_append, namesAll]
    exact List.mem_append_right _ (List.mem_append_left _ h)
  induction spot with
  | here => exact List.mem_singleton_self x
  | starred _ ih => exact ih
  | bare _ _ _ ih => exact among ih
  | tuple _ _ _ ih => exact among ih
  | list _ _ _ ih => exact among ih

variable {receiver : String}

private theorem attributeOf_of_isPattern : {target : Target} → target.isPattern →
    attributeOf receiver target = none
  | .attribute _ _, h => Bool.noConfusion h
  | .name _, _ | .subscript, _ | .starred _, _ | .bare _, _ | .tuple _, _ | .list _, _
  | .comment _, _ => rfl

private theorem filterMap_attributeOf {items : List Target} (h : arePatterns items) :
    items.filterMap (attributeOf receiver) = [] := by
  induction items with
  | nil => rfl
  | cons target rest ih =>
    obtain ⟨first, others⟩ := Bool.and_eq_true_iff.mp h
    rw [List.filterMap_cons_none (attributeOf_of_isPattern first), ih others]

private theorem attributesOf_of_isPattern : {target : Target} → target.isPattern →
    attributesOf receiver target = []
  | .bare _, h | .tuple _, h => filterMap_attributeOf h
  | .attribute _ _, h => Bool.noConfusion h
  | .name _, _ | .subscript, _ | .starred _, _ | .list _, _ | .comment _, _ => rfl

private theorem flatMap_attributesOf {targets : List Target} (h : arePatterns targets) :
    targets.flatMap (attributesOf receiver) = [] := by
  induction targets with
  | nil => rfl
  | cons target rest ih =>
    rw [arePatterns, Bool.and_eq_true] at h
    rw [List.flatMap_cons, attributesOf_of_isPattern h.1, ih h.2, List.append_nil]

private theorem toList_attributeOf_fill (spot : Spot) (x : String) :
    (attributeOf receiver (spot.fill (.attribute receiver x))).toList =
      if spot.isHere then [x] else [] := by
  cases spot with
  | here => exact congrArg Option.toList (if_pos rfl)
  | _ => rfl

private theorem filterMap_attributeOf_fill {before after : List Target} {inner : Spot} {x : String}
    (h : arePatterns (before ++ inner.fill (.name x) :: after)) :
    (before ++ inner.fill (.attribute receiver x) :: after).filterMap (attributeOf receiver) =
      if inner.isHere then [x] else [] := by
  rw [arePatterns_append, arePatterns, Bool.and_eq_true, Bool.and_eq_true] at h
  obtain ⟨front, -, back⟩ := h
  have item := @toList_attributeOf_fill receiver inner x
  -- names set nothing, so only the item with the attribute is left
  rw [List.filterMap_append, filterMap_attributeOf front, List.nil_append, List.filterMap_cons,
    ← item]
  cases attributeOf receiver (inner.fill (.attribute receiver x)) with
  | none => exact filterMap_attributeOf back
  | some field => exact congrArg (field :: ·) (filterMap_attributeOf back)

/-- An attribute in the place of a name is set if the place is shallow. -/
theorem attributesOf_fill {spot : Spot} {x : String} (h : (spot.fill (.name x)).isPattern) :
    attributesOf receiver (spot.fill (.attribute receiver x)) =
      if spot.isShallow then [x] else [] := by
  cases spot with
  | here => exact congrArg Option.toList (if_pos rfl)
  | bare before inner after => exact filterMap_attributeOf_fill h
  | tuple before inner after => exact filterMap_attributeOf_fill h
  | starred _ => rfl
  | list _ _ _ => rfl

end Target

private theorem exists_mem_around {α : Type} {P : α → Prop} {front back : List α} {a : α} :
    (∃ b ∈ front ++ a :: back, P b) ↔ P a ∨ ∃ b ∈ front ++ back, P b := by
  simp only [List.mem_append, List.mem_cons, or_and_right, exists_or, exists_eq_left]
  exact or_left_comm

mutual
/-- What a statement of a method stands for when attributes of the receiver are looked for: one with
blocks for the statements of its blocks, any other one for itself. -/
def reachedStatement : Statement → List Statement
  | .compound clauses => reachedClauses clauses
  | .cases clauses => reachedClauses clauses
  | statement => [statement]

def reached : List Statement → List Statement
  | [] => []
  | statement :: rest => reachedStatement statement ++ reached rest

def reachedClauses : List Clause → List Statement
  | [] => []
  | .mk _ body :: rest => reached body ++ reachedClauses rest
end

section

variable (receiver : String)

mutual
private theorem receiverAttributes_eq : (statement : Statement) →
    receiverAttributes receiver statement =
    (reachedStatement statement).flatMap (receiverAttributes receiver)
  | .compound clauses | .cases clauses => by
    rw [receiverAttributes, reachedStatement]
    exact clauseAttributes_eq clauses
  | .comment _ | .text _ | .assign _ | .importNames _ | .importFrom .. | .importAll _
  | .classDef .. | .functionDef .. | .plain => by
    simp [reachedStatement]

private theorem blockAttributes_eq : (block : List Statement) → blockAttributes receiver block =
    (reached block).flatMap (receiverAttributes receiver)
  | [] => by rw [blockAttributes, reached, List.flatMap_nil]
  | statement :: rest => by
    rw [blockAttributes, reached, List.flatMap_append, receiverAttributes_eq statement,
      blockAttributes_eq rest]

private theorem clauseAttributes_eq : (clauses : List Clause) → clauseAttributes receiver clauses =
    (reachedClauses clauses).flatMap (receiverAttributes receiver)
  | [] => by rw [clauseAttributes, reachedClauses, List.flatMap_nil]
  | .mk _ body :: rest => by
    rw [clauseAttributes, reachedClauses, List.flatMap_append, blockAttributes_eq body,
      clauseAttributes_eq rest]
end

private theorem receiverAttributes_fill {before after : List Target} {spot : Spot} {x : String}
    (h : Target.arePatterns (before ++ spot.fill (.name x) :: after)) :
    receiverAttributes receiver (.assign (before ++ spot.fill (.attribute receiver x) :: after)) =
      if spot.isShallow then [x] else [] := by
  rw [Target.arePatterns_append, Target.arePatterns, Bool.and_eq_true, Bool.and_eq_true] at h
  obtain ⟨front, own, back⟩ := h
  rw [receiverAttributes, List.flatMap_append, List.flatMap_cons,
    Target.flatMap_attributesOf front, Target.flatMap_attributesOf back,
    Target.attributesOf_fill own, List.nil_append, List.append_nil]

private theorem mem_blockAttributes_fill {before after : List Target} {spot : Spot} {x : String}
    (h : Target.arePatterns (before ++ spot.fill (.name x) :: after))
    {body front back : List Statement} (placed : reached body =
      front ++ .assign (before ++ spot.fill (.attribute receiver x) :: after) :: back) :
    x ∈ blockAttributes receiver body ↔ spot.isShallow = true ∨
      ∃ statement ∈ front ++ back, x ∈ receiverAttributes receiver statement := by
  have own : x ∈ receiverAttributes receiver
      (.assign (before ++ spot.fill (.attribute receiver x) :: after)) ↔ spot.isShallow = true := by
    rw [receiverAttributes_fill receiver h]
    cases spot.isShallow <;> simp
  rw [blockAttributes_eq, placed, List.mem_flatMap, exists_mem_around, own]

end

end Python

open Python

/-! ### Attributes among the symbols of a block -/

section

variable {home : Home} {inClass : Bool} {block : List Statement} {x : String}

private theorem eq_attribute_of_mem_definedSymbols {statement : Statement} {s : Symbol}
    (h : s ∈ definedSymbols home inClass statement) (kind : s.kind = .attribute) :
    s = home.symbol s.name .attribute := by
  cases statement with
  | classDef decorators name body =>
    rw [List.mem_singleton.mp h] at kind
    exact SymbolKind.noConfusion kind
  | functionDef decorators name parameters body =>
    rw [definedSymbols, List.mem_append, List.mem_singleton] at h
    rcases h with field | rfl
    · split at field
      · exact eq_symbol_of_mem_methodAttributes field
      · exact absurd field List.not_mem_nil
    · exact SymbolKind.noConfusion kind
  | assign targets =>
    obtain ⟨name, -, rfl⟩ := List.mem_map.mp h
    rfl
  | _ => exact absurd h List.not_mem_nil

private theorem attribute_mem_blockSymbols :
    home.symbol x .attribute ∈ blockSymbols home inClass block ↔
      ∃ statement ∈ inlined block,
        home.symbol x .attribute ∈ definedSymbols home inClass statement := by
  constructor
  · exact fun h => List.mem_flatMap.mp (SymbolSet.mem_of_mem_firsts h)
  · intro h
    obtain ⟨s, kept, same⟩ := SymbolSet.exists_mem_firsts (List.mem_flatMap.mpr h)
    obtain ⟨_, _, own⟩ := List.mem_flatMap.mp (SymbolSet.mem_of_mem_firsts kept)
    have symbol := eq_attribute_of_mem_definedSymbols own (congrArg SymbolId.kind same)
    have name : s.name = x := congrArg SymbolId.name same
    rw [symbol, name] at kept
    exact kept

private theorem attribute_mem_functionDef {decorators : List Decorator} {name receiver : String}
    {parameters : List Parameter} {body : List Statement} (bound : isStatic decorators = false) :
    home.symbol x .attribute ∈ definedSymbols home true
        (.functionDef decorators name (.named receiver :: parameters) body) ↔
      x ∈ blockAttributes receiver body := by
  have fields : methodAttributes home decorators (.named receiver :: parameters) body =
      (blockAttributes receiver body).map (home.symbol · .attribute) := by
    rw [methodAttributes, bound, receiverOf]
    rfl
  rw [definedSymbols, if_pos rfl, fields, List.mem_append, List.mem_map]
  constructor
  · rintro (⟨field, member, same⟩ | function)
    · have name : field = x := congrArg Symbol.name same
      exact name ▸ member
    · exact SymbolKind.noConfusion (congrArg Symbol.kind (List.mem_singleton.mp function))
  · exact fun member => Or.inl ⟨x, member, rfl⟩

end

namespace SourceModule

/-- An assignment at the top level makes a symbol of each name in its targets, wherever it stands.
With an attribute of the receiver in the place of a name, an assignment in a method makes a member of
the attribute where the place is shallow, and only there: apart from that the attribute is a member
if another statement of the method or of the class makes it one. -/
theorem plain_targets_anywhere_receiver_targets_shallow (name : String) (file : Option Path)
    {before after : List Target} {spot : Spot} {x : String}
    (h : Target.arePatterns (before ++ spot.fill (.name x) :: after)) :
    (∀ tree, .assign (before ++ spot.fill (.name x) :: after) ∈ inlined tree →
      (Home.ofFile name file).symbol x .attribute ∈ (ofTree name file tree).globals) ∧
    ∀ tree path classBody earlier later decorators function receiver parameters body front back,
      (classDefinitions path tree).getLast? = some classBody →
      inlined classBody = earlier ++
        .functionDef decorators function (.named receiver :: parameters) body :: later →
      isStatic decorators = false →
      reached body =
        front ++ .assign (before ++ spot.fill (.attribute receiver x) :: after) :: back →
      ((Home.ofFile name file).symbol x .attribute ∈ (ofTree name file tree).scopes.members path ↔
        spot.isShallow = true ∨
          (∃ statement ∈ front ++ back, x ∈ receiverAttributes receiver statement) ∨
          ∃ statement ∈ earlier ++ later, (Home.ofFile name file).symbol x .attribute ∈
            definedSymbols (Home.ofFile name file) true statement) := by
  constructor
  · intro tree member
    rw [globals_ofTree, attribute_mem_blockSymbols]
    refine ⟨_, member, List.mem_map.mpr ⟨x, ?_, rfl⟩⟩
    rw [Target.namesAll_append, Target.namesAll]
    exact List.mem_append_right _ (List.mem_append_left _ (Target.mem_names_fill spot x))
  · intro tree path classBody earlier later decorators function receiver parameters body front back
      last method bound placed
    rw [ScopeTable.members, lookup_ofTree, ← classDefinitions, last, Option.map_some,
      Option.getD_some, attribute_mem_blockSymbols, method, exists_mem_around,
      attribute_mem_functionDef bound, mem_blockAttributes_fill receiver h placed, or_assoc]

theorem plain_targets_anywhere_receiver_targets_in_pair :
    let body : List Statement := [.cases [.mk "case"
      [.assign [.name "p", .tuple [.name "a", .attribute "self" "x"]]]]]
    (Home.ofFile "m" none).symbol "x" .attribute ∈
        (ofTree "m" none [.assign [.name "p", .tuple [.name "a", .name "x"]]]).globals ∧
      (Home.ofFile "m" none).symbol "x" .attribute ∈ (ofTree "m" none
        [.classDef [] "C" [.functionDef [] "f" [.named "self"] body]]).scopes.members "C" := by
  intro body
  obtain ⟨plain, receiver⟩ := @plain_targets_anywhere_receiver_targets_shallow "m" none
    [.name "p"] [] (.tuple [.name "a"] .here []) "x" rfl
  constructor
  · refine plain _ ?_
    simp [inlined_cons, inlinedStatement, Spot.fill]
  · have members := receiver [.classDef [] "C" [.functionDef [] "f" [.named "self"] body]] "C"
      [.functionDef [] "f" [.named "self"] body] [] [] [] "f" "self" [] body [] [] rfl
      (by simp [inlined_cons, inlinedStatement]) rfl
      (by simp [body, reached, reachedStatement, reachedClauses, Spot.fill])
    exact members.mpr (Or.inl rfl)

/-- In square brackets a name counts, an attribute of the receiver in its place does not. -/
theorem receiver_in_brackets_sets_nothing :
    (Home.ofFile "m" none).symbol "x" .attribute ∈
        (ofTree "m" none [.assign [.list [.name "x"]]]).globals ∧
      (ofTree "m" none [.classDef [] "C" [.functionDef [] "f" [.named "self"]
        [.assign [.list [.attribute "self" "x"]]]]]).scopes.members "C" =
          [(Home.ofFile "m" none).symbol "f" .function] := by
  decide +kernel

end SourceModule

end ImportAtlas
