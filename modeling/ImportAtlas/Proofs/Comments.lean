import ImportAtlas.Proofs.ReceiverTargets
import ImportAtlas.Proofs.Regrouping
import Mathlib.Logic.Relation

/-!
Comments in a text. What a comment can do depends on where the block stands that it comes into: what
is read of a class body is not read of the body of a function. In four places a comment changes what
is read: in front of the receiver of a method, behind the sign of the decorator that makes a method
static, inside the dotted name of an import, and inside the literal that documents a body.
Everywhere else comments are passed over.
-/

set_option autoImplicit false

namespace ImportAtlas

open Python

namespace Python

/-! ### Where blocks stand -/

/-- What is collected from a block: all that a text defines and imports, the members of a class, or
the attributes of a receiver, if there is one. -/
inductive Level
  | top
  | classBody
  | function (receiver : Option String)

def Level.receiver : Level → Option String
  | function receiver => receiver
  | _ => none

/-- Where a block stands: what is collected from it, and whether it is a body whose documentation is
read. -/
structure Region where
  level : Level
  documented : Bool

def methodReceiver (decorators : List Decorator) (parameters : List Parameter) : Option String :=
  if isStatic decorators then none else receiverOf parameters

namespace Region

def text : Region := ⟨.top, true⟩

/-- The body of a class. Of a class inside a function nothing is read. -/
def ofClass (r : Region) : Region :=
  match r.level with
  | .top => ⟨.classBody, true⟩
  | .classBody => ⟨.classBody, true⟩
  | .function _ => ⟨.function none, false⟩

def ofFunction (r : Region) (decorators : List Decorator) (parameters : List Parameter) : Region :=
  match r.level with
  | .top => ⟨.function none, true⟩
  | .classBody => ⟨.function (methodReceiver decorators parameters), true⟩
  | .function _ => ⟨.function none, false⟩

def ofClause (r : Region) : Region :=
  ⟨r.level, false⟩

/-- A block of a match statement, which is gone through for the attributes of a receiver only. -/
def ofCase (r : Region) : Region :=
  ⟨.function r.level.receiver, false⟩

end Region

/-- A change somewhere in a block: among its statements, or in a block inside one of them. -/
inductive Within (R : Region → List Statement → List Statement → Prop) :
    Region → List Statement → List Statement → Prop
  | here {r : Region} {a b : List Statement} : R r a b → Within R r a b
  | among {r : Region} {a b : List Statement} (front back : List Statement) :
      Within R r a b → Within R r (front ++ a ++ back) (front ++ b ++ back)
  | compound {r : Region} {a b : List Statement} (before after : List Clause) (keyword : String) :
      Within R r.ofClause a b →
      Within R r [.compound (before ++ .mk keyword a :: after)]
        [.compound (before ++ .mk keyword b :: after)]
  | cases {r : Region} {a b : List Statement} (before after : List Clause) (keyword : String) :
      Within R r.ofCase a b →
      Within R r [.cases (before ++ .mk keyword a :: after)]
        [.cases (before ++ .mk keyword b :: after)]
  | classDef {r : Region} {a b : List Statement} (decorators : List Decorator) (name : String) :
      Within R r.ofClass a b →
      Within R r [.classDef decorators name a] [.classDef decorators name b]
  | functionDef {r : Region} {a b : List Statement} (decorators : List Decorator) (name : String)
      (parameters : List Parameter) : Within R (r.ofFunction decorators parameters) a b →
      Within R r [.functionDef decorators name parameters a]
        [.functionDef decorators name parameters b]

/-! ### Places for comments -/

def Statement.isComment : Statement → Bool
  | .comment _ => true
  | _ => false

def Decorator.marksStatic (d : Decorator) : Bool :=
  d.comments.isEmpty && d.expression == "staticmethod"

inductive TargetList
  | bare
  | tuple
  | list

def TargetList.wrap : TargetList → List Target → Target
  | bare, items => .bare items
  | tuple, items => .tuple items
  | list, items => .list items

/-- A comment comes into a target: into a list of targets, or into the text of an object. The name
of the receiver is a single lexeme and has no place for one. -/
inductive TargetComment (receiver : Option String) : Target → Target → Prop
  | added (l : TargetList) (front back : List Target) (text : String) :
      TargetComment receiver (l.wrap (front ++ back)) (l.wrap (front ++ .comment text :: back))
  | object {object object' : String} (field : String) : receiver ≠ some object →
      receiver ≠ some object' →
      TargetComment receiver (.attribute object field) (.attribute object' field)
  | starred {t t' : Target} : TargetComment receiver t t' →
      TargetComment receiver (.starred t) (.starred t')
  | item {t t' : Target} (l : TargetList) (front back : List Target) :
      TargetComment receiver t t' →
      TargetComment receiver (l.wrap (front ++ t :: back)) (l.wrap (front ++ t' :: back))

/-- A comment comes into a decorator: behind its sign, or into the text of its expression. The word
for static methods is a single lexeme. -/
inductive DecoratorComment : Decorator → Decorator → Prop
  | sign (front back : List String) (text expression : String) :
      DecoratorComment ⟨front ++ back, expression⟩ ⟨front ++ text :: back, expression⟩
  | expression {expression expression' : String} (comments : List String) :
      expression ≠ "staticmethod" → expression' ≠ "staticmethod" →
      DecoratorComment ⟨comments, expression⟩ ⟨comments, expression'⟩

inductive NameComment : SpelledName → SpelledName → Prop
  | fresh (front back : SpelledName) (text : String) :
      NameComment (front ++ back) (front ++ .gap text :: back)
  | wider (front back : SpelledName) (text text' : String) :
      NameComment (front ++ .gap text :: back) (front ++ .gap text' :: back)

inductive NamePlace
  | plain (before after : List ImportItem)
  | aliased (before after : List ImportItem) (localName : String)
  | imported (module : SpelledName) (before after : List ImportItem)
  | importedAs (module : SpelledName) (before after : List ImportItem) (localName : String)
  | source (items : List ImportItem)
  | spread

def NamePlace.fill : NamePlace → SpelledName → Statement
  | .plain before after, name => .importNames (before ++ .name name :: after)
  | .aliased before after localName, name =>
    .importNames (before ++ .aliased name localName :: after)
  | .imported module before after, name => .importFrom module (before ++ .name name :: after)
  | .importedAs module before after localName, name =>
    .importFrom module (before ++ .aliased name localName :: after)
  | .source items, name => .importFrom name items
  | .spread, name => .importAll name

/-- The places for comments: the four that make a difference, and all others. -/
inductive CommentPlace
  | passedOver
  | receiver
  | staticMark
  | importedName
  | documentation

inductive CommentAdded : CommentPlace → Region → List Statement → List Statement → Prop
  | statement {r : Region} (text : String) : CommentAdded .passedOver r [] [.comment text]
  | target {r : Region} {t t' : Target} (before after : List Target) :
      TargetComment r.level.receiver t t' →
      CommentAdded .passedOver r [.assign (before ++ t :: after)] [.assign (before ++ t' :: after)]
  | importNames {r : Region} (before after : List ImportItem) (text : String) :
      CommentAdded .passedOver r [.importNames (before ++ after)]
        [.importNames (before ++ .comment text :: after)]
  | importFrom {r : Region} (source : SpelledName) (before after : List ImportItem)
      (text : String) :
      CommentAdded .passedOver r [.importFrom source (before ++ after)]
        [.importFrom source (before ++ .comment text :: after)]
  | parameter {r : Region} (decorators : List Decorator) (name : String)
      (before after : List Parameter) (text : String) (body : List Statement) :
      (r.level = .classBody → before = [] → methodReceiver decorators after = none) →
      CommentAdded .passedOver r [.functionDef decorators name (before ++ after) body]
        [.functionDef decorators name (before ++ .comment text :: after) body]
  | receiver {r : Region} {decorators : List Decorator} {parameters : List Parameter}
      (name text : String) (body : List Statement) : r.level = .classBody →
      methodReceiver decorators parameters ≠ none →
      CommentAdded .receiver r [.functionDef decorators name parameters body]
        [.functionDef decorators name (.comment text :: parameters) body]
  | classDecorator {r : Region} {d d' : Decorator} (before after : List Decorator) (name : String)
      (body : List Statement) : DecoratorComment d d' →
      CommentAdded .passedOver r [.classDef (before ++ d :: after) name body]
        [.classDef (before ++ d' :: after) name body]
  | decorator {r : Region} {d d' : Decorator} (before after : List Decorator) (name : String)
      (parameters : List Parameter) (body : List Statement) : DecoratorComment d d' →
      (r.level = .classBody → d.marksStatic = true → isStatic (before ++ after) = true) →
      CommentAdded .passedOver r [.functionDef (before ++ d :: after) name parameters body]
        [.functionDef (before ++ d' :: after) name parameters body]
  | staticMark {r : Region} {d d' : Decorator} (before after : List Decorator) (name : String)
      (parameters : List Parameter) (body : List Statement) : DecoratorComment d d' →
      r.level = .classBody → d.marksStatic = true → isStatic (before ++ after) = false →
      CommentAdded .staticMark r [.functionDef (before ++ d :: after) name parameters body]
        [.functionDef (before ++ d' :: after) name parameters body]
  | unreadName {r : Region} {n n' : SpelledName} (place : NamePlace) : NameComment n n' →
      r.level ≠ .top → CommentAdded .passedOver r [place.fill n] [place.fill n']
  | importedName {r : Region} {n n' : SpelledName} (place : NamePlace) : NameComment n n' →
      r.level = .top → CommentAdded .importedName r [place.fill n] [place.fill n']
  -- the comment stands in a replacement field of the literal, which is kept as it is spelled
  | literal {r : Region} (before : List Statement) (literal literal' : String) :
      (r.documented = true → ∃ s ∈ before, s.isComment = false) →
      CommentAdded .passedOver r (before ++ [.text literal]) (before ++ [.text literal'])
  | documentation {r : Region} (literal literal' : String) : r.documented = true →
      CommentAdded .documentation r [.text literal] [.text literal']

/-- The second block is the first without what one comment hides: all parameters behind a comment in
front of them, or the decorator behind whose sign one stands. -/
inductive Hidden : Region → List Statement → List Statement → Prop
  | parameters {r : Region} (decorators : List Decorator) (name text : String)
      (parameters : List Parameter) (body : List Statement) :
      Hidden r [.functionDef decorators name (.comment text :: parameters) body]
        [.functionDef decorators name [] body]
  | decorator {r : Region} (before after : List Decorator) (text : String) (comments : List String)
      (expression name : String) (parameters : List Parameter) (body : List Statement) :
      Hidden r
        [.functionDef (before ++ ⟨text :: comments, expression⟩ :: after) name parameters body]
        [.functionDef (before ++ after) name parameters body]

/-! ### What is read of the parts of a statement -/

section

variable {receiver : Option String} {t t' : Target}

private theorem Target.namesAll_congr (before after : List Target) (same : t.names = t'.names) :
    namesAll (before ++ t :: after) = namesAll (before ++ t' :: after) := by
  rw [namesAll_append, namesAll_append, namesAll, namesAll, same]

private theorem Target.attributesOf_wrap {x : String} (l : TargetList) {items items' : List Target}
    (same : items.filterMap (attributeOf x) = items'.filterMap (attributeOf x)) :
    attributesOf x (l.wrap items) = attributesOf x (l.wrap items') := by
  cases l with
  | bare => exact same
  | tuple => exact same
  | list => rfl

private theorem Target.names_wrap (l : TargetList) (items : List Target) :
    (l.wrap items).names = namesAll items := by
  cases l <;> rfl

namespace TargetComment

private theorem names_eq (h : TargetComment receiver t t') : t.names = t'.names := by
  induction h with
  | added l front back text =>
    rw [Target.names_wrap, Target.names_wrap, Target.namesAll_append, Target.namesAll_append,
      Target.namesAll]
    rfl
  | object field _ _ => rfl
  | starred _ ih => exact ih
  | item l front back _ ih =>
    rw [Target.names_wrap, Target.names_wrap]
    exact Target.namesAll_congr front back ih

variable {x : String}

private theorem attributeOf_eq (h : TargetComment (some x) t t') :
    t.attributeOf x = t'.attributeOf x := by
  cases h with
  | added l front back text => cases l <;> rfl
  | object field own own' =>
    have other {object : String} (h : some x ≠ some object) : object ≠ x :=
      fun same => h (congrArg some same.symm)
    rw [Target.attributeOf, Target.attributeOf, if_neg (other own), if_neg (other own')]
  | starred _ => rfl
  | item l front back _ => cases l <;> rfl

private theorem attributesOf_eq (h : TargetComment (some x) t t') :
    t.attributesOf x = t'.attributesOf x := by
  cases h with
  | added l front back text =>
    refine Target.attributesOf_wrap l ?_
    rw [List.filterMap_append, List.filterMap_append, List.filterMap_cons_none rfl]
  | object field own own' => exact congrArg Option.toList (object field own own').attributeOf_eq
  | starred _ => rfl
  | item l front back inner =>
    refine Target.attributesOf_wrap l ?_
    rw [List.filterMap_append, List.filterMap_append, List.filterMap_cons, List.filterMap_cons,
      inner.attributeOf_eq]

end TargetComment

end

private theorem isStatic_eq (before after : List Decorator) (d : Decorator) :
    isStatic (before ++ d :: after) = (d.marksStatic || isStatic (before ++ after)) := by
  have marks (decorators : List Decorator) :
      isStatic decorators = decorators.any Decorator.marksStatic := rfl
  rw [marks, marks, List.any_append, List.any_append, List.any_cons, Bool.or_left_comm]

private theorem DecoratorComment.marksStatic_eq {d d' : Decorator} (h : DecoratorComment d d') :
    d'.marksStatic = false := by
  cases h with
  | sign front back text expression => simp [Decorator.marksStatic]
  | expression comments _ other => simp [Decorator.marksStatic, other]

/-- A comment matters behind the sign of the only decorator that makes a method static. -/
theorem DecoratorComment.isStatic_eq {d d' : Decorator} (h : DecoratorComment d d')
    {before after : List Decorator}
    (other : d.marksStatic = true → isStatic (before ++ after) = true) :
    isStatic (before ++ d :: after) = isStatic (before ++ d' :: after) := by
  rw [Python.isStatic_eq, Python.isStatic_eq, h.marksStatic_eq, Bool.false_or]
  cases marked : d.marksStatic with
  | true => rw [other marked, Bool.or_true]
  | false => rw [Bool.false_or]

private theorem methodReceiver_congr {decorators decorators' : List Decorator}
    (same : isStatic decorators = isStatic decorators') (parameters : List Parameter) :
    methodReceiver decorators parameters = methodReceiver decorators' parameters := by
  rw [methodReceiver, methodReceiver, same]

private theorem methodReceiver_comment (decorators : List Decorator) (text : String)
    (parameters : List Parameter) :
    methodReceiver decorators (.comment text :: parameters) = none := by
  rw [methodReceiver, receiverOf, ite_self]
  simp

private theorem blockAttributes_append (receiver : String) (a b : List Statement) :
    blockAttributes receiver (a ++ b) =
      blockAttributes receiver a ++ blockAttributes receiver b := by
  induction a with
  | nil => rw [List.nil_append, blockAttributes, List.nil_append]
  | cons statement a ih =>
    rw [List.cons_append, blockAttributes, ih, blockAttributes, List.append_assoc]

private theorem clauseAttributes_eq_block (receiver : String) (clauses : List Clause) :
    clauseAttributes receiver clauses = blockAttributes receiver (clauses.flatMap Clause.body) := by
  induction clauses with
  | nil => rw [clauseAttributes, List.flatMap_nil, blockAttributes]
  | cons clause clauses ih =>
    obtain ⟨keyword, body⟩ := clause
    rw [clauseAttributes, ih, List.flatMap_cons, blockAttributes_append, Clause.body]

private theorem flatMap_body (before after : List Clause) (keyword : String)
    (body : List Statement) :
    (before ++ .mk keyword body :: after).flatMap Clause.body =
      before.flatMap Clause.body ++ body ++ after.flatMap Clause.body := by
  rw [List.flatMap_append, List.flatMap_cons, Clause.body, List.append_assoc]

private theorem documentation_append {a b : List Statement} (front : List Statement)
    (same : documentation a = documentation b) :
    documentation (front ++ a) = documentation (front ++ b) := by
  induction front with
  | nil => exact same
  | cons statement front ih =>
    cases statement with
    | comment text => simpa only [List.cons_append, documentation] using ih
    | _ => simp [documentation]

end Python

/-! ### Blocks that are read alike -/

structure ReadAlike (r : Region) (a b : List Statement) : Prop where
  documentation : r.documented = true →
    ∀ back, Python.documentation (a ++ back) = Python.documentation (b ++ back)
  top : r.level = .top → ∀ home t, topBlock home t a = topBlock home t b
  members : r.level = .classBody →
    ∀ home scope m, memberBlock home scope m a = memberBlock home scope m b
  attributes : ∀ receiver, r.level.receiver = some receiver →
    blockAttributes receiver a = blockAttributes receiver b

section

variable {r : Region} {a b : List Statement} {s s' : Statement}

private theorem methodAttributes_eq (home : Home) (decorators : List Decorator)
    (parameters : List Parameter) (body : List Statement) :
    methodAttributes home decorators parameters body =
      (methodReceiver decorators parameters).elim [] fun receiver =>
        (blockAttributes receiver body).map (home.symbol · .attribute) := by
  unfold methodAttributes methodReceiver
  cases isStatic decorators with
  | true => rfl
  | false => cases receiverOf parameters <;> rfl

private theorem methodAttributes_congr (home : Home) {decorators decorators' : List Decorator}
    {parameters parameters' : List Parameter}
    (same : methodReceiver decorators parameters = methodReceiver decorators' parameters')
    (body : ∀ x, methodReceiver decorators parameters = some x →
      blockAttributes x a = blockAttributes x b) :
    methodAttributes home decorators parameters a =
      methodAttributes home decorators' parameters' b := by
  rw [methodAttributes_eq, methodAttributes_eq, ← same]
  cases own : methodReceiver decorators parameters with
  | none => rfl
  | some receiver => exact congrArg (List.map _) (body receiver own)

namespace ReadAlike

private theorem of_statement
    (documentation : ∀ back, Python.documentation (s :: back) = Python.documentation (s' :: back))
    (top : r.level = .top → ∀ home t, topStatement home t s = topStatement home t s')
    (members : r.level = .classBody →
      ∀ home scope m, memberStatement home scope m s = memberStatement home scope m s')
    (attributes : ∀ receiver, r.level.receiver = some receiver →
      receiverAttributes receiver s = receiverAttributes receiver s') :
    ReadAlike r [s] [s'] where
  documentation _ := documentation
  top level home t := by rw [topBlock, topBlock, topBlock, topBlock, top level]
  members level home scope m := by
    rw [memberBlock, memberBlock, memberBlock, memberBlock, members level]
  attributes receiver own := by
    simp only [blockAttributes, attributes receiver own]

private theorem among (h : ReadAlike r a b) (front back : List Statement) :
    ReadAlike r (front ++ a ++ back) (front ++ b ++ back) where
  documentation documented more := by
    simp only [List.append_assoc]
    exact documentation_append front (h.documentation documented (back ++ more))
  top level home t := by
    have walk := (topWalk home).block_append
    simp only [topWalk] at walk
    rw [walk, walk, walk, walk, h.top level]
  members level home scope m := by
    have walk := (memberWalk home scope).block_append
    simp only [memberWalk] at walk
    rw [walk, walk, walk, walk, h.members level]
  attributes receiver own := by
    simp only [blockAttributes_append, h.attributes receiver own]

private theorem compound (h : ReadAlike r.ofClause a b) (before after : List Clause)
    (keyword : String) :
    ReadAlike r [.compound (before ++ .mk keyword a :: after)]
      [.compound (before ++ .mk keyword b :: after)] := by
  have blocks := h.among (before.flatMap Clause.body) (after.flatMap Clause.body)
  rw [← flatMap_body, ← flatMap_body] at blocks
  have inlinedAs (body : List Statement) :=
    inlined_compound (before ++ .mk keyword body :: after)
  constructor
  · exact fun _ _ => rfl
  · intro level home t
    have walk (body : List Statement) := block_of_inlined_eq (topWalk home) t (inlinedAs body)
    exact (walk a).trans ((blocks.top level home t).trans (walk b).symm)
  · intro level home scope m
    have walk (body : List Statement) :=
      block_of_inlined_eq (memberWalk home scope) m (inlinedAs body)
    exact (walk a).trans ((blocks.members level home scope m).trans (walk b).symm)
  · intro receiver own
    simp only [blockAttributes, receiverAttributes, clauseAttributes_eq_block,
      blocks.attributes receiver own]

private theorem cases (h : ReadAlike r.ofCase a b) (before after : List Clause) (keyword : String) :
    ReadAlike r [.cases (before ++ .mk keyword a :: after)]
      [.cases (before ++ .mk keyword b :: after)] := by
  have blocks := h.among (before.flatMap Clause.body) (after.flatMap Clause.body)
  rw [← flatMap_body, ← flatMap_body] at blocks
  apply of_statement
  · exact fun _ => rfl
  · exact fun _ _ _ => rfl
  · exact fun _ _ _ _ => rfl
  · intro receiver own
    rw [receiverAttributes, receiverAttributes, clauseAttributes_eq_block,
      clauseAttributes_eq_block, blocks.attributes receiver own]

private theorem documentation_eq (h : ReadAlike r a b) (documented : r.documented = true) :
    Python.documentation a = Python.documentation b := by
  have whole := h.documentation documented []
  rwa [List.append_nil, List.append_nil] at whole

private theorem classDef (h : ReadAlike r.ofClass a b) (decorators : List Decorator)
    (name : String) :
    ReadAlike r [.classDef decorators name a] [.classDef decorators name b] := by
  obtain ⟨level, documented⟩ := r
  have own (home : Home) (body : ReadAlike ⟨.classBody, true⟩ a b) :
      classSymbol home name a = classSymbol home name b := by
    rw [classSymbol, classSymbol, body.documentation_eq rfl]
  apply of_statement
  · exact fun _ => rfl
  · rintro rfl home t
    rw [topStatement, topStatement, own home h, addClass, addClass, h.members rfl]
  · rintro rfl home scope m
    rw [memberStatement, memberStatement, own home h, h.members rfl]
  · exact fun _ _ => rfl

private theorem functionDef {decorators : List Decorator} {parameters : List Parameter}
    (h : ReadAlike (r.ofFunction decorators parameters) a b) (name : String) :
    ReadAlike r [.functionDef decorators name parameters a]
      [.functionDef decorators name parameters b] := by
  obtain ⟨level, documented⟩ := r
  apply of_statement
  · exact fun _ => rfl
  · rintro rfl home t
    rw [topStatement, topStatement, functionSymbol, functionSymbol, h.documentation_eq rfl]
  · rintro rfl home scope m
    rw [memberStatement, memberStatement, functionSymbol, functionSymbol, h.documentation_eq rfl,
      methodAttributes_congr home rfl h.attributes]
  · exact fun _ _ => rfl

/-- What is read alike in a place is read alike with everything around it. -/
theorem of_within {R : Region → List Statement → List Statement → Prop}
    (step : ∀ r a b, R r a b → ReadAlike r a b) (h : Within R r a b) : ReadAlike r a b := by
  -- one case per kind of statement around the place; each asks of the block inside what its region
  -- says, so the induction runs over all regions
  induction h with
  | here change => exact step _ _ _ change
  | among front back _ ih => exact ih.among front back
  | compound before after keyword _ ih => exact ih.compound before after keyword
  | cases before after keyword _ ih => exact ih.cases before after keyword
  | classDef decorators name _ ih => exact ih.classDef decorators name
  | functionDef decorators name parameters _ ih => exact ih.functionDef name

private theorem of_head {decorators decorators' : List Decorator}
    {parameters parameters' : List Parameter} (same : r.level = .classBody →
      methodReceiver decorators parameters = methodReceiver decorators' parameters')
    (name : String) (body : List Statement) :
    ReadAlike r [.functionDef decorators name parameters body]
      [.functionDef decorators' name parameters' body] := by
  apply of_statement
  · exact fun _ => rfl
  · exact fun _ _ _ => by rw [topStatement, topStatement]
  · intro level home scope m
    rw [memberStatement, memberStatement,
      methodAttributes_congr home (same level) fun _ _ => rfl]
  · exact fun _ _ => rfl

private theorem of_target {t t' : Target} (h : TargetComment r.level.receiver t t')
    (before after : List Target) :
    ReadAlike r [.assign (before ++ t :: after)] [.assign (before ++ t' :: after)] := by
  have names := Target.namesAll_congr before after h.names_eq
  apply of_statement
  · exact fun _ => rfl
  · exact fun _ home t => by rw [topStatement, topStatement, names]
  · exact fun _ home scope m => by rw [memberStatement, memberStatement, names]
  · intro receiver own
    rw [own] at h
    simp only [receiverAttributes, List.flatMap_append, List.flatMap_cons, h.attributesOf_eq]

private theorem of_place (level : r.level ≠ .top) (place : NamePlace) (n n' : SpelledName) :
    ReadAlike r [place.fill n] [place.fill n'] := by
  cases place <;>
    exact of_statement (fun _ => rfl) (fun own => absurd own level) (fun _ _ _ _ => rfl)
      (fun _ _ => rfl)

private theorem of_literal (before : List Statement) (literal literal' : String)
    (behind : r.documented = true → ∃ s ∈ before, s.isComment = false) :
    ReadAlike r (before ++ [.text literal]) (before ++ [.text literal']) where
  documentation documented back := by
    obtain ⟨s, member, code⟩ := behind documented
    obtain ⟨front, rest, rfl⟩ := List.append_of_mem member
    simp only [List.append_assoc, List.cons_append]
    refine documentation_append front ?_
    cases s with
    | comment text => exact Bool.noConfusion code
    | _ => rfl
  top _ home t := by
    have walk := (topWalk home).block_append
    simp only [topWalk] at walk
    rw [walk, walk]
    rfl
  members _ home scope m := by
    have walk := (memberWalk home scope).block_append
    simp only [memberWalk] at walk
    rw [walk, walk]
    rfl
  attributes receiver _ := by
    rw [blockAttributes_append, blockAttributes_append]
    rfl

private theorem of_commentAdded (h : CommentAdded .passedOver r a b) : ReadAlike r a b := by
  cases h with
  | statement text => exact ⟨fun _ _ => rfl, fun _ _ _ => rfl, fun _ _ _ _ => rfl, fun _ _ => rfl⟩
  | target before after inside => exact of_target inside before after
  | importNames before after text =>
    refine of_statement (fun _ => rfl) (fun _ home t => ?_) (fun _ _ _ _ => rfl) (fun _ _ => rfl)
    rw [topStatement, topStatement, List.filterMap_append, List.filterMap_append,
      List.filterMap_cons_none rfl]
  | importFrom source before after text =>
    refine of_statement (fun _ => rfl) (fun _ home t => ?_) (fun _ _ _ _ => rfl) (fun _ _ => rfl)
    rw [topStatement, topStatement, List.filterMap_append, List.filterMap_append,
      List.filterMap_cons_none rfl]
  | parameter decorators name before after text body first =>
    refine of_head (fun level => ?_) name body
    cases before with
    | nil => exact (first level rfl).trans (methodReceiver_comment decorators text after).symm
    | cons parameter before => cases parameter <;> rfl
  | classDecorator before after name body _ =>
    exact of_statement (fun _ => rfl) (fun _ _ _ => rfl) (fun _ _ _ _ => rfl) (fun _ _ => rfl)
  | decorator before after name parameters body inside other =>
    exact of_head (fun level => methodReceiver_congr (inside.isStatic_eq (other level)) parameters)
      name body
  | unreadName place _ level => exact of_place level place _ _
  | literal before literal literal' behind => exact of_literal before literal literal' behind

private theorem of_hidden (h : Hidden r a b) : ReadAlike r a b := by
  cases h with
  | parameters decorators name text parameters body =>
    refine of_head (fun _ => (methodReceiver_comment decorators text parameters).trans ?_) name body
    exact (ite_self none).symm
  | decorator before after text comments expression name parameters body =>
    refine of_head (fun _ => methodReceiver_congr ?_ parameters) name body
    rw [isStatic_eq]
    rfl

private theorem ofTree_eq (h : ReadAlike .text a b) (name : String) (file : Option Path) :
    SourceModule.ofTree name file a = SourceModule.ofTree name file b := by
  have tables := h.top rfl (Home.ofFile name file) {}
  unfold SourceModule.ofTree Tables.ofTree
  rw [tables, h.documentation_eq rfl]

end ReadAlike

end

namespace SourceModule

/-- Comments leave a module as it is, any number of them, but for those in the four places. A
comment in front of the parameters of a method makes the module that the method would make without
parameters, and one behind the sign of a decorator the module without the decorator. -/
theorem comments_count_in_four_places (name : String) (file : Option Path) :
    (∀ a b, Relation.ReflTransGen (Within (CommentAdded .passedOver) .text) a b →
      ofTree name file a = ofTree name file b) ∧
    ∀ a b, Relation.ReflTransGen (Within Hidden .text) a b →
      ofTree name file a = ofTree name file b := by
  have run {R : Region → List Statement → List Statement → Prop}
      (step : ∀ r a b, R r a b → ReadAlike r a b) {a b : List Statement}
      (h : Relation.ReflTransGen (Within R .text) a b) :
      ofTree name file a = ofTree name file b := by
    induction h with
    | refl => rfl
    | tail _ last ih => exact ih.trans ((ReadAlike.of_within step last).ofTree_eq name file)
  exact ⟨fun _ _ => run fun _ _ _ => ReadAlike.of_commentAdded,
    fun _ _ => run fun _ _ _ => ReadAlike.of_hidden⟩

theorem comments_count_in_a_method :
    let method (parameters : List Parameter) (items : List Target) : List Statement :=
      [.classDef [] "C" [.functionDef [] "f" parameters [.assign [.tuple items]]]]
    let field : Target := .attribute "self" "x"
    ofTree "m" none (method [.named "self"] [field]) =
        ofTree "m" none (method [.named "self", .comment "# a"] [.comment "# b", field]) ∧
      ofTree "m" none (method [.comment "# a", .named "self"] [field]) =
        ofTree "m" none (method [] [field]) := by
  intro method field
  obtain ⟨passed, hidden⟩ := comments_count_in_four_places "m" none
  constructor
  · have parameter : Within (CommentAdded .passedOver) .text (method [.named "self"] [field])
        (method [.named "self", .comment "# a"] [field]) :=
      .classDef [] "C" (.here
        (.parameter [] "f" [.named "self"] [] "# a" _ fun _ inFront => nomatch inFront))
    have target : Within (CommentAdded .passedOver) .text
        (method [.named "self", .comment "# a"] [field])
        (method [.named "self", .comment "# a"] [.comment "# b", field]) :=
      .classDef [] "C" (.functionDef [] "f" _
        (.here (.target [] [] (.added .tuple [] [field] "# b"))))
    exact passed _ _ (.tail (.single parameter) target)
  · exact hidden _ _ (.single (.classDef [] "C"
      (.here (.parameters [] "f" "# a" [.named "self"] _))))

/-- In each of the four places one more comment changes what is collected. -/
theorem comments_change_tables :
    (∃ a b, Within (CommentAdded .receiver) .text a b ∧
      (ofTree "m" none a).scopes.members "C" ≠ (ofTree "m" none b).scopes.members "C") ∧
    (∃ a b, Within (CommentAdded .staticMark) .text a b ∧
      (ofTree "m" none a).scopes.members "C" ≠ (ofTree "m" none b).scopes.members "C") ∧
    (∃ a b, Within (CommentAdded .importedName) .text a b ∧
      (ofTree "m" none a).imports ≠ (ofTree "m" none b).imports) ∧
    ∃ a b, Within (CommentAdded .documentation) .text a b ∧
      (ofTree "m" none a).doc ≠ (ofTree "m" none b).doc := by
  let body : List Statement := [.assign [.attribute "self" "x"]]
  refine ⟨⟨[.classDef [] "C" [.functionDef [] "f" [.named "self"] body]],
      [.classDef [] "C" [.functionDef [] "f" [.comment "# c", .named "self"] body]], ?_, ?_⟩,
    ⟨[.classDef [] "C" [.functionDef [⟨[], "staticmethod"⟩] "f" [.named "self"] body]],
      [.classDef [] "C" [.functionDef [⟨["# c"], "staticmethod"⟩] "f" [.named "self"] body]],
      ?_, ?_⟩,
    ⟨[.importFrom [.word "a"] [.name [.word "b", .dot, .word "c"]]],
      [.importFrom [.word "a"] [.name [.word "b", .gap " # c\n", .dot, .word "c"]]], ?_, ?_⟩,
    ⟨[.text "f'''\x7ba\x7d'''"], [.text "f'''\x7ba # c\n\x7d'''"], ?_, ?_⟩⟩
  · exact .classDef [] "C" (.here (.receiver "f" "# c" body rfl (by decide)))
  · decide +kernel
  · exact .classDef [] "C" (.here (.staticMark [] [] "f" _ body
      (.sign [] [] "# c" "staticmethod") rfl rfl rfl))
  · decide +kernel
  · exact .here (.importedName (.imported [.word "a"] [] [])
      (.fresh [.word "b"] [.dot, .word "c"] " # c\n") rfl)
  · decide +kernel
  · exact .here (.documentation _ _ rfl)
  · decide +kernel

end SourceModule

end ImportAtlas
