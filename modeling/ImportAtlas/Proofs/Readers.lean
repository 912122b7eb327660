import ImportAtlas.Proofs.Inlining
import ImportAtlas.Proofs.RelativeImports
import ImportAtlas.Python.Statement

/-!
What the statements of a text have in common when it has been read. A property that the reader of
simple statements establishes holds of the statements of all blocks that a text is made of: of the
text itself, of the blocks of its compound statements, and of the bodies of its classes.
-/

set_option autoImplicit false

namespace ImportAtlas.Python

open Literal (repeatStep)

/-- A property holds of the statements of a block, and of those in the bodies of its classes. -/
inductive Throughout (Q : Statement → Prop) : List Statement → Prop
  | intro {block : List Statement} :
      (∀ statement ∈ inlined block, Q statement) →
      (∀ decorators name body, .classDef decorators name body ∈ inlined block →
        Throughout Q body) →
      Throughout Q block

namespace Throughout

variable {Q : Statement → Prop}

theorem statement {block : List Statement} (h : Throughout Q block) {s : Statement}
    (member : s ∈ inlined block) : Q s := by
  cases h with
  | intro statements _ => exact statements s member

private theorem body {block : List Statement} (h : Throughout Q block) {decorators : List Decorator}
    {name : String} {body : List Statement}
    (member : .classDef decorators name body ∈ inlined block) : Throughout Q body := by
  cases h with
  | intro _ bodies => exact bodies decorators name body member

private theorem append {a b : List Statement} (h : Throughout Q a) (h' : Throughout Q b) :
    Throughout Q (a ++ b) := by
  refine .intro (fun statement member => ?_) fun decorators name body member => ?_ <;>
    rw [inlined_append, List.mem_append] at member
  · exact member.elim h.statement h'.statement
  · exact member.elim h.body h'.body

private theorem nil : Throughout Q [] :=
  .intro (fun _ => by simp) fun _ _ _ => by simp

private theorem flatten {blocks : List (List Statement)}
    (h : ∀ block ∈ blocks, Throughout Q block) :
    Throughout Q blocks.flatten := by
  induction blocks with
  | nil => exact nil
  | cons block blocks ih =>
    rw [List.flatten_cons]
    exact (h block List.mem_cons_self).append
      (ih fun other member => h other (List.mem_cons_of_mem _ member))

private theorem of_statements {block : List Statement}
    (h : ∀ statement ∈ block, Throughout Q [statement]) : Throughout Q block := by
  induction block with
  | nil => exact nil
  | cons statement rest ih =>
    exact (h statement List.mem_cons_self).append
      (ih fun other member => h other (List.mem_cons_of_mem _ member))

private theorem compound {clauses : List Clause}
    (h : ∀ clause ∈ clauses, Throughout Q clause.body) :
    Throughout Q [.compound clauses] := by
  have whole : Throughout Q (clauses.flatMap Clause.body) := by
    refine flatten fun block member => ?_
    obtain ⟨clause, listed, rfl⟩ := List.mem_map.mp member
    exact h clause listed
  cases whole with
  | intro statements bodies =>
    rw [← inlined_compound] at statements bodies
    exact .intro statements bodies

private theorem classDef {decorators : List Decorator} {name : String} {body : List Statement}
    (h : Q (.classDef decorators name body)) (h' : Throughout Q body) :
    Throughout Q [.classDef decorators name body] := by
  refine .intro (fun _ member => ?_) fun _ _ _ member => ?_ <;>
    rw [inlined_classDef, List.mem_singleton] at member
  · exact member ▸ h
  · rw [Statement.classDef.injEq] at member
    rw [member.2.2]
    exact h'

end Throughout

/-- A statement that neither is a class nor has statements at its own level. -/
def Statement.isLeaf : Statement → Bool
  | .compound _ => false
  | .classDef .. => false
  | _ => true

private theorem Throughout.leaf {Q : Statement → Prop} {statement : Statement}
    (h : statement.isLeaf) (own : Q statement) : Throughout Q [statement] := by
  cases statement with
  | compound clauses => exact Bool.noConfusion h
  | classDef decorators name body => exact Bool.noConfusion h
  | _ =>
    refine .intro (fun other member => ?_) fun decorators name body member => ?_
    · rw [inlined_cons, inlinedStatement, inlined_nil, List.append_nil,
        List.mem_singleton] at member
      · exact member ▸ own
      · simp
    · simp [inlined_cons, inlinedStatement] at member

/-! ### Words -/

private theorem isIdentifier_of_plainLexeme {cs after : List Char} {word : String}
    (h : plainLexeme? cs = some (.word word, after)) : isIdentifier word := by
  unfold plainLexeme? at h
  split at h
  · simp at h
  · rename_i first rest
    split at h
    · rename_i start
      obtain ⟨rfl, -⟩ : String.ofList (first :: rest.takeWhile Text.isNameChar) = word ∧ _ := by
        simpa using h
      rw [isIdentifier, String.toList_ofList]
      exact Bool.and_eq_true_iff.mpr ⟨start, List.all_takeWhile⟩
    · split at h <;> simp at h

private theorem ne_word_of_layoutStep {a : Admits} {c after : Cursor} {b : Blanks} {lexeme : Lexeme}
    (h : layoutStep a c b = .found lexeme after) (word : String) : lexeme ≠ .word word := by
  rintro rfl
  unfold layoutStep at h
  split at h
  · exact LayoutStep.noConfusion h
  · dsimp only at h
    repeat' split at h
    all_goals simp at h

theorem isIdentifier_of_nextBehind {a : Admits} {comments : List String} {c : Cursor} {t : Found}
    {word : String} (h : Cursor.nextBehind a comments c = some t) (read : t.lexeme = .word word) :
    isIdentifier word := by
  fun_induction Cursor.nextBehind a comments c with
  | case1 comments c b lexeme after found =>
    cases h
    exact absurd read (ne_word_of_layoutStep found word)
  | case2 => exact nomatch h
  | case3 =>
    cases h
    exact Lexeme.noConfusion read
  | case4 _ _ _ _ _ _ _ _ _ ih => exact ih h
  | case5 _ _ _ _ _ _ _ _ ih => exact ih h
  | case6 _ _ _ _ _ _ _ _ ih => exact ih h
  | case7 =>
    obtain ⟨⟨lexeme, after⟩, plain, rfl⟩ := Option.map_eq_some_iff.mp h
    cases read
    exact isIdentifier_of_plainLexeme plain

/-! ### Readers -/

def Yields {α : Type} (P : α → Prop) (r : Option α) : Prop :=
  ∀ x, r = some x → P x

namespace Yields

variable {α β : Type} {P : α → Prop} {Q : β → Prop}

theorem nothing : Yields P none :=
  fun _ h => nomatch h

theorem read {x : α} (h : P x) : Yields P (some x) := by
  intro y same
  rwa [← Option.some.inj same]

theorem bind {r : Option α} {f : α → Option β} (h : Yields P r)
    (next : ∀ x, P x → Yields Q (f x)) : Yields Q (r >>= f) := by
  intro y same
  obtain ⟨x, first, rest⟩ := Option.bind_eq_some_iff.mp same
  exact next x (h x first) y rest

theorem after {r : Option α} {f : α → Option β} (next : ∀ x, Yields Q (f x)) :
    Yields Q (r >>= f) :=
  bind (P := fun _ => True) (fun _ _ => trivial) fun x _ => next x

theorem given {r : Option α} {f : α → Option β} (next : ∀ x, r = some x → Yields Q (f x)) :
    Yields Q (r >>= f) :=
  bind (P := fun x => r = some x) (fun _ => id) next

theorem map {r : Option α} {f : α → β} (h : ∀ x, Q (f x)) : Yields Q (r.map f) := by
  intro y same
  obtain ⟨x, -, rfl⟩ := Option.map_eq_some_iff.mp same
  exact h x

private theorem filter {r : Option α} (h : Yields P r) (p : α → Bool) : Yields P (r.filter p) :=
  fun x same => h x (Option.filter_eq_some_iff.mp same).1

private theorem orElse {r : Option α} {f : Unit → Option α} (h : Yields P r)
    (h' : Yields P (f ())) :
    Yields P (r.orElse f) := by
  cases r with
  | none => exact h'
  | some x => exact h

theorem repeatStep {step : α → Cursor → Option (Option (α × Cursor))}
    (round : ∀ a c, P a → Yields (fun next => ∀ p, next = some p → P p.1) (step a c)) (fuel : Nat)
    {a : α} (start : P a) (c : Cursor) :
    Yields (fun p => P p.1) (repeatStep step fuel a c) := by
  induction fuel generalizing a c with
  | zero => exact nothing
  | succ fuel ih =>
    unfold Literal.repeatStep
    split
    · exact nothing
    · exact read start
    · rename_i next behind taken
      exact ih (round a c start _ taken _ rfl) behind

end Yields

private theorem Yields.both {α : Type} {P P' : α → Prop} {r : Option α} (h : Yields P r)
    (h' : Yields P' r) : Yields (fun x => P x ∧ P' x) r :=
  fun x same => ⟨h x same, h' x same⟩

theorem Yields.mono {α : Type} {P P' : α → Prop} {r : Option α} (h : Yields P r)
    (weaker : ∀ x, P x → P' x) : Yields P' r :=
  fun x same => weaker x (h x same)

abbrev ReadsLeaf (r : Option (Statement × Cursor)) : Prop :=
  Yields (fun p => p.1.isLeaf = true) r

def Statement.isExpression : Statement → Bool
  | .text _ => true
  | .assign _ => true
  | .plain => true
  | _ => false

private theorem Statement.isLeaf_of_isExpression {s : Statement} (h : s.isExpression) :
    s.isLeaf := by
  cases s with
  | compound clauses => exact Bool.noConfusion h
  | classDef decorators name body => exact Bool.noConfusion h
  | _ => rfl

abbrev ReadsExpression (r : Option (Statement × Cursor)) : Prop :=
  Yields (fun p => p.1.isExpression = true) r

private theorem name_identifier (c : Cursor) :
    Yields (fun p => isIdentifier p.1 = true) c.name? := by
  unfold Cursor.name?
  split
  · rename_i word _ _ _ found
    exact .read (isIdentifier_of_nextBehind found rfl)
  · exact .nothing

/-! ### Simple statements -/

theorem expressionStatement_expression (fuel : Nat) (self : ExpressionReader) (t : Found) :
    ReadsExpression (expressionStatement fuel self t) := by
  unfold expressionStatement
  split
  · exact .map fun _ => rfl
  · refine .after fun ⟨forms, c⟩ => .after fun ⟨⟨targets, _⟩, c⟩ => ?_
    dsimp only
    split <;> exact .read rfl

theorem softStatement_expression (fuel : Nat) (self : ExpressionReader) (t : Found) :
    ReadsExpression (softStatement fuel self t) := by
  unfold softStatement
  have ordinary := (expressionStatement_expression fuel self t).filter fun p => endsStatement p.2
  split
  · exact ordinary.orElse (.after fun _ => .after fun _ => .read rfl)
  · split
    · refine ordinary.orElse (.after fun _ => ?_)
      extract_lets behind
      have expression (c : Cursor) : ReadsExpression (behind c) := by
        unfold behind
        split
        · exact .map fun _ => rfl
        · exact .read rfl
      split <;> exact .after expression
    · refine .orElse (.filter ?_ _) ordinary
      refine .after fun _ => .after fun _ => .after fun _ => ?_
      exact .after fun _ => .after fun _ => .read rfl

private theorem fromImport_leaf (fuel : Nat) (c : Cursor) : ReadsLeaf (fromImport fuel c) := by
  unfold fromImport
  refine .after fun t => ?_
  extract_lets inside names behind
  have imported {wrap : List ImportItem → Statement} (leaf : ∀ items, (wrap items).isLeaf = true)
      (c : Cursor) : ReadsLeaf (names c wrap) := by
    refine .after fun t => ?_
    split
    · exact .after fun _ => .after fun p => .after fun _ => .read (leaf p.1)
    · exact .after fun p => .read (leaf p.1)
  have source (p : SpelledName × Cursor) : ReadsLeaf (behind p) := by
    obtain ⟨name, c⟩ := p
    dsimp only [behind]
    split
    · exact .read rfl
    · exact imported (fun _ => rfl) c
  split
  · exact .after (@imported (fun _ => .plain) fun _ => rfl)
  · split
    · exact .after fun _ => .after fun _ => .after source
    · exact .after source

theorem simpleStatement_leaf (fuel : Nat) (self : ExpressionReader) (t : Found) :
    ReadsLeaf (simpleStatement fuel self t) := by
  unfold simpleStatement
  split
  · exact .after fun _ => .after fun _ => .read rfl
  · exact fromImport_leaf fuel _
  all_goals first
    | exact .map fun _ => rfl
    | exact .read rfl
    | exact (softStatement_expression fuel self t).mono fun _ => Statement.isLeaf_of_isExpression
    | exact (expressionStatement_expression fuel self t).mono fun _ =>
        Statement.isLeaf_of_isExpression

private theorem matchStatement_cases (fuel : Nat) (self : ExpressionReader) (block : BlockReader)
    (c : Cursor) : Yields (fun p => ∃ clauses, p.1 = .cases clauses)
      (matchStatement fuel self block c) := by
  unfold matchStatement
  refine .after fun _ => .after fun _ => .after fun _ => .after fun _ => ?_
  split
  · exact .read ⟨_, rfl⟩
  · exact .after fun _ => .read ⟨_, rfl⟩
  · exact .nothing

private theorem functionDefinition_functionDef (fuel : Nat) (self : ExpressionReader)
    (block : BlockReader) (decorators : List Decorator) (c : Cursor) :
    Yields (fun p => ∃ name parameters body, p.1 = .functionDef decorators name parameters body)
      (functionDefinition fuel self block decorators c) := by
  unfold functionDefinition
  refine .after fun _ => .after fun _ => .after fun _ => .after fun t => ?_
  extract_lets behind
  have function (p : List Parameter × Cursor) : Yields
      (fun p => ∃ name parameters body, p.1 = .functionDef decorators name parameters body)
      (behind p) := by
    dsimp only [behind]
    split
    · exact .after fun _ => .after fun _ => .after fun _ => .read ⟨_, _, _, rfl⟩
    · exact .after fun _ => .after fun _ => .read ⟨_, _, _, rfl⟩
  split
  · exact .after function
  · exact .after fun _ => .after function

/-- A property of statements that their readers establish, whatever blocks are inside them. A
compound statement counts as the statements of its blocks, so nothing is asked of it. -/
structure Established (Q : Statement → Prop) : Prop where
  simple : ∀ fuel self t, Yields (fun p => Q p.1) (simpleStatement fuel self t)
  comment : ∀ text, Q (.comment text)
  cases : ∀ clauses, Q (.cases clauses)
  functionDef : ∀ decorators name parameters body, Q (.functionDef decorators name parameters body)
  classDef : ∀ decorators name body, isIdentifier name → Q (.classDef decorators name body)

abbrev ReadsThroughout (Q : Statement → Prop) (r : Option (List Statement × Cursor)) : Prop :=
  Yields (fun p => Throughout Q p.1) r

/-! ### Blocks and the statements that have them -/

def ClausesThroughout (Q : Statement → Prop) (clauses : List Clause) : Prop :=
  ∀ clause ∈ clauses, Throughout Q clause.body

section

variable {Q : Statement → Prop}

private theorem ClausesThroughout.single {clause : Clause} (own : Throughout Q clause.body) :
    ClausesThroughout Q [clause] :=
  List.forall_mem_singleton.mpr own

private theorem ClausesThroughout.snoc {clauses : List Clause} {clause : Clause}
    (h : ClausesThroughout Q clauses) (own : Throughout Q clause.body) :
    ClausesThroughout Q (clauses ++ [clause]) :=
  List.forall_mem_append.mpr ⟨h, List.forall_mem_singleton.mpr own⟩

private theorem Established.comments (established : Established Q) (texts : List String) :
    Throughout Q (texts.map Statement.comment) := by
  refine .of_statements fun statement member => ?_
  obtain ⟨text, -, rfl⟩ := List.mem_map.mp member
  exact .leaf rfl (established.comment text)

variable (established : Established Q)

include established

private theorem simpleLine_throughout (fuel : Nat) (self : ExpressionReader) (t : Found) :
    ReadsThroughout Q (simpleLine fuel self t) := by
  have single (t : Found) : Yields (fun p => Throughout Q [p.1]) (simpleStatement fuel self t) :=
    ((simpleStatement_leaf fuel self t).both (established.simple fuel self t)).mono
      fun _ both => .leaf both.1 both.2
  unfold simpleLine
  refine (single t).bind fun ⟨first, c⟩ own => ?_
  have start : ∀ statement ∈ [first], Throughout Q [statement] := List.forall_mem_singleton.mpr own
  refine .bind (Yields.repeatStep (P := fun s => ∀ statement ∈ s.1, Throughout Q [statement]) ?_
    fuel start c) fun ⟨⟨statements, _⟩, _⟩ all => .read
      (.of_statements fun statement member => all statement (List.mem_reverse.mp member))
  rintro ⟨statements, ended⟩ c all
  dsimp only
  split
  · exact .read nofun
  · refine .after fun t => ?_
    split
    · exact .read fun p same => Option.some.inj same ▸ all
    · refine .after fun t => ?_
      split
      · exact .read fun p same => Option.some.inj same ▸ all
      · refine (single t).bind fun ⟨next, c⟩ own => .read fun p same => ?_
        rw [← Option.some.inj same]
        exact List.forall_mem_cons.mpr ⟨own, all⟩
    · exact .nothing

variable {fuel : Nat} {self : ExpressionReader} {block : BlockReader}
  (blocks : ∀ c, ReadsThroughout Q (block c))

include blocks

private theorem suite_throughout (c : Cursor) : ReadsThroughout Q (suite fuel self block c) := by
  unfold suite
  refine .after fun c => .after fun t => ?_
  split
  · exact blocks t.after
  · exact .read .nil
  · exact simpleLine_throughout established fuel self t

private theorem optionalClause_throughout (inBlock : Bool) (word : String) {clauses : List Clause}
    (h : ClausesThroughout Q clauses) (c : Cursor) :
    Yields (fun p => ClausesThroughout Q p.1)
      (optionalClause fuel self block inBlock word clauses c) := by
  unfold optionalClause
  split
  · exact (suite_throughout established blocks _).bind fun _ holds => .read (h.snoc holds)
  · exact .read h

private theorem conditional_throughout (word : String) (c : Cursor) :
    Yields (fun p => Throughout Q p.1.body) (conditional fuel self block word c) := by
  unfold conditional
  exact .after fun p => (suite_throughout established blocks p.2).bind fun _ holds => .read holds

private theorem ifStatement_throughout (inBlock : Bool) (c : Cursor) :
    Yields (fun p => Throughout Q [p.1]) (ifStatement fuel self block inBlock c) := by
  unfold ifStatement
  refine (conditional_throughout established blocks "if" c).bind fun ⟨first, c⟩ holds => ?_
  refine (Yields.repeatStep (P := ClausesThroughout Q) ?_ fuel (.single holds) c).bind
    fun ⟨clauses, c⟩ holds =>
      (optionalClause_throughout established blocks inBlock "else" holds c).bind
        fun _ holds => .read (.compound holds)
  intro clauses c holds
  split
  · refine (conditional_throughout established blocks "elif" _).bind
      fun _ last => .read fun p same => ?_
    rw [← Option.some.inj same]
    exact holds.snoc last
  · exact .read nofun

private theorem whileStatement_throughout (inBlock : Bool) (c : Cursor) :
    Yields (fun p => Throughout Q [p.1]) (whileStatement fuel self block inBlock c) := by
  unfold whileStatement
  refine (conditional_throughout established blocks "while" c).bind fun ⟨first, c⟩ holds => ?_
  exact (optionalClause_throughout established blocks inBlock "else" (.single holds) c).bind
    fun _ holds => .read (.compound holds)

private theorem forStatement_throughout (inBlock : Bool) (c : Cursor) :
    Yields (fun p => Throughout Q [p.1]) (forStatement fuel self block inBlock c) := by
  unfold forStatement
  refine .after fun _ => .after fun _ => .after fun p => ?_
  refine (suite_throughout established blocks p.2).bind fun ⟨body, c⟩ holds => ?_
  have start : ClausesThroughout Q [.mk "for" body] := .single holds
  exact (optionalClause_throughout established blocks inBlock "else" start c).bind
    fun _ holds => .read (.compound holds)

private theorem withStatement_throughout (c : Cursor) :
    Yields (fun p => Throughout Q [p.1]) (withStatement fuel self block c) := by
  unfold withStatement
  refine .after fun _ => .after fun p => ?_
  exact (suite_throughout established blocks p.2).bind fun _ holds =>
    .read (.compound (ClausesThroughout.single holds))

private theorem handler_throughout (grouped : Bool) (c : Cursor) :
    Yields (fun p => Throughout Q p.1.body) (handler fuel self block grouped c) := by
  unfold handler
  extract_lets word behind
  have holds (c : Cursor) : Yields (fun p => Throughout Q p.1.body) (behind c) :=
    (suite_throughout established blocks c).bind fun _ holds => .read holds
  refine .after fun t => ?_
  split
  · exact .after holds
  · refine .after fun ⟨_, c⟩ => ?_
    dsimp only
    split
    · split
      · exact .after holds
      · exact .after holds
    · exact .after holds

private theorem tryStatement_throughout (inBlock : Bool) (c : Cursor) :
    Yields (fun p => Throughout Q [p.1]) (tryStatement fuel self block inBlock c) := by
  unfold tryStatement
  refine (suite_throughout established blocks c).bind fun ⟨body, c⟩ holds => ?_
  dsimp only
  refine (Yields.repeatStep (P := ClausesThroughout Q) ?_ fuel (List.forall_mem_nil _) c).bind
    fun ⟨handlers, c⟩ rest => ?_
  · intro handlers c before
    split
    · refine (handler_throughout established blocks _ _).bind fun _ last => .read fun p same => ?_
      rw [← Option.some.inj same]
      exact before.snoc last
    · exact .read nofun
  · have start : ClausesThroughout Q (.mk "try" body :: handlers) :=
      List.forall_mem_cons.mpr ⟨holds, rest⟩
    dsimp only
    split
    · exact .after fun c => (suite_throughout established blocks c).bind fun _ last =>
        .read (.compound (start.snoc last))
    · have clause (word : String) := @optionalClause_throughout Q established fuel self block blocks
        inBlock word
      exact (clause "else" start c).bind fun p holds =>
        (clause "finally" holds p.2).bind fun _ holds => .read (.compound holds)

private theorem classDefinition_throughout (decorators : List Decorator) (c : Cursor) :
    Yields (fun p => Throughout Q [p.1]) (classDefinition fuel self block decorators c) := by
  unfold classDefinition
  refine (name_identifier c).bind fun ⟨name, c⟩ identifier => .after fun c => ?_
  extract_lets behind
  have holds (c : Cursor) : Yields (fun p => Throughout Q [p.1]) (behind c) :=
    (suite_throughout established blocks c).bind fun _ holds =>
      .read (.classDef (established.classDef _ _ _ identifier) holds)
  split
  · exact .after holds
  · exact .after holds

private theorem definition_throughout (decorators : List Decorator) (t : Found) :
    Yields (fun p => Throughout Q [p.1]) (definition? fuel self block decorators t) := by
  have function (c : Cursor) :
      Yields (fun p => Throughout Q [p.1]) (functionDefinition fuel self block decorators c) := by
    refine (functionDefinition_functionDef fuel self block decorators c).mono ?_
    rintro ⟨_, _⟩ ⟨name, parameters, body, rfl⟩
    exact .leaf rfl (established.functionDef decorators name parameters body)
  unfold definition?
  split
  · exact classDefinition_throughout established blocks decorators t.after
  · split
    · exact function t.after
    · split
      · exact .after function
      · exact .nothing

private theorem decorated_throughout (t : Found) :
    Yields (fun p => Throughout Q [p.1]) (decorated fuel self block t) := by
  unfold decorated
  exact .after fun p => .after fun t => definition_throughout established blocks p.1.reverse t

private theorem compoundStatement_throughout (inBlock : Bool) (t : Found) :
    Yields (fun r => ∀ p, r = some p → Throughout Q [p.1])
      (compoundStatement fuel self block inBlock t) := by
  have found {r : Option (Statement × Cursor)} (h : Yields (fun p => Throughout Q [p.1]) r) :
      Yields (fun r => ∀ p, r = some p → Throughout Q [p.1]) (r.map some) := by
    intro x same
    obtain ⟨p, read, rfl⟩ := Option.map_eq_some_iff.mp same
    exact fun q eq => Option.some.inj eq ▸ h p read
  unfold compoundStatement
  split
  · exact found (decorated_throughout established blocks t)
  · exact found (ifStatement_throughout established blocks inBlock t.after)
  · exact found (forStatement_throughout established blocks inBlock t.after)
  · exact found (whileStatement_throughout established blocks inBlock t.after)
  · exact found (tryStatement_throughout established blocks inBlock t.after)
  · exact found (withStatement_throughout established blocks t.after)
  · exact found (definition_throughout established blocks [] t)
  · exact found (definition_throughout established blocks [] t)
  · split
    · exact found (definition_throughout established blocks [] t)
    · exact found (forStatement_throughout established blocks inBlock _)
    · exact found (withStatement_throughout established blocks _)
    · exact .read nofun
  · refine .read fun p same => ?_
    obtain ⟨clauses, cases⟩ := matchStatement_cases fuel self block t.after p same
    rw [cases]
    exact .leaf rfl (established.cases clauses)
  · exact .read nofun

end

private theorem level_throughout {Q : Statement → Prop} (established : Established Q) (fuel : Nat)
    (inBlock : Bool) (c : Cursor) : ReadsThroughout Q (level fuel inBlock c) := by
  induction fuel generalizing inBlock c with
  | zero => exact .nothing
  | succ fuel ih =>
    unfold level
    extract_lets self block
    have blocks (c : Cursor) : ReadsThroughout Q (block c) := ih true c
    -- what has been read comes in pieces, the last one in front
    refine .bind (Yields.repeatStep (P := fun s => ∀ read ∈ s.1, Throughout Q read) ?_ (fuel + 1)
      (List.forall_mem_nil _) c) fun ⟨⟨statements, _⟩, _⟩ holds => .read (.flatten
        fun read member => holds read (List.mem_reverse.mp member))
    rintro ⟨statements, ended⟩ c holds
    dsimp only
    split
    · exact .read nofun
    · refine .after fun t => ?_
      have comments := established.comments t.comments
      have closed := List.forall_mem_cons.mpr ⟨comments, holds⟩
      split
      · exact .read fun p same => Option.some.inj same ▸ closed
      · split
        · exact .nothing
        · exact .read fun p same => Option.some.inj same ▸ closed
      · refine (compoundStatement_throughout established blocks inBlock t).bind fun r found => ?_
        split
        · rename_i statement c
          refine .read fun p same => Option.some.inj same ▸ ?_
          exact List.forall_mem_cons.mpr ⟨found _ rfl, closed⟩
        · refine (simpleLine_throughout established (fuel + 1) self t).bind fun ⟨line, c⟩ read => ?_
          refine .read fun p same => Option.some.inj same ▸ ?_
          exact List.forall_mem_cons.mpr ⟨read, closed⟩

theorem exists_of_any {α : Type} {r : Option α} {P : α → Prop} [DecidablePred P]
    (h : r.any (fun x => decide (P x)) = true) : ∃ x, r = some x ∧ P x := by
  cases r with
  | none => exact nomatch h
  | some x => exact ⟨x, rfl, of_decide_eq_true h⟩

/-- A property that the readers of statements establish holds throughout a text that can be read. -/
theorem Established.throughout_of_parse {Q : Statement → Prop} (established : Established Q)
    {text : String} {tree : List Statement} (h : parse text = some tree) : Throughout Q tree := by
  unfold parse at h
  dsimp only at h
  split at h
  · exact nomatch h
  · obtain ⟨p, read, rfl⟩ := Option.map_eq_some_iff.mp h
    exact level_throughout established _ _ _ p read

end ImportAtlas.Python
