import ImportAtlas.Python.Tree

/-!
Blocks without compound statements. A compound statement counts as the statements of its blocks, so
a block comes down to a list of other statements, and a walk that takes compound statements block by
block goes through this list.
-/

set_option autoImplicit false

namespace ImportAtlas.Python

mutual
/-- What a statement stands for at its own level: a compound statement for the statements of its
blocks, any other one for itself. -/
def inlinedStatement : Statement → List Statement
  | .compound clauses => inlinedClauses clauses
  | statement => [statement]

def inlined : List Statement → List Statement
  | [] => []
  | statement :: rest => inlinedStatement statement ++ inlined rest

def inlinedClauses : List Clause → List Statement
  | [] => []
  | .mk _ body :: rest => inlined body ++ inlinedClauses rest
end

@[simp] theorem inlined_nil : inlined [] = [] := by rw [inlined]

theorem inlined_cons (statement : Statement) (rest : List Statement) :
    inlined (statement :: rest) = inlinedStatement statement ++ inlined rest := by
  rw [inlined]

@[simp] theorem inlined_append (front back : List Statement) :
    inlined (front ++ back) = inlined front ++ inlined back := by
  induction front with
  | nil => rw [inlined_nil, List.nil_append, List.nil_append]
  | cons statement front ih =>
    rw [List.cons_append, inlined_cons, inlined_cons, ih, List.append_assoc]

private theorem inlinedClauses_eq (clauses : List Clause) :
    inlinedClauses clauses = inlined (clauses.flatMap Clause.body) := by
  induction clauses with
  | nil => rw [inlinedClauses, List.flatMap_nil, inlined_nil]
  | cons clause clauses ih =>
    obtain ⟨keyword, body⟩ := clause
    rw [inlinedClauses, ih, List.flatMap_cons, inlined_append, Clause.body]

theorem inlined_compound (clauses : List Clause) :
    inlined [.compound clauses] = inlined (clauses.flatMap Clause.body) := by
  rw [inlined_cons, inlinedStatement, inlined_nil, List.append_nil, inlinedClauses_eq]

theorem inlined_classDef (decorators : List Decorator) (name : String) (body : List Statement) :
    inlined [.classDef decorators name body] = [.classDef decorators name body] := by
  rw [inlined_cons, inlinedStatement, inlined_nil, List.append_nil]
  simp

mutual
private theorem not_mem_inlinedStatement (clauses : List Clause) : (statement : Statement) →
    .compound clauses ∉ inlinedStatement statement
  | .compound inner => by
    rw [inlinedStatement]
    exact not_mem_inlinedClauses clauses inner
  | .comment _ | .text _ | .assign _ | .importNames _ | .importFrom .. | .importAll _ | .cases _
  | .classDef .. | .functionDef .. | .plain => by
    simp [inlinedStatement]

theorem not_mem_inlined_compound (clauses : List Clause) : (block : List Statement) →
    .compound clauses ∉ inlined block
  | [] => by simp
  | statement :: rest => by
    rw [inlined_cons, List.mem_append, not_or]
    exact ⟨not_mem_inlinedStatement clauses statement, not_mem_inlined_compound clauses rest⟩

private theorem not_mem_inlinedClauses (clauses : List Clause) : (inner : List Clause) →
    .compound clauses ∉ inlinedClauses inner
  | [] => by simp [inlinedClauses]
  | .mk _ body :: rest => by
    rw [inlinedClauses, List.mem_append, not_or]
    exact ⟨not_mem_inlined_compound clauses body, not_mem_inlinedClauses clauses rest⟩
end

/-! ### Facts about all blocks -/

private def PassesOut (P : List Statement → Prop) : Prop :=
  ∀ block, (∀ decorators name body, .classDef decorators name body ∈ inlined block → P body) →
    P block

section

variable {P : List Statement → Prop}

-- The recursion runs over the whole tree: `step` takes a body once the bodies inside it are done.
mutual
private theorem bodies_inlinedStatement (step : PassesOut P) {decorators : List Decorator}
    {name : String} {body : List Statement} : (statement : Statement) →
    .classDef decorators name body ∈ inlinedStatement statement → P body
  | .compound clauses, h => by
    rw [inlinedStatement] at h
    exact bodies_inlinedClauses step clauses h
  | .classDef _ _ own, h => by
    simp only [inlinedStatement, List.mem_singleton, Statement.classDef.injEq] at h
    rw [h.2.2]
    exact step own fun _ _ _ => bodies_inlined step own
  | .comment _, h | .text _, h | .assign _, h | .importNames _, h | .importFrom .., h
  | .importAll _, h | .cases _, h | .functionDef .., h | .plain, h => by
    simp [inlinedStatement] at h

private theorem bodies_inlined (step : PassesOut P) {decorators : List Decorator} {name : String}
    {body : List Statement} : (block : List Statement) →
    .classDef decorators name body ∈ inlined block → P body
  | [], h => by simp at h
  | statement :: rest, h => by
    rw [inlined_cons] at h
    rcases List.mem_append.mp h with first | later
    · exact bodies_inlinedStatement step statement first
    · exact bodies_inlined step rest later

private theorem bodies_inlinedClauses (step : PassesOut P) {decorators : List Decorator}
    {name : String} {body : List Statement} : (clauses : List Clause) →
    .classDef decorators name body ∈ inlinedClauses clauses → P body
  | [], h => by simp [inlinedClauses] at h
  | .mk _ own :: rest, h => by
    rw [inlinedClauses] at h
    rcases List.mem_append.mp h with first | later
    · exact bodies_inlined step own first
    · exact bodies_inlinedClauses step rest later
end

/-- What holds of a block whenever it holds of the bodies of the classes that are defined at its
level holds of all blocks. -/
theorem block_induction
    (step : ∀ block, (∀ decorators name body,
      .classDef decorators name body ∈ inlined block → P body) → P block)
    (block : List Statement) : P block :=
  step block fun _ _ _ => bodies_inlined step block

end

/-- A walk through statements that takes a compound statement block by block. -/
structure Walk (σ : Type) where
  statement : σ → Statement → σ
  block : σ → List Statement → σ
  clauses : σ → List Clause → σ
  compound : ∀ s cs, statement s (.compound cs) = clauses s cs
  block_nil : ∀ s, block s [] = s
  block_cons : ∀ s first rest, block s (first :: rest) = block (statement s first) rest
  clauses_nil : ∀ s, clauses s [] = s
  clauses_cons : ∀ s keyword body rest,
    clauses s (.mk keyword body :: rest) = clauses (block s body) rest

namespace Walk

variable {σ : Type} (w : Walk σ)

mutual
private theorem statement_eq_foldl (s : σ) : (statement : Statement) →
    w.statement s statement = (inlinedStatement statement).foldl w.statement s
  | .compound clauses => by
    rw [w.compound, inlinedStatement]
    exact clauses_eq_foldl s clauses
  | .comment _ | .text _ | .assign _ | .importNames _ | .importFrom .. | .importAll _ | .cases _
  | .classDef .. | .functionDef .. | .plain => by
    simp [inlinedStatement]

theorem block_eq_foldl (s : σ) : (block : List Statement) →
    w.block s block = (inlined block).foldl w.statement s
  | [] => by rw [w.block_nil, inlined_nil, List.foldl_nil]
  | statement :: rest => by
    rw [w.block_cons, inlined_cons, List.foldl_append, ← statement_eq_foldl s statement]
    exact block_eq_foldl _ rest

private theorem clauses_eq_foldl (s : σ) : (clauses : List Clause) →
    w.clauses s clauses = (inlinedClauses clauses).foldl w.statement s
  | [] => by rw [w.clauses_nil, inlinedClauses, List.foldl_nil]
  | .mk _ body :: rest => by
    rw [w.clauses_cons, inlinedClauses, List.foldl_append, ← block_eq_foldl s body]
    exact clauses_eq_foldl _ rest
end

theorem block_append (s : σ) (front back : List Statement) :
    w.block s (front ++ back) = w.block (w.block s front) back := by
  rw [w.block_eq_foldl, w.block_eq_foldl, w.block_eq_foldl, inlined_append, List.foldl_append]

/-- Where each statement of a block adds its own items to some part of what is walked with, the
block adds the items of its statements in order. -/
theorem view_block {τ γ : Type} (view : σ → τ) {add : τ → List γ → τ} {own : Statement → List γ}
    (add_nil : ∀ v, add v [] = v) (add_append : ∀ v xs ys, add v (xs ++ ys) = add (add v xs) ys)
    {block : List Statement}
    (step : ∀ statement ∈ inlined block, ∀ s,
      view (w.statement s statement) = add (view s) (own statement)) (s : σ) :
    view (w.block s block) = add (view s) ((inlined block).flatMap own) := by
  rw [w.block_eq_foldl]
  -- from here on the list of statements is any list: the blocks it came from do not matter
  generalize inlined block = statements at step
  induction statements generalizing s with
  | nil => rw [List.foldl_nil, List.flatMap_nil, add_nil]
  | cons statement rest ih =>
    have later := ih (s := w.statement s statement)
      fun other member => step other (List.mem_cons_of_mem _ member)
    rw [List.foldl_cons, later, step statement List.mem_cons_self, List.flatMap_cons, add_append]

end Walk

end ImportAtlas.Python
