import ImportAtlas.Proofs.Entries
import ImportAtlas.Proofs.SymbolSets

/-!
The symbols that a module has at its top level are distinct, and none of them is bound by an import.
-/

set_option autoImplicit false

namespace ImportAtlas

open Python

/-- Whether some symbols are distinct and none is bound by an import. -/
structure AreOwn (xs : List Symbol) : Prop where
  distinct : (xs.map Symbol.id).Nodup
  defined : ∀ x ∈ xs, x.kind ≠ .imported

namespace AreOwn

theorem nil : AreOwn [] :=
  ⟨List.nodup_nil, fun _ member => absurd member List.not_mem_nil⟩

variable {s : SymbolSet}

private theorem insert (h : AreOwn s.toList) {x : Symbol} (defined : x.kind ≠ .imported) :
    AreOwn (s.insert x).toList := by
  refine ⟨SymbolSet.nodup_ids_insert h.distinct x, fun y member => ?_⟩
  rcases SymbolSet.mem_insert member with old | rfl
  · exact h.defined y old
  · exact defined

private theorem insertAll (h : AreOwn s.toList) {xs : List Symbol}
    (defined : ∀ x ∈ xs, x.kind ≠ .imported) :
    AreOwn (s.insertAll xs).toList := by
  induction xs generalizing s with
  | nil => exact h
  | cons x xs ih =>
    exact ih (h.insert (defined x List.mem_cons_self))
      fun y member => defined y (List.mem_cons_of_mem _ member)

end AreOwn

variable {home : Home}

mutual
private theorem areOwn_topStatement (t : Tables) (h : AreOwn t.globals.toList) :
    (statement : Statement) → AreOwn (topStatement home t statement).globals.toList
  | .classDef .. => h.insert (by simp [classSymbol, Home.symbol])
  | .functionDef .. => h.insert (by simp [functionSymbol, Home.symbol])
  | .assign targets => h.insertAll (by simp [Home.symbol])
  | .compound clauses => areOwn_topClauses t h clauses
  | .comment _ | .text _ | .importNames _ | .importFrom .. | .importAll _ | .cases _ | .plain => h

private theorem areOwn_topBlock (t : Tables) (h : AreOwn t.globals.toList) :
    (block : List Statement) → AreOwn (topBlock home t block).globals.toList
  | [] => h
  | statement :: rest => areOwn_topBlock _ (areOwn_topStatement t h statement) rest

private theorem areOwn_topClauses (t : Tables) (h : AreOwn t.globals.toList) :
    (clauses : List Clause) → AreOwn (topClauses home t clauses).globals.toList
  | [] => h
  | .mk _ body :: rest => areOwn_topClauses _ (areOwn_topBlock t h body) rest
end

theorem Builtin.eq_of_ofName? {name : String} {t : Builtin.Table}
    (known : Builtin.ofName? name = some t) : t = Builtin.ambient ∨ t = Builtin.system := by
  unfold Builtin.ofName? at known
  split at known
  · exact Or.inl (Option.some.inj known).symm
  · split at known
    · exact Or.inr (Option.some.inj known).symm
    · simp at known

private theorem Builtin.areOwn_of_ofName? {name : String} {t : Builtin.Table}
    (known : Builtin.ofName? name = some t) : AreOwn t.globals := by
  rcases Builtin.eq_of_ofName? known with rfl | rfl
  · exact ⟨by decide +kernel, by decide +kernel⟩
  · exact ⟨by decide +kernel, by decide +kernel⟩

theorem Module.Made.areOwn_globals {m : Module} (h : m.Made) : AreOwn m.globals := by
  cases h with
  | placeholder key => exact .nil
  | source name file tree => exact areOwn_topBlock {} .nil tree
  | builtin known => exact Builtin.areOwn_of_ofName? known

end ImportAtlas
