import ImportAtlas.Completion.Cursor
import ImportAtlas.Completion.Imports
import Mathlib.Logic.Relation

/-!
Every query is a run of lookups: whatever one lookup keeps, completion and preloading keep.
-/

set_option autoImplicit false

namespace ImportAtlas

namespace State

def Asks (lib : Library) (s t : State) : Prop :=
  ∃ name, t = (s.resolve lib name).2

abbrev Lookups (lib : Library) : State → State → Prop :=
  Relation.ReflTransGen (Asks lib)

variable {lib : Library}

theorem lookups_resolve (lib : Library) (name : String) (s : State) :
    Lookups lib s (s.resolve lib name).2 :=
  Relation.ReflTransGen.single ⟨name, rfl⟩

private theorem lookups_of_resolve {name : String} {s t : State} {result : Except Failure Module}
    (answer : s.resolve lib name = (result, t)) : Lookups lib s t := by
  have step := lookups_resolve lib name s
  rw [answer] at step
  exact step

private theorem lookups_resolveAll (names : List String) (s : State) :
    Lookups lib s (s.resolveAll lib names).2 := by
  induction names generalizing s with
  | nil => exact Relation.ReflTransGen.refl
  | cons name rest ih =>
    have later := (lookups_resolve lib name s).trans (ih (s.resolve lib name).2)
    simp only [resolveAll]
    split <;> exact later

theorem lookups_preloadNames (cancel : Cancellation) (names : List String) (s : State) :
    Lookups lib s (s.preloadNames lib cancel names).2 :=
  lookups_resolveAll (cancel.keep names) s

end State

namespace Completion

open State

variable {lib : Library}

def enter (m : Module) (visited : Visited) (s : State) : Walk :=
  ⟨(SymbolSet.empty.insertAll m.globals).insertAll m.imports, visit visited m.name, s⟩

theorem expand_succ (lib : Library) (depth : Nat) (m : Module) (visited : Visited) (s : State) :
    expand lib (depth + 1) m visited s =
      m.wildcards.foldl (followWildcard lib (expand lib depth)) (enter m visited s) := rfl

private theorem lookups_followWildcard {expand : Module → Visited → State → Walk}
    (inner : ∀ m visited s, Lookups lib s (expand m visited s).state) (w : Walk) (x : Symbol) :
    Lookups lib w.state (followWildcard lib expand w x).state := by
  simp only [followWildcard]
  split
  · exact Relation.ReflTransGen.refl
  · split
    · rename_i m s answer
      exact (lookups_of_resolve answer).trans (inner m _ s)
    · rename_i cause s answer
      exact lookups_of_resolve answer

private theorem lookups_expand (depth : Nat) (m : Module) (visited : Visited) (s : State) :
    Lookups lib s (expand lib depth m visited s).state := by
  induction depth generalizing m visited s with
  | zero => exact Relation.ReflTransGen.refl
  | succ depth ih =>
    have fold : ∀ (wildcards : List Symbol) (w : Walk), Lookups lib w.state
        (wildcards.foldl (followWildcard lib (expand lib depth)) w).state := by
      intro wildcards
      induction wildcards with
      | nil => exact fun w => Relation.ReflTransGen.refl
      | cons x rest ih_rest =>
        exact fun w => (lookups_followWildcard ih w x).trans (ih_rest _)
    rw [expand_succ]
    exact fold m.wildcards (enter m visited s)

theorem lookups_reachable (lib : Library) (m : Module) (s : State) :
    Lookups lib s (reachable lib m s).2 :=
  lookups_expand _ m [] s

private theorem lookups_bare (m : Module) (s : State) : Lookups lib s (bare lib m s).2 := by
  have walk := lookups_reachable lib m s
  simp only [bare]
  split
  · rename_i answer
    exact walk.trans (lookups_of_resolve answer)
  · rename_i answer
    exact walk.trans (lookups_of_resolve answer)

private theorem lookups_descend (path rest : List String) (s : State) :
    Lookups lib s (descend lib path rest s).2 := by
  induction path generalizing rest s with
  | nil => exact Relation.ReflTransGen.refl
  | cons last before ih =>
    simp only [descend]
    split
    · rename_i m t answer
      have step := lookups_of_resolve answer
      split
      · exact step.trans (lookups_reachable lib m t)
      · exact step
    · rename_i cause t answer
      exact (lookups_of_resolve answer).trans (ih _ t)

private theorem lookups_behind (m : Module) (name : String) (s : State) :
    Lookups lib s (behind lib m name s).2 := by
  unfold behind
  split
  · exact lookups_descend _ _ s
  · exact Relation.ReflTransGen.refl

theorem lookups_atCursor (m : Module) (activation : String) (s : State) :
    Lookups lib s (atCursor lib m activation s).2 := by
  simp only [atCursor]
  split
  · exact lookups_bare m s
  · exact lookups_behind m _ s

theorem lookups_inImport (raw : String) (s : State) : Lookups lib s (inImport lib raw s).2 := by
  simp only [inImport]
  split
  · exact Relation.ReflTransGen.refl
  · split
    · rename_i answer
      exact lookups_of_resolve answer
    · rename_i answer
      exact lookups_of_resolve answer

end Completion

end ImportAtlas
