/-!
Progress of long operations, and their cancellation. An operation asks at fixed points whether it
has been cancelled; a cancellation is known by the first of these questions that it answers with
yes.
-/

set_option autoImplicit false

namespace ImportAtlas

inductive Event
  | begin (task : String) (total : Option Nat)
  | detail (text : String)
  | worked (units : Nat)
  | done (task : String) (cancelled : Bool)
  deriving DecidableEq, Repr

/-- When an operation is cancelled: before its question of the given number, or never. -/
structure Cancellation where
  at? : Option Nat
  deriving DecidableEq, Repr

namespace Cancellation

def never : Cancellation := ⟨none⟩

def beforehand : Cancellation := ⟨some 0⟩

/-- Whether the question number `k` finds the operation cancelled. -/
def sees (c : Cancellation) (k : Nat) : Bool :=
  c.at?.any (· ≤ k)

/-- The units that are worked on when there is a question before each. -/
def keep {α : Type} (c : Cancellation) (units : List α) : List α :=
  match c.at? with
  | some k => units.take k
  | none => units

def interrupts (c : Cancellation) (n : Nat) : Bool :=
  c.at?.any (· < n)

end Cancellation

end ImportAtlas
