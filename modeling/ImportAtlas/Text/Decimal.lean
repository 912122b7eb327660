/-!
Natural numbers in decimal digits.
-/

set_option autoImplicit false

namespace ImportAtlas.Text

def digitChar (d : Nat) : Char :=
  Char.ofNat (0x30 + d)

def decimalChars (n : Nat) : List Char :=
  if n < 10 then [digitChar n] else decimalChars (n / 10) ++ [digitChar (n % 10)]

def decimal (n : Nat) : String :=
  String.ofList (decimalChars n)

def decimalValue (cs : List Char) : Nat :=
  cs.foldl (fun n c => n * 10 + (c.toNat - 0x30)) 0

/-- The number that a text of digits spells; none for any other text. -/
def decimal? (cs : List Char) : Option Nat :=
  if cs ≠ [] ∧ cs.all Char.isDigit then some (decimalValue cs) else none

theorem digitChar_isDigit {d : Nat} (h : d < 10) : (digitChar d).isDigit := by
  have : ∀ d < 10, (digitChar d).isDigit := by decide
  exact this d h

theorem digitChar_toNat {d : Nat} (h : d < 10) : (digitChar d).toNat - 0x30 = d := by
  have : ∀ d < 10, (digitChar d).toNat - 0x30 = d := by decide
  exact this d h

theorem decimalChars_ne_nil (n : Nat) : decimalChars n ≠ [] := by
  unfold decimalChars
  split <;> simp

theorem all_isDigit_decimalChars (n : Nat) : (decimalChars n).all Char.isDigit := by
  fun_induction decimalChars n with
  | case1 n h => simp [digitChar_isDigit h]
  | case2 n h ih =>
    simp only [List.all_append, ih, Bool.true_and, List.all_cons, List.all_nil, Bool.and_true]
    exact digitChar_isDigit (Nat.mod_lt _ (by omega))

theorem decimalValue_decimalChars (n : Nat) : decimalValue (decimalChars n) = n := by
  fun_induction decimalChars n with
  | case1 n h => simp [decimalValue, digitChar_toNat h]
  | case2 n h ih =>
    simp only [decimalValue, List.foldl_append, List.foldl_cons, List.foldl_nil]
    rw [show List.foldl (fun n c => n * 10 + (c.toNat - 0x30)) 0 (decimalChars (n / 10)) = n / 10
      from ih, digitChar_toNat (Nat.mod_lt _ (by omega))]
    omega

theorem decimal?_decimalChars (n : Nat) : decimal? (decimalChars n) = some n := by
  simp [decimal?, decimalChars_ne_nil, all_isDigit_decimalChars, decimalValue_decimalChars]

end ImportAtlas.Text
