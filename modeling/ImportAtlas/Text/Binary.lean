import ImportAtlas.Text.Octets

/-!
Numbers and texts as octets with nothing between them: numbers with the lowest octet first, texts
behind their size.
-/

set_option autoImplicit false

namespace ImportAtlas.Text

def lowOctets : (count n : Nat) → List UInt8
  | 0, _ => []
  | count + 1, n => n.toUInt8 :: lowOctets count (n / 256)

def ofLowOctets (bytes : List UInt8) : Nat :=
  bytes.foldr (fun b n => n * 256 + b.toNat) 0

/-- The first `count` octets and those behind them, if there are so many. -/
def takeOctets : (count : Nat) → List UInt8 → Option (List UInt8 × List UInt8)
  | 0, r => some ([], r)
  | _ + 1, [] => none
  | count + 1, b :: r => (takeOctets count r).map fun (bytes, r) => (b :: bytes, r)

def putSize (n : Nat) : List UInt8 :=
  lowOctets 8 n

def takeSize (bytes : List UInt8) : Option (Nat × List UInt8) :=
  (takeOctets 8 bytes).map fun (size, r) => (ofLowOctets size, r)

def putText (s : String) : List UInt8 :=
  putSize (octets s).length ++ octets s

def takeText (bytes : List UInt8) : Option (String × List UInt8) := do
  let (size, r) ← takeSize bytes
  let (content, r) ← takeOctets size r
  some (← ofOctets? content, r)

theorem length_lowOctets (count n : Nat) : (lowOctets count n).length = count := by
  induction count generalizing n with
  | zero => rfl
  | succ count ih => simp [lowOctets, ih]

theorem ofLowOctets_lowOctets {count n : Nat} (h : n < 1 <<< (8 * count)) :
    ofLowOctets (lowOctets count n) = n := by
  induction count generalizing n with
  | zero =>
    have : n = 0 := by simpa using h
    subst this
    rfl
  | succ count ih =>
    have wider : 1 <<< (8 * (count + 1)) = 1 <<< (8 * count) * 256 := by
      rw [Nat.one_shiftLeft, Nat.one_shiftLeft, Nat.mul_succ, Nat.pow_add]
    have small : n / 256 < 1 <<< (8 * count) :=
      (Nat.div_lt_iff_lt_mul (by decide)).mpr (wider ▸ h)
    change ofLowOctets (lowOctets count (n / 256)) * 256 + n.toUInt8.toNat = n
    rw [ih small]
    have : n.toUInt8.toNat = n % 256 := rfl
    omega

theorem takeOctets_append (bytes r : List UInt8) :
    takeOctets bytes.length (bytes ++ r) = some (bytes, r) := by
  induction bytes with
  | nil => rfl
  | cons b bytes ih => simp [takeOctets, ih]

theorem eq_append_of_takeOctets {count : Nat} {all bytes r : List UInt8}
    (h : takeOctets count all = some (bytes, r)) : all = bytes ++ r ∧ bytes.length = count := by
  induction count generalizing all bytes r with
  | zero =>
    cases h
    exact ⟨rfl, rfl⟩
  | succ count ih =>
    cases all with
    | nil => cases h
    | cons b all =>
      obtain ⟨⟨first, r'⟩, htake, heq⟩ := Option.map_eq_some_iff.mp h
      cases heq
      obtain ⟨rfl, rfl⟩ := ih htake
      exact ⟨rfl, rfl⟩

end ImportAtlas.Text
