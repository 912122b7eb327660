/-!
Numbers and octets in hexadecimal digits.
-/

set_option autoImplicit false

namespace ImportAtlas.Text

def hexChar (d : Nat) : Char :=
  if d < 10 then Char.ofNat (0x30 + d) else Char.ofNat (0x57 + d)

def hexValue (c : Char) : Option Nat :=
  if c.isDigit then some (c.toNat - 0x30)
  else if 'a' ≤ c ∧ c ≤ 'f' then some (c.toNat - 0x57)
  else if 'A' ≤ c ∧ c ≤ 'F' then some (c.toNat - 0x37)
  else none

def isHexDigit (c : Char) : Bool :=
  c.isDigit || ('a' ≤ c && c ≤ 'f') || ('A' ≤ c && c ≤ 'F')

def hexChars (bytes : List UInt8) : List Char :=
  bytes.flatMap fun b => [hexChar (b.toNat / 16), hexChar (b.toNat % 16)]

def ofHex? : List Char → Option (List UInt8)
  | [] => some []
  | [_] => none
  | a :: b :: rest => do
    let high ← hexValue a
    let low ← hexValue b
    some ((high * 16 + low).toUInt8 :: (← ofHex? rest))

theorem hexValue_hexChar {d : Nat} (h : d < 16) : hexValue (hexChar d) = some d := by
  have : ∀ d < 16, hexValue (hexChar d) = some d := by decide
  exact this d h

theorem isSome_hexValue (c : Char) : (hexValue c).isSome = isHexDigit c := by
  unfold hexValue isHexDigit
  split
  · simp_all
  · split
    · simp_all
    · split <;> simp_all

end ImportAtlas.Text
