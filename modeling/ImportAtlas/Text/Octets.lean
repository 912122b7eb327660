/-!
Texts as octets in UTF-8. A text that is not well formed can still be read, with a replacement
character for each broken part.
-/

set_option autoImplicit false

namespace ImportAtlas.Text

def octets (s : String) : List UInt8 :=
  s.toUTF8.data.toList

theorem octets_eq_flatMap (s : String) : octets s = s.toList.flatMap String.utf8EncodeChar := by
  have encoded : s.toByteArray = s.toList.utf8Encode := by
    rw [← String.toByteArray_ofList, String.ofList_toList]
  rw [octets, String.toUTF8, encoded]
  exact List.toList_data_toByteArray

def ofOctets? (bytes : List UInt8) : Option String :=
  String.fromUTF8? ⟨bytes.toArray⟩

/-- The payload of a first octet and the bounds of the octets that must follow it. -/
def leadOctet (b : Nat) : Option (Nat × List (Nat × Nat)) :=
  let tail : Nat × Nat := (0x80, 0xbf)
  if b < 0x80 then some (b, [])
  else if 0xc2 ≤ b && b ≤ 0xdf then some (b % 32, [tail])
  else if b == 0xe0 then some (0, [(0xa0, 0xbf), tail])
  else if b == 0xed then some (13, [(0x80, 0x9f), tail])
  else if 0xe1 ≤ b && b ≤ 0xef then some (b % 16, [tail, tail])
  else if b == 0xf0 then some (0, [(0x90, 0xbf), tail, tail])
  else if 0xf1 ≤ b && b ≤ 0xf3 then some (b % 8, [tail, tail, tail])
  else if b == 0xf4 then some (4, [(0x80, 0x8f), tail, tail])
  else none

/-- Reads octets within the given bounds onto a payload. Stops before the first one out of
bounds. -/
def followOctets : List (Nat × Nat) → Nat → List UInt8 → Option Nat × List UInt8
  | [], payload, r => (some payload, r)
  | (low, high) :: more, payload, b :: r =>
    if low ≤ b.toNat && b.toNat ≤ high then followOctets more (payload * 64 + b.toNat % 64) r
    else (none, b :: r)
  | _ :: _, _, [] => (none, [])

theorem followOctets_length_le (bounds : List (Nat × Nat)) (payload : Nat) (bytes : List UInt8) :
    (followOctets bounds payload bytes).2.length ≤ bytes.length := by
  fun_induction followOctets bounds payload bytes <;> simp_all
  omega

/-- The characters of some octets. Each longest beginning of a character that is not completed, and
each octet that begins none, becomes one replacement character. -/
def lossyChars : List UInt8 → List Char
  | [] => []
  | b :: r =>
    match leadOctet b.toNat with
    | none => '\ufffd' :: lossyChars r
    | some (payload, bounds) =>
      match _h : followOctets bounds payload r with
      | (some n, rest) => Char.ofNat n :: lossyChars rest
      | (none, rest) => '\ufffd' :: lossyChars rest
termination_by bytes => bytes.length
decreasing_by
  · exact Nat.lt_succ_self _
  all_goals
    have := followOctets_length_le bounds payload r
    rw [_h] at this
    exact Nat.lt_succ_of_le this

def lossy (bytes : List UInt8) : String :=
  String.ofList (lossyChars bytes)

end ImportAtlas.Text
