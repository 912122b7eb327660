import ImportAtlas.Cache.Compression
import ImportAtlas.Text.Binary

/-!
The compression that the program runs with here: Zstandard frames whose blocks hold their content as
it is. Other blocks are not read.
-/

set_option autoImplicit false

namespace ImportAtlas.Frame

open Text (lowOctets ofLowOctets takeOctets)

/-- What each frame begins with: its mark, and a header that asks for room for one block. -/
def header : List UInt8 := [0x28, 0xb5, 0x2f, 0xfd, 0x00, 0x38]

def blockSize : Nat := 131072

def block (last : Bool) (content : List UInt8) : List UInt8 :=
  lowOctets 3 (content.length * 8 + last.toNat) ++ content

def blocks (content : List UInt8) : List UInt8 :=
  if _h : blockSize < content.length then
    block false (content.take blockSize) ++ blocks (content.drop blockSize)
  else block true content
termination_by content.length
decreasing_by
  rw [List.length_drop]
  simp only [blockSize] at *
  omega

def pack (content : List UInt8) : List UInt8 :=
  header ++ blocks content

/-- The content of the blocks through the last one, behind which nothing stands. -/
def unpackBlocks : (fuel : Nat) → List UInt8 → Option (List UInt8)
  | 0, _ => none
  | fuel + 1, bytes => do
    let (size, r) ← takeOctets 3 bytes
    let n := ofLowOctets size
    let (content, r) ← takeOctets (n / 8) r
    if n / 2 % 4 ≠ 0 || blockSize < n / 8 then none
    else if n % 2 = 0 then (unpackBlocks fuel r).map (content ++ ·)
    else if r.isEmpty then some content
    else none

def unpack (bytes : List UInt8) : Option (List UInt8) := do
  let (start, r) ← takeOctets header.length bytes
  if start = header then unpackBlocks (r.length + 1) r else none

theorem length_block (last : Bool) (content : List UInt8) :
    (block last content).length = content.length + 3 := by
  simp [block, Text.length_lowOctets, Nat.add_comm]

theorem unpackBlocks_block {last : Bool} {content : List UInt8} (small : content.length ≤ blockSize)
    (fuel : Nat) (r : List UInt8) :
    unpackBlocks (fuel + 1) (block last content ++ r) =
      if last then (if r.isEmpty then some content else none)
      else (unpackBlocks fuel r).map (content ++ ·) := by
  have bound : content.length ≤ 131072 := small
  have taken := Text.takeOctets_append (lowOctets 3 (content.length * 8 + last.toNat)) (content ++ r)
  rw [Text.length_lowOctets] at taken
  have bit : last.toNat ≤ 1 := Bool.toNat_le last
  have value : ofLowOctets (lowOctets 3 (content.length * 8 + last.toNat)) =
      content.length * 8 + last.toNat :=
    Text.ofLowOctets_lowOctets (by omega)
  have size : (content.length * 8 + last.toNat) / 8 = content.length := by omega
  have kind : (content.length * 8 + last.toNat) / 2 % 4 = 0 := by omega
  have mark : (content.length * 8 + last.toNat) % 2 = last.toNat := by omega
  have fits : ¬blockSize < content.length := Nat.not_lt.mpr small
  simp only [unpackBlocks, block, List.append_assoc, taken, Option.bind_eq_bind, Option.bind_some,
    value, size, Text.takeOctets_append, kind, mark, fits]
  cases last <;> simp

theorem unpackBlocks_blocks (content : List UInt8) (fuel : Nat) (h : content.length < fuel) :
    unpackBlocks fuel (blocks content) = some content := by
  induction fuel generalizing content with
  | zero => exact absurd h (Nat.not_lt_zero _)
  | succ fuel ih =>
    unfold blocks
    split
    · rename_i long
      have first : (content.take blockSize).length ≤ blockSize := List.length_take_le _ _
      rw [unpackBlocks_block first fuel, ih]
      · simp
      · rw [List.length_drop]
        have some_octets : 0 < blockSize := by decide
        omega
    · rename_i short
      have whole := @unpackBlocks_block true content (Nat.not_lt.mp short) fuel []
      simpa using whole

theorem length_lt_blocks (content : List UInt8) : content.length < (blocks content).length := by
  fun_induction blocks content with
  | case1 content long ih =>
    rw [List.length_append, length_block, List.length_take]
    rw [List.length_drop] at ih
    omega
  | case2 content short =>
    rw [length_block]
    omega

theorem unpack_pack (content : List UInt8) : unpack (pack content) = some content := by
  have started := Text.takeOctets_append header (blocks content)
  have enough := Nat.lt_succ_of_lt (length_lt_blocks content)
  simp [unpack, pack, started, unpackBlocks_blocks content _ enough]

instance : Compression :=
  ⟨pack, unpack, unpack_pack⟩

end ImportAtlas.Frame
