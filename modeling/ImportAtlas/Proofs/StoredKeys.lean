import ImportAtlas.Cache.KeyCodec

/-!
Keys that are written as octets are read back, as are texts, as long as all sizes have room in the
octets for them.
-/

set_option autoImplicit false

namespace ImportAtlas

namespace Text

theorem ofOctets?_octets (s : String) : ofOctets? (octets s) = some s := by
  unfold ofOctets? octets
  rw [Array.toArray_toList]
  exact dif_pos s.isValidUTF8

theorem takeSize_putSize {n : Nat} (h : n < UInt64.size) (r : List UInt8) :
    takeSize (putSize n ++ r) = some (n, r) := by
  have taken := takeOctets_append (lowOctets 8 n) r
  rw [length_lowOctets] at taken
  have room : 1 <<< (8 * 8) = UInt64.size := rfl
  have value : ofLowOctets (lowOctets 8 n) = n := ofLowOctets_lowOctets (room ▸ h)
  simp [takeSize, putSize, taken, value]

theorem takeText_putText {s : String} (h : (octets s).length < UInt64.size) (r : List UInt8) :
    takeText (putText s ++ r) = some (s, r) := by
  simp [takeText, putText, List.append_assoc, takeSize_putSize h, takeOctets_append,
    ofOctets?_octets]

end Text

namespace KeyCodec

open Text (octets)

structure Fits (key : ModuleKey) : Prop where
  name : (octets key.name).length < UInt64.size
  file : ∀ file, key.file = some file → (octets file.text).length < UInt64.size

instance (key : ModuleKey) : Decidable (Fits key) :=
  decidable_of_iff ((octets key.name).length < UInt64.size ∧
      ∀ file ∈ key.file, (octets file.text).length < UInt64.size)
    ⟨fun ⟨name, file⟩ => ⟨name, file⟩, fun ⟨name, file⟩ => ⟨name, file⟩⟩

theorem takeFile_putFile {file : Option Path}
    (h : ∀ p, file = some p → (octets p.text).length < UInt64.size) (r : List UInt8) :
    takeFile (putFile file ++ r) = some (file, r) := by
  cases file with
  | none => rfl
  | some p => simp [putFile, takeFile, Text.takeText_putText (h p rfl)]

theorem takeKey_putKey {key : ModuleKey} (h : Fits key) (r : List UInt8) :
    takeKey (putKey key ++ r) = some (key, r) := by
  simp [takeKey, putKey, List.append_assoc, Text.takeText_putText h.name, takeFile_putFile h.file]

theorem takeKeys_flatMap {keys : List ModuleKey} (h : ∀ key ∈ keys, Fits key) (r : List UInt8) :
    takeKeys keys.length (keys.flatMap putKey ++ r) = some (keys, r) := by
  induction keys with
  | nil => rfl
  | cons key keys ih =>
    have first := takeKey_putKey (h key List.mem_cons_self) (keys.flatMap putKey ++ r)
    have later := ih fun other member => h other (List.mem_cons_of_mem key member)
    simp [takeKeys, List.append_assoc, first, later]

theorem decode_encode {keys : List ModuleKey} (few : keys.length < UInt64.size)
    (h : ∀ key ∈ keys, Fits key) : decode (encode keys) = some keys := by
  have all := takeKeys_flatMap h []
  rw [List.append_nil] at all
  simp [decode, encode, Text.takeSize_putSize few, all]

end KeyCodec

end ImportAtlas
