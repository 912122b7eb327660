import ImportAtlas.Cache.Store
import ImportAtlas.Proofs.StoredKeys
import Mathlib.Algebra.Group.Nat.Defs

/-!
What a list of keys is as octets. Each reader takes exactly what its writer puts down, so octets are
read as a list of keys if and only if its encoding stands at their front. Hence no two lists share an
encoding, and no encoding is a proper beginning of another.
-/

set_option autoImplicit false

namespace ImportAtlas

namespace Text

private theorem ofLowOctets_lt (bytes : List UInt8) : ofLowOctets bytes < 256 ^ bytes.length := by
  induction bytes with
  | nil => exact Nat.one_pos
  | cons b bytes ih =>
    have digit := b.toNat_lt
    change ofLowOctets bytes * 256 + b.toNat < 256 ^ (bytes.length + 1)
    rw [Nat.pow_succ]
    omega

private theorem lowOctets_ofLowOctets (bytes : List UInt8) :
    lowOctets bytes.length (ofLowOctets bytes) = bytes := by
  induction bytes with
  | nil => rfl
  | cons b bytes ih =>
    have digit := b.toNat_lt
    have spelled : ofLowOctets (b :: bytes) = ofLowOctets bytes * 256 + b.toNat := rfl
    have low : (ofLowOctets (b :: bytes)).toUInt8 = b := by
      apply UInt8.toNat_inj.mp
      change ofLowOctets (b :: bytes) % 256 = b.toNat
      omega
    have high : ofLowOctets (b :: bytes) / 256 = ofLowOctets bytes := by omega
    rw [List.length_cons, lowOctets, low, high, ih]

private theorem takeOctets_eq_some_iff {count : Nat} {all bytes r : List UInt8} :
    takeOctets count all = some (bytes, r) ↔ bytes.length = count ∧ all = bytes ++ r := by
  constructor
  · intro h
    obtain ⟨whole, size⟩ := eq_append_of_takeOctets h
    exact ⟨size, whole⟩
  · rintro ⟨rfl, rfl⟩
    exact takeOctets_append bytes r

private theorem takeSize_eq_some_iff {n : Nat} {bytes r : List UInt8} :
    takeSize bytes = some (n, r) ↔ n < UInt64.size ∧ bytes = putSize n ++ r := by
  constructor
  · intro h
    obtain ⟨⟨size, left⟩, taken, same⟩ := Option.map_eq_some_iff.mp h
    obtain ⟨rfl, rfl⟩ := Prod.mk.inj same
    obtain ⟨eight, whole⟩ := takeOctets_eq_some_iff.mp taken
    have small := ofLowOctets_lt size
    have again := lowOctets_ofLowOctets size
    rw [eight] at small again
    exact ⟨small, by rw [putSize, again, whole]⟩
  · rintro ⟨small, rfl⟩
    exact takeSize_putSize small r

theorem octets_of_ofOctets? {bytes : List UInt8} {s : String} (h : ofOctets? bytes = some s) :
    octets s = bytes := by
  unfold ofOctets? String.fromUTF8? at h
  split at h
  · cases h
    rfl
  · exact nomatch h

private theorem takeText_eq_some_iff {s : String} {bytes r : List UInt8} :
    takeText bytes = some (s, r) ↔
      (octets s).length < UInt64.size ∧ bytes = putText s ++ r := by
  constructor
  · intro h
    obtain ⟨⟨size, behind⟩, sized, h⟩ := Option.bind_eq_some_iff.mp h
    obtain ⟨⟨content, left⟩, taken, h⟩ := Option.bind_eq_some_iff.mp h
    obtain ⟨text, valid, same⟩ := Option.bind_eq_some_iff.mp h
    obtain ⟨rfl, rfl⟩ := Prod.mk.inj (Option.some.inj same)
    obtain ⟨small, rfl⟩ := takeSize_eq_some_iff.mp sized
    obtain ⟨rfl, rfl⟩ := takeOctets_eq_some_iff.mp taken
    have own := octets_of_ofOctets? valid
    exact ⟨own ▸ small, by rw [putText, own, List.append_assoc]⟩
  · rintro ⟨small, rfl⟩
    exact takeText_putText small r

end Text

namespace KeyCodec

open Text (octets)

/-- Whether the number of keys and the sizes of their texts have room in the octets for them. -/
structure Storable (keys : List ModuleKey) : Prop where
  few : keys.length < UInt64.size
  fits : ∀ key ∈ keys, Fits key

instance (keys : List ModuleKey) : Decidable (Storable keys) :=
  decidable_of_iff (keys.length < UInt64.size ∧ ∀ key ∈ keys, Fits key)
    ⟨fun ⟨few, fits⟩ => ⟨few, fits⟩, fun ⟨few, fits⟩ => ⟨few, fits⟩⟩

private theorem takeFile_eq_some_iff {file : Option Path} {bytes r : List UInt8} :
    takeFile bytes = some (file, r) ↔
      (∀ p, file = some p → (octets p.text).length < UInt64.size) ∧ bytes = putFile file ++ r := by
  constructor
  · intro h
    unfold takeFile at h
    split at h
    · obtain ⟨rfl, rfl⟩ := Prod.mk.inj (Option.some.inj h)
      exact ⟨nofun, rfl⟩
    · obtain ⟨⟨text, left⟩, taken, same⟩ := Option.map_eq_some_iff.mp h
      obtain ⟨rfl, rfl⟩ := Prod.mk.inj same
      obtain ⟨small, rfl⟩ := Text.takeText_eq_some_iff.mp taken
      exact ⟨fun p own => Option.some.inj own ▸ small, rfl⟩
    · exact nomatch h
  · rintro ⟨small, rfl⟩
    exact takeFile_putFile small r

private theorem takeKey_eq_some_iff {key : ModuleKey} {bytes r : List UInt8} :
    takeKey bytes = some (key, r) ↔ Fits key ∧ bytes = putKey key ++ r := by
  constructor
  · intro h
    obtain ⟨⟨name, behind⟩, named, h⟩ := Option.bind_eq_some_iff.mp h
    obtain ⟨⟨file, left⟩, filed, same⟩ := Option.bind_eq_some_iff.mp h
    obtain ⟨rfl, rfl⟩ := Prod.mk.inj (Option.some.inj same)
    obtain ⟨small, rfl⟩ := Text.takeText_eq_some_iff.mp named
    obtain ⟨room, rfl⟩ := takeFile_eq_some_iff.mp filed
    exact ⟨⟨small, room⟩, by rw [putKey, List.append_assoc]⟩
  · rintro ⟨fits, rfl⟩
    exact takeKey_putKey fits r

private theorem takeKeys_eq_some_iff {count : Nat} {keys : List ModuleKey} {bytes r : List UInt8} :
    takeKeys count bytes = some (keys, r) ↔
      keys.length = count ∧ (∀ key ∈ keys, Fits key) ∧ bytes = keys.flatMap putKey ++ r := by
  constructor
  · intro h
    induction count generalizing keys bytes with
    | zero =>
      obtain ⟨rfl, rfl⟩ := Prod.mk.inj (Option.some.inj h)
      exact ⟨rfl, List.forall_mem_nil _, rfl⟩
    | succ count ih =>
      obtain ⟨⟨key, behind⟩, first, h⟩ := Option.bind_eq_some_iff.mp h
      obtain ⟨⟨others, left⟩, rest, same⟩ := Option.bind_eq_some_iff.mp h
      obtain ⟨rfl, rfl⟩ := Prod.mk.inj (Option.some.inj same)
      obtain ⟨fits, rfl⟩ := takeKey_eq_some_iff.mp first
      obtain ⟨size, all, rfl⟩ := ih rest
      refine ⟨by rw [List.length_cons, size], List.forall_mem_cons.mpr ⟨fits, all⟩, ?_⟩
      rw [List.flatMap_cons, List.append_assoc]
  · rintro ⟨rfl, fits, rfl⟩
    exact takeKeys_flatMap fits r

/-- Octets are read as a list of keys if and only if the list can be stored and its encoding stands at
their front. -/
theorem decode_eq_some_iff {bytes : List UInt8} {keys : List ModuleKey} :
    decode bytes = some keys ↔ Storable keys ∧ encode keys <+: bytes := by
  constructor
  · intro h
    obtain ⟨⟨count, behind⟩, sized, h⟩ := Option.bind_eq_some_iff.mp h
    obtain ⟨⟨all, left⟩, taken, same⟩ := Option.bind_eq_some_iff.mp h
    obtain rfl := Option.some.inj same
    obtain ⟨small, rfl⟩ := Text.takeSize_eq_some_iff.mp sized
    obtain ⟨rfl, fits, rfl⟩ := takeKeys_eq_some_iff.mp taken
    exact ⟨⟨small, fits⟩, left, by rw [encode, List.append_assoc]⟩
  · rintro ⟨⟨few, fits⟩, left, rfl⟩
    have sized := Text.takeSize_putSize few (keys.flatMap putKey ++ left)
    have taken := takeKeys_flatMap fits left
    simp [decode, encode, List.append_assoc, sized, taken]

private theorem eq_of_encode_prefix {keys others : List ModuleKey} (h : Storable keys)
    (h' : Storable others) (front : encode keys <+: encode others) : keys = others := by
  have first := decode_eq_some_iff.mpr ⟨h, front⟩
  have second := decode_eq_some_iff.mpr ⟨h', List.prefix_rfl⟩
  exact Option.some.inj (first.symm.trans second)

private theorem decode_of_broken_off {keys : List ModuleKey} (h : Storable keys)
    {bytes : List UInt8} (front : bytes <+: encode keys)
    (short : bytes ≠ encode keys) : decode bytes = none := by
  cases read : decode bytes with
  | none => rfl
  | some others =>
    -- what was read would be encoded at the front of the whole, and so be the whole
    obtain ⟨storable, inside⟩ := decode_eq_some_iff.mp read
    obtain rfl := eq_of_encode_prefix storable h (inside.trans front)
    exact absurd (front.eq_of_length_le inside.length_le) short

private theorem loadModules_of_refused [Compression] {home : Path} {roots : List Path} {disk : Disk}
    {file bytes : List UInt8} (found : disk.read (Cache.modulesFile home roots) = .ok file)
    (unpacked : Compression.unpack file = some bytes) (refused : decode bytes = none) :
    Cache.loadModules home roots disk = .error .badKeys := by
  unfold Cache.loadModules
  simp only [found, unpacked, refused]

/-- An encoding is read back whatever follows it; whatever is read stands at the front in the one form
that it is written in; and what breaks off inside an encoding is refused, so that a file of keys whose
content breaks off is never taken for a shorter list, however the file is compressed. -/
theorem decode_inverts_encode :
    (∀ keys, Storable keys → ∀ behind, decode (encode keys ++ behind) = some keys) ∧
    (∀ bytes keys, decode bytes = some keys → Storable keys ∧ encode keys <+: bytes) ∧
    ∀ keys, Storable keys → ∀ bytes, bytes <+: encode keys → bytes ≠ encode keys →
      decode bytes = none ∧
      ∀ [Compression] home roots disk file, disk.read (Cache.modulesFile home roots) = .ok file →
        Compression.unpack file = some bytes →
          Cache.loadModules home roots disk = .error .badKeys := by
  refine ⟨fun keys h behind => ?_, fun bytes keys h => decode_eq_some_iff.mp h,
    fun keys h bytes front short => ?_⟩
  · exact decode_eq_some_iff.mpr ⟨h, List.prefix_append (encode keys) behind⟩
  · have refused := decode_of_broken_off h front short
    exact ⟨refused, fun _ _ _ _ found unpacked => loadModules_of_refused found unpacked refused⟩

theorem decode_inverts_encode_of_two :
    let keys : List ModuleKey := [⟨"é.b", some ⟨"/r/é/b.py"⟩⟩, ⟨"sys", none⟩]
    Storable keys ∧
      decode (encode keys ++ [7, 0]) = some keys ∧
      encode keys <+: encode keys ++ [7, 0] ∧
      decode (encode keys).dropLast = none := by
  intro keys
  obtain ⟨lossless, canonical, broken⟩ := decode_inverts_encode
  have storable : Storable keys := by decide +kernel
  have again := lossless keys storable [7, 0]
  refine ⟨storable, again, (canonical _ _ again).2, ?_⟩
  exact (broken keys storable _ (List.dropLast_prefix _) (by decide +kernel)).1

end KeyCodec

end ImportAtlas
