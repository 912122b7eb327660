import ImportAtlas.Proofs.KeyEncoding

/-!
Reading octets with replacement characters. Where the octets are those of a text, it is that text
which is read: the number of each character comes back from the bits in its octets, and each octet
is within the bounds that the one before it allows.
-/

set_option autoImplicit false

namespace ImportAtlas.Text

private theorem toNat_ofNat_of_lt {n : Nat} (h : n < 256) : (UInt8.ofNat n).toNat = n := by
  rw [UInt8.toNat_ofNat']
  exact Nat.mod_eq_of_lt h

private theorem followOctets_continue {bounds : Nat × Nat} {n : Nat}
    (low : bounds.1 ≤ n % 64 + 0x80) (high : n % 64 + 0x80 ≤ bounds.2) (more : List (Nat × Nat))
    (payload : Nat) (r : List UInt8) :
    followOctets (bounds :: more) payload (UInt8.ofNat (n % 64 + 0x80) :: r) =
      followOctets more (payload * 64 + n % 64) r := by
  have octet := toNat_ofNat_of_lt (n := n % 64 + 0x80) (by omega)
  have kept : (n % 64 + 0x80) % 64 = n % 64 := by omega
  simp only [followOctets, octet, low, high, kept, decide_true, Bool.and_self, if_true]

private theorem leadOctet_of_two : ∀ n < 32, leadOctet (n + 0xc0) =
    if n < 2 then none else some (n, [(0x80, 0xbf)]) := by
  decide

private theorem leadOctet_of_three : ∀ n < 16, leadOctet (n + 0xe0) =
    some (n, [if n = 0 then (0xa0, 0xbf) else if n = 13 then (0x80, 0x9f) else (0x80, 0xbf),
      (0x80, 0xbf)]) := by
  decide

private theorem leadOctet_of_four : ∀ n < 5, leadOctet (n + 0xf0) =
    some (n, [if n = 0 then (0x90, 0xbf) else if n = 4 then (0x80, 0x8f) else (0x80, 0xbf),
      (0x80, 0xbf), (0x80, 0xbf)]) := by
  decide

/-- The second octet of a long enough number that is no half of a pair is within the bounds that the
first one sets. -/
theorem exists_leadOctet_of_three {v : Nat} (long : 0x800 ≤ v) (short : v < 0x10000)
    (whole : v < 0xd800 ∨ 0xe000 ≤ v) :
    ∃ first : Nat × Nat, leadOctet (v / 4096 % 16 + 0xe0) =
        some (v / 4096 % 16, [first, (0x80, 0xbf)]) ∧
      first.1 ≤ v / 64 % 64 + 0x80 ∧ v / 64 % 64 + 0x80 ≤ first.2 := by
  refine ⟨_, leadOctet_of_three _ (by omega), ?_⟩
  split
  · omega
  · split <;> omega

private theorem exists_leadOctet_of_four {v : Nat} (long : 0x10000 ≤ v) (possible : v < 0x110000) :
    ∃ first : Nat × Nat, leadOctet (v / 262144 % 8 + 0xf0) =
        some (v / 262144 % 8, [first, (0x80, 0xbf), (0x80, 0xbf)]) ∧
      first.1 ≤ v / 4096 % 64 + 0x80 ∧ v / 4096 % 64 + 0x80 ≤ first.2 := by
  refine ⟨_, leadOctet_of_four _ (by omega), ?_⟩
  split
  · omega
  · split <;> omega

private theorem lossyChars_cons {b : UInt8} {r rest : List UInt8} {payload n : Nat}
    {bounds : List (Nat × Nat)} (lead : leadOctet b.toNat = some (payload, bounds))
    (follow : followOctets bounds payload r = (some n, rest)) :
    lossyChars (b :: r) = Char.ofNat n :: lossyChars rest := by
  rw [lossyChars]
  simp only [lead]
  split
  · rename_i same
    obtain ⟨found, rfl⟩ := Prod.mk.inj (same.symm.trans follow)
    rw [Option.some.inj found]
  · rename_i broken
    exact absurd (Prod.mk.inj (broken.symm.trans follow)).1 (by simp)

/-- A character that is well formed is read as itself. -/
theorem lossyChars_utf8EncodeChar (c : Char) (r : List UInt8) :
    lossyChars (String.utf8EncodeChar c ++ r) = c :: lossyChars r := by
  have own : Char.ofNat c.val.toNat = c := Char.ofNat_toNat c
  have possible : c.val.toNat < 0xd800 ∨ 0xdfff < c.val.toNat ∧ c.val.toNat < 0x110000 := c.valid
  -- One case for each number of octets; what is left in each is arithmetic on the number.
  unfold String.utf8EncodeChar
  simp only
  generalize c.val.toNat = v at own possible ⊢
  split
  · have lead : leadOctet (UInt8.ofNat v).toNat = some (v, []) := by
      rw [toNat_ofNat_of_lt (by omega), leadOctet, if_pos (by omega)]
    rw [List.singleton_append, lossyChars_cons lead rfl, own]
  split
  · have lead : leadOctet (UInt8.ofNat (v / 64 % 32 + 0xc0)).toNat =
        some (v / 64 % 32, [(0x80, 0xbf)]) := by
      rw [toNat_ofNat_of_lt (by omega), leadOctet_of_two _ (by omega), if_neg (by omega)]
    have bits : v / 64 % 32 * 64 + v % 64 = v := by omega
    simp only [List.cons_append, List.nil_append]
    rw [lossyChars_cons lead, own]
    rw [followOctets_continue (by omega) (by omega), bits]
    rfl
  split
  · obtain ⟨first, lead, low, high⟩ :=
      exists_leadOctet_of_three (v := v) (by omega) (by omega) (by omega)
    rw [← toNat_ofNat_of_lt (n := v / 4096 % 16 + 0xe0) (by omega)] at lead
    have bits : (v / 4096 % 16 * 64 + v / 64 % 64) * 64 + v % 64 = v := by omega
    simp only [List.cons_append, List.nil_append]
    rw [lossyChars_cons lead, own]
    rw [followOctets_continue low high, followOctets_continue (by omega) (by omega), bits]
    rfl
  · obtain ⟨first, lead, low, high⟩ := exists_leadOctet_of_four (v := v) (by omega) (by omega)
    rw [← toNat_ofNat_of_lt (n := v / 262144 % 8 + 0xf0) (by omega)] at lead
    have bits : ((v / 262144 % 8 * 64 + v / 4096 % 64) * 64 + v / 64 % 64) * 64 + v % 64 = v := by
      omega
    simp only [List.cons_append, List.nil_append]
    rw [lossyChars_cons lead, own]
    rw [followOctets_continue low high, followOctets_continue (by omega) (by omega),
      followOctets_continue (by omega) (by omega), bits]
    rfl

theorem lossy_of_ofOctets? {bytes : List UInt8} {text : String} (h : ofOctets? bytes = some text) :
    lossy bytes = text := by
  have every : ∀ cs : List Char, lossyChars (cs.flatMap String.utf8EncodeChar) = cs := by
    intro cs
    induction cs with
    | nil => rw [List.flatMap_nil, lossyChars]
    | cons c cs ih => rw [List.flatMap_cons, lossyChars_utf8EncodeChar, ih]
  rw [← octets_of_ofOctets? h, octets_eq_flatMap, lossy, every, String.ofList_toList]

end ImportAtlas.Text
