import ImportAtlas.Text.Lowercase
import ImportAtlas.Text.Octets
import Mathlib.Data.String.Basic

/-!
Lower case of texts in parts. Only a capital sigma looks at its neighbours, so a beginning of a text
has the lower case that it has alone, unless it ends in a sigma that has another form there. A text
in ASCII has the lower case of its characters, and its order is that of its octets.
-/

set_option autoImplicit false

namespace ImportAtlas.Text

/-- The lower case of a character between `before`, which is given backwards, and `after`. -/
def lowerAt (before : List Char) (c : Char) (after : List Char) : List Char :=
  if c == 'Σ' then [if meetsCased before && !meetsCased after then 'ς' else 'σ']
  else if c == 'İ' then ['i', '\u0307']
  else [lowerChar c]

def lowerBetween (before : List Char) : (part after : List Char) → List Char
  | [], _ => []
  | c :: r, after => lowerAt before c (r ++ after) ++ lowerBetween (c :: before) r after

private theorem lowerFrom_cons (before : List Char) (c : Char) (r : List Char) :
    lowerFrom before (c :: r) = lowerAt before c r ++ lowerFrom (c :: before) r := rfl

private theorem lowerBetween_nil (before cs : List Char) : lowerBetween before cs [] =
    lowerFrom before cs := by
  induction cs generalizing before with
  | nil => rfl
  | cons c r ih => rw [lowerBetween, lowerFrom_cons, List.append_nil, ih]

theorem lowerFrom_append (before as bs : List Char) :
    lowerFrom before (as ++ bs) = lowerBetween before as bs ++ lowerFrom (as.reverse ++ before) bs := by
  induction as generalizing before with
  | nil => rfl
  | cons c r ih =>
    rw [List.cons_append, lowerFrom_cons, lowerBetween, ih, List.append_assoc, List.reverse_cons,
      List.append_assoc, List.singleton_append]

private theorem lowerBetween_append (before as bs after : List Char) :
    lowerBetween before (as ++ bs) after =
      lowerBetween before as (bs ++ after) ++ lowerBetween (as.reverse ++ before) bs after := by
  induction as generalizing before with
  | nil => rfl
  | cons c r ih =>
    rw [List.cons_append, lowerBetween, lowerBetween, ih, List.append_assoc, List.append_assoc,
      List.reverse_cons, List.append_assoc, List.singleton_append]

theorem length_lowerBetween (before part after : List Char) :
    (lowerBetween before part after).length = part.length + part.count 'İ' := by
  induction part generalizing before with
  | nil => rfl
  | cons c r ih =>
    have one : (lowerAt before c (r ++ after)).length = 1 + if c == 'İ' then 1 else 0 := by
      unfold lowerAt
      by_cases sigma : c = 'Σ'
      · subst sigma
        rfl
      · by_cases dotted : c = 'İ' <;> simp [sigma, dotted]
    rw [lowerBetween, List.length_append, one, ih, List.length_cons, List.count_cons]
    omega

theorem length_lowerFrom (before cs : List Char) :
    (lowerFrom before cs).length = cs.length + cs.count 'İ' := by
  rw [← lowerBetween_nil, length_lowerBetween]

/-- Of two ends of one text, no more than one has lower case of a given length. -/
theorem eq_of_length_lowerFrom {before before' q q' r r' : List Char} (same : q ++ r = q' ++ r')
    (h : (lowerFrom before r).length = (lowerFrom before' r').length) : r = r' := by
  rw [length_lowerFrom, length_lowerFrom] at h
  rcases List.append_eq_append_iff.mp same with ⟨between, -, rfl⟩ | ⟨between, -, rfl⟩
  · rw [List.length_append, List.count_append] at h
    have none : between = [] := List.eq_nil_of_length_eq_zero (by omega)
    rw [none, List.nil_append]
  · rw [List.length_append, List.count_append] at h
    have none : between = [] := List.eq_nil_of_length_eq_zero (by omega)
    rw [none, List.nil_append]

/-! ### The neighbours of a sigma -/

private theorem meetsCased_append_of_passed {cs : List Char} (passed : ∀ c ∈ cs, isPassed c)
    (after : List Char) : meetsCased (cs ++ after) = meetsCased after := by
  induction cs with
  | nil => rfl
  | cons c r ih =>
    rw [List.cons_append, meetsCased, if_pos (passed c List.mem_cons_self),
      ih fun d member => passed d (List.mem_cons_of_mem _ member)]

private theorem meetsCased_append_of_not_passed {cs : List Char}
    (met : ∃ c ∈ cs, isPassed c = false) (after : List Char) : meetsCased
    (cs ++ after) = meetsCased cs := by
  induction cs with
  | nil => simp at met
  | cons c r ih =>
    rw [List.cons_append, meetsCased, meetsCased]
    cases passed : isPassed c with
    | false => rfl
    | true =>
      obtain ⟨d, member, stops⟩ := met
      rcases List.mem_cons.mp member with rfl | later
      · rw [passed] at stops
        exact absurd stops (by simp)
      · simpa using ih ⟨d, later, stops⟩

/-- Whether a text ends in a sigma that closes a word, apart from characters that are passed over. -/
def EndsInSigma (before cs : List Char) : Prop :=
  ∃ word passed, cs = word ++ 'Σ' :: passed ∧ meetsCased (word.reverse ++ before) ∧
    ∀ c ∈ passed, isPassed c

/-- A part of a text has the lower case that it has at the end of the text, if it does not end in a
sigma or no letter follows. -/
theorem lowerBetween_of_not_endsInSigma {before part after : List Char}
    (h : ¬(EndsInSigma before part ∧ meetsCased after)) :
    lowerBetween before part after = lowerFrom before part := by
  induction part generalizing before with
  | nil => rfl
  | cons c r ih =>
    have later : ¬(EndsInSigma (c :: before) r ∧ meetsCased after) := by
      rintro ⟨⟨word, passed, rfl, cased, all⟩, follows⟩
      refine h ⟨⟨c :: word, passed, rfl, ?_, all⟩, follows⟩
      simpa using cased
    rw [lowerBetween, lowerFrom_cons, ih later]
    congr 1
    unfold lowerAt
    split
    · rename_i sigma
      have same : (meetsCased before && !meetsCased (r ++ after)) =
          (meetsCased before && !meetsCased r) := by
        by_cases all : ∀ d ∈ r, isPassed d
        · have alone := meetsCased_append_of_passed all []
          rw [List.append_nil] at alone
          rw [meetsCased_append_of_passed all, alone]
          cases cased : meetsCased before with
          | false => rfl
          | true =>
            have ends : EndsInSigma before (c :: r) :=
              ⟨[], r, by rw [beq_iff_eq.mp sigma, List.nil_append], cased, all⟩
            have none : meetsCased after = false :=
              Bool.eq_false_iff.mpr fun follows => h ⟨ends, follows⟩
            rw [none]
            rfl
        · rw [meetsCased_append_of_not_passed (by simpa using all)]
      rw [same]
    · rfl

theorem lowerBetween_ne_of_endsInSigma {before part after : List Char}
    (ends : EndsInSigma before part) (follows : meetsCased after) :
    lowerBetween before part after ≠ lowerFrom before part := by
  obtain ⟨word, passed, rfl, cased, all⟩ := ends
  have alone := meetsCased_append_of_passed all []
  rw [List.append_nil] at alone
  intro same
  rw [← lowerBetween_nil, lowerBetween_append, lowerBetween_append] at same
  have lengths : (lowerBetween before word ('Σ' :: passed ++ after)).length =
      (lowerBetween before word ('Σ' :: passed ++ [])).length := by
    rw [length_lowerBetween, length_lowerBetween]
  have tails := (List.append_inj same lengths).2
  simp [lowerBetween, lowerAt, cased, meetsCased_append_of_passed all, alone, follows, meetsCased]
    at tails

/-! ### Dots -/

private theorem dot_lt_of_mem_lowerRuns :
    ∀ run ∈ lowerRuns.toList, ('.'.toNat : Int) < run.1 + run.2.2.2 := by
  decide +kernel

private theorem toLower_ne_dot : ∀ n < 0x80, n ≠ '.'.toNat → (Char.ofNat n).toLower ≠ '.' := by
  decide +kernel

private theorem toNat_eq_of_ofNat_eq {n : Nat} {c : Char} (filled : c.toNat ≠ 0)
    (h : Char.ofNat n = c) : n = c.toNat := by
  subst h
  by_cases valid : n.isValidChar
  · have value : Char.ofNat n = Char.ofNatAux n valid := dif_pos valid
    exact (congrArg Char.toNat value).symm
  · have value : Char.ofNat n = '\x00' := dif_neg valid
    exact absurd (congrArg Char.toNat value) filled

private theorem lowerChar_ne_dot {c : Char} (h : c ≠ '.') : lowerChar c ≠ '.' := by
  unfold lowerChar
  split
  · rename_i ascii
    have other : c.toNat ≠ '.'.toNat := fun same => h (Char.toNat_inj.mp same)
    have kept := toLower_ne_dot c.toNat ascii other
    rwa [Char.ofNat_toNat] at kept
  · split
    · rename_i first last step distance found
      have inside := dot_lt_of_mem_lowerRuns _
        (Array.mem_toList_iff.mpr (Array.mem_of_find?_eq_some found))
      have range := Array.find?_some found
      simp only [Bool.and_eq_true, decide_eq_true_eq] at inside range
      intro same
      have code : (c.toNat + distance).toNat = '.'.toNat :=
        toNat_eq_of_ofNat_eq (by decide) same
      have dot : '.'.toNat = 46 := rfl
      omega
    · exact h

theorem dot_not_mem_lowerBetween {part : List Char} (h : '.' ∉ part) (before after : List Char) :
    '.' ∉ lowerBetween before part after := by
  induction part generalizing before with
  | nil => exact List.not_mem_nil
  | cons c r ih =>
    obtain ⟨other, none⟩ := not_or.mp (mt List.mem_cons.mpr h)
    rw [lowerBetween, List.mem_append, not_or]
    refine ⟨?_, ih none _⟩
    unfold lowerAt
    split
    · split <;> decide
    · split
      · decide
      · rw [List.mem_singleton]
        exact (lowerChar_ne_dot (Ne.symm other)).symm

/-! ### ASCII -/

variable {before part after cs : List Char} {c : Char}

private theorem lowerAt_of_isAscii (h : c.isAscii) : lowerAt before c after = [c.toLower] := by
  have code : c.toNat < 0x80 := of_decide_eq_true h
  have sigma : c ≠ 'Σ' := by rintro rfl; exact absurd h (by decide)
  have dotted : c ≠ 'İ' := by rintro rfl; exact absurd h (by decide)
  simp [lowerAt, sigma, dotted, lowerChar, code]

theorem lowerBetween_of_isAscii (h : ∀ c ∈ part, c.isAscii) :
    lowerBetween before part after = part.map Char.toLower := by
  induction part generalizing before with
  | nil => rfl
  | cons c r ih =>
    rw [lowerBetween, lowerAt_of_isAscii (h c List.mem_cons_self),
      ih fun d member => h d (List.mem_cons_of_mem _ member)]
    rfl

theorem lowerFrom_of_isAscii (h : ∀ c ∈ cs, c.isAscii) : lowerFrom before cs =
    cs.map Char.toLower := by
  rw [← lowerBetween_nil, lowerBetween_of_isAscii h]

theorem lowerFrom_dot (before cs : List Char) :
    lowerFrom before ('.' :: cs) = '.' :: lowerFrom ('.' :: before) cs := by
  rw [lowerFrom_cons, lowerAt_of_isAscii (by decide)]
  rfl

private theorem utf8Size_of_isAscii (h : c.isAscii) : c.utf8Size = 1 := by
  have code : c.toNat < 0x80 := of_decide_eq_true h
  exact Char.utf8Size_eq_one_iff.mpr (UInt32.le_iff_toNat_le.mpr (Nat.le_of_lt_succ code))

theorem utf8Len_of_isAscii (h : ∀ c ∈ cs, c.isAscii) : String.utf8Len cs = cs.length := by
  induction cs with
  | nil => rfl
  | cons c r ih =>
    rw [String.utf8Len_cons, ih fun d member => h d (List.mem_cons_of_mem _ member),
      utf8Size_of_isAscii (h c List.mem_cons_self), List.length_cons]

theorem isAscii_toLower (h : c.isAscii) : c.toLower.isAscii := by
  have codes : ∀ n < 0x80, (Char.ofNat n).toLower.isAscii := by decide +kernel
  have lowered := codes c.toNat (of_decide_eq_true h)
  rwa [Char.ofNat_toNat] at lowered

private theorem utf8EncodeChar_of_isAscii (h : c.isAscii) : String.utf8EncodeChar c =
    [c.val.toUInt8] :=
  String.utf8EncodeChar_eq_singleton (utf8Size_of_isAscii h)

theorem octets_lt_octets {a b : String} (h : ∀ c ∈ a.toList, c.isAscii)
    (h' : ∀ c ∈ b.toList, c.isAscii) (less : a < b) : octets a < octets b := by
  rw [octets_eq_flatMap, octets_eq_flatMap]
  have chars := String.lt_iff_toList_lt.mp less
  generalize a.toList = cs at h chars
  generalize b.toList = ds at h' chars
  induction chars with
  | @nil d r =>
    rw [List.flatMap_cons, utf8EncodeChar_of_isAscii (h' d List.mem_cons_self)]
    exact List.nil_lt_cons _ _
  | @cons d r r' later ih =>
    rw [List.flatMap_cons, List.flatMap_cons, utf8EncodeChar_of_isAscii (h d List.mem_cons_self)]
    exact List.cons_lt_cons_iff.mpr (Or.inr ⟨rfl, ih (fun e member => h e (List.mem_cons_of_mem _ member))
      fun e member => h' e (List.mem_cons_of_mem _ member)⟩)
  | @rel d r e r' below =>
    have code : d.toNat < 0x80 := of_decide_eq_true (h d List.mem_cons_self)
    have code' : e.toNat < 0x80 := of_decide_eq_true (h' e List.mem_cons_self)
    rw [List.flatMap_cons, List.flatMap_cons, utf8EncodeChar_of_isAscii (h d List.mem_cons_self),
      utf8EncodeChar_of_isAscii (h' e List.mem_cons_self)]
    refine List.cons_lt_cons_iff.mpr (Or.inl ?_)
    rw [UInt8.lt_iff_toNat_lt, UInt32.toNat_toUInt8, UInt32.toNat_toUInt8]
    have lt : d.toNat < e.toNat := below
    have small : d.val.toNat = d.toNat := rfl
    have small' : e.val.toNat = e.toNat := rfl
    omega

end ImportAtlas.Text
