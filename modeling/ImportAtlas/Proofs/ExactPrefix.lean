import ImportAtlas.Proofs.ImportPrefix

/-!
A dotted name that is typed as it is indexed is followed by its children, in any letters. The one
exception is a name that ends in a capital sigma: at the end of what is typed the sigma has another
lower case than before the next segment.
-/

set_option autoImplicit false

namespace ImportAtlas

namespace Completion

open Text

variable {front segment rest : String}

/-- Whether the lower case of a text is that of its two parts, and that of the first part as long as
the part. -/
def Aligned (front tail : String) : Prop :=
  (lower front).utf8ByteSize = front.utf8ByteSize ∧ lower (front ++ tail) = lower front ++ lower tail

instance (front tail : String) : Decidable (Aligned front tail) :=
  inferInstanceAs (Decidable (_ ∧ _))

/-- The lower case that a segment has in a name, behind `front` and a dot and before `rest`. -/
def foldedSegment (front segment rest : String) : String :=
  String.ofList (lowerBetween ('.' :: front.toList.reverse) segment.toList rest.toList)

/-- Whether a name has a sigma for the end of a word before the dot of its next segment, and a letter
behind the dot. -/
def SplitsSigma (front after : String) : Prop :=
  EndsInSigma [] front.toList ∧ meetsCased after.toList

private theorem heads_foldedSegment (ends : rest = "" ∨ ∃ more, rest = "." ++ more) :
    Heads (foldedSegment front segment rest)
      (lowerFrom ('.' :: front.toList.reverse) (segment ++ rest).toList) := by
  rw [Heads, foldedSegment, String.toList_ofList, String.toList_append, lowerFrom_append]
  rcases ends with rfl | ⟨more, rfl⟩
  · exact Or.inl (by simp [lowerFrom])
  · have dot : ("." ++ more).toList = '.' :: more.toList := String.toList_append
    exact Or.inr ⟨_, by rw [dot, lowerFrom_dot]⟩

private theorem isSegment_foldedSegment (own : SearchPath.isSegment segment) :
    SearchPath.isSegment (foldedSegment front segment rest) := by
  obtain ⟨filled, none⟩ := SearchPath.isSegment_iff.mp own
  refine SearchPath.isSegment_iff.mpr ⟨fun empty => ?_, ?_⟩
  · have length := length_lowerBetween ('.' :: front.toList.reverse) segment.toList rest.toList
    rw [String.ofList_eq_empty_iff.mp empty, List.length_nil] at length
    have nothing := List.eq_nil_of_length_eq_zero (l := segment.toList) (by omega)
    exact filled (String.toList_eq_nil_iff.mp nothing)
  · rw [foldedSegment, String.toList_ofList]
    exact dot_not_mem_lowerBetween none _ _

private theorem toList_next (front after : String) :
    (front ++ ("." ++ after)).toList = front.toList ++ '.' :: after.toList := by
  rw [String.toList_append, String.toList_append]
  rfl

/-- The lower case of a name begins with that of its own beginning, if no sigma is in the way. -/
theorem lowerBetween_of_not_splitsSigma {after : String} (h : ¬SplitsSigma front after) :
    lowerBetween [] front.toList ('.' :: after.toList) = (lower front).toList := by
  rw [lower, String.toList_ofList]
  exact lowerBetween_of_not_endsInSigma h

private theorem aligned_iff {after : String} (h : ¬SplitsSigma front after) :
    Aligned front ("." ++ after) ↔
      (lower front).utf8ByteSize = String.utf8Len front.toList ∧
        lowerFrom [] ('.' :: after.toList) = lowerFrom front.toList.reverse ('.' :: after.toList) := by
  have size : front.utf8ByteSize = String.utf8Len front.toList := by
    rw [← String.utf8ByteSize_ofList, String.ofList_toList]
  have dot : ("." ++ after).toList = '.' :: after.toList := String.toList_append
  have whole : (lower (front ++ ("." ++ after))).toList =
      (lower front).toList ++ lowerFrom front.toList.reverse ('.' :: after.toList) := by
    rw [lower, String.toList_ofList, toList_next, lowerFrom_append, lowerBetween_of_not_splitsSigma h,
      List.append_nil]
  have tail : (lower ("." ++ after)).toList = lowerFrom [] ('.' :: after.toList) := by
    rw [lower, String.toList_ofList, dot]
  rw [Aligned, size, ← String.toList_inj, String.toList_append, whole, tail]
  exact and_congr_right fun _ => (List.append_cancel_left_eq _ _ _).to_iff.trans eq_comm

private theorem nextSegment_of_not_splitsSigma (filled : front ≠ "")
    (own : SearchPath.isSegment segment) (ends : rest = "" ∨ ∃ more, rest = "." ++ more)
    (h : ¬SplitsSigma front (segment ++ rest)) :
    nextSegment (lower front) (front ++ ("." ++ (segment ++ rest))) =
      some (if Aligned front ("." ++ (segment ++ rest)) then segment
        else foldedSegment front segment rest) := by
  have behind := tailBehind_append (toList_next front (segment ++ rest))
    (lowerBetween_of_not_splitsSigma h)
  rw [nextSegment_eq_some_iff]
  simp only [lower_eq_empty_iff, filled, if_false]
  by_cases aligned : Aligned front ("." ++ (segment ++ rest))
  · rw [if_pos ((aligned_iff h).mp aligned)] at behind
    rw [if_pos aligned]
    refine ⟨own, _, ?_, behind⟩
    rw [String.toList_append]
    rcases ends with rfl | ⟨more, rfl⟩
    · exact Or.inl (List.append_nil _)
    · exact Or.inr ⟨more.toList, by rw [String.toList_append]; rfl⟩
  · rw [if_neg (mt (aligned_iff h).mpr aligned), lowerFrom_dot] at behind
    rw [if_neg aligned]
    exact ⟨isSegment_foldedSegment own, _, heads_foldedSegment ends, behind⟩

private theorem nextSegment_of_splitsSigma {after : String} (h : SplitsSigma front after) :
    nextSegment (lower front) (front ++ ("." ++ after)) = none := by
  have differs : lowerBetween [] front.toList ('.' :: after.toList) ≠ lowerFrom [] front.toList :=
    lowerBetween_ne_of_endsInSigma h.1 h.2
  have missed : ¬(lower front).toList <+: (lower (front ++ ("." ++ after))).toList := by
    rintro ⟨tail, whole⟩
    rw [lower, lower, String.toList_ofList, String.toList_ofList, toList_next, lowerFrom_append] at whole
    have lengths : (lowerFrom [] front.toList).length =
        (lowerBetween [] front.toList ('.' :: after.toList)).length := by
      rw [length_lowerFrom, length_lowerBetween]
    exact differs (List.append_inj whole lengths).1.symm
  rw [nextSegment_eq, tailBehind_eq_none missed]
  rfl

/-! ### The dotted name as it is typed -/

private theorem typedName_of_dotted (dotted : ∀ part ∈ split '.' front, SearchPath.isSegment part)
    (trimmed : trim front = front) : typedName front = front := by
  have open_ended : front.toList.getLast? ≠ some '.' := by
    intro last
    obtain ⟨before, whole⟩ := List.getLast?_eq_some_iff.mp last
    have empty : "" ∈ split '.' front := by
      rw [split, whole, splitChars_append_sep]
      exact List.mem_map.mpr ⟨[], by simp [splitChars], rfl⟩
    exact absurd (dotted "" empty) (by decide)
  rw [typedName_eq, trimmed, dropDot, if_neg open_ended, trimmed]

private theorem ne_empty_of_dotted (dotted : ∀ part ∈ split '.' front, SearchPath.isSegment part) :
    front ≠ "" := by
  rintro rfl
  exact absurd (dotted "" (by decide)) (by decide)

/-- A dotted name that is typed as some indexed name spells it is followed by the next segment of that
name: as it is spelled if lower case leaves the octets of the name where they are, or else in the
lower case that it has in the name. The one exception is a name whose sigma changes behind what is
typed; such a name is passed over. -/
theorem exact_prefix_is_followed_by_segment {s : State}
    (dotted : ∀ part ∈ split '.' front, SearchPath.isSegment part) (trimmed : trim front = front)
    (own : SearchPath.isSegment segment) (ends : rest = "" ∨ ∃ more, rest = "." ++ more)
    (indexed : front ++ ("." ++ (segment ++ rest)) ∈ s.index.names) (lib : Library) :
    (¬SplitsSigma front (segment ++ rest) →
      { name := if Aligned front ("." ++ (segment ++ rest)) then segment
          else foldedSegment front segment rest
        kind := .imported
        owner := front } ∈ (inImport lib front s).1) ∧
    (SplitsSigma front (segment ++ rest) →
      nextSegment (lower front) (front ++ ("." ++ (segment ++ rest))) = none) := by
  refine ⟨fun whole => ?_, nextSegment_of_splitsSigma⟩
  exact mem_inImport_of_nextSegment (typedName_of_dotted dotted trimmed) indexed
    (nextSegment_of_not_splitsSigma (ne_empty_of_dotted dotted) own ends whole) lib

theorem exact_prefix_is_followed_by_segment_in_lower_case :
    let h : Host := ⟨.ofEntries ⟨"/"⟩ [], ⟨"/"⟩, ⟨0, 0⟩⟩
    let lib : Library := ⟨⟨fun _ => .ok "", fun _ => true⟩, fun _ => .ok []⟩
    let fresh := ((Engine.initial {} ⟨"/"⟩).rebuild "/r" .never h).2.1
    let e := fresh.withState (fresh.state.changeFile lib ⟨"/r/İ/Sub.py"⟩ "").2
    Engine.Reachable e ∧ (∀ part ∈ split '.' "İ", SearchPath.isSegment part) ∧ trim "İ" = "İ" ∧
      SearchPath.isSegment "Sub" ∧ "İ" ++ ("." ++ ("Sub" ++ "")) ∈ e.state.index.names ∧
      ¬SplitsSigma "İ" ("Sub" ++ "") ∧ ¬Aligned "İ" ("." ++ ("Sub" ++ "")) ∧
      { name := "sub", kind := .imported, owner := "İ" } ∈ (inImport lib "İ" e.state).1 := by
  intro h lib fresh e
  have home : (⟨"/"⟩ : Path).isAbsolute := by decide
  have run : Engine.Reachable e :=
    .changeFile (.rebuild (.initial {} home) "/r" .never home) lib _ _
  have dotted : ∀ part ∈ split '.' "İ", SearchPath.isSegment part := by decide
  have trimmed : trim "İ" = "İ" := by decide +kernel
  have own : SearchPath.isSegment "Sub" := by decide
  have indexed : "İ" ++ ("." ++ ("Sub" ++ "")) ∈ e.state.index.names := by decide +kernel
  have whole : ¬SplitsSigma "İ" ("Sub" ++ "") := by
    rintro ⟨⟨word, passed, letters, -⟩, -⟩
    have sigma : 'Σ' ∈ "İ".toList := by rw [letters]; simp
    exact absurd sigma (by decide)
  have moved : ¬Aligned "İ" ("." ++ ("Sub" ++ "")) := by decide +kernel
  have folded : foldedSegment "İ" "Sub" "" = "sub" := by decide +kernel
  have offered := (exact_prefix_is_followed_by_segment (s := e.state) dotted trimmed own (Or.inl rfl)
    indexed lib).1 whole
  rw [if_neg moved, folded] at offered
  exact ⟨run, dotted, trimmed, own, indexed, whole, moved, offered⟩

/-- Behind `aΣ`, which ends in the sigma for the end of a word, nothing is offered: before the dot and
the letters of `sub` the sigma of the indexed name has its other form. -/
theorem closing_sigma_hides_child :
    let h : Host := ⟨.ofEntries ⟨"/"⟩ [], ⟨"/"⟩, ⟨0, 0⟩⟩
    let lib : Library := ⟨⟨fun _ => .ok "", fun _ => true⟩, fun _ => .ok []⟩
    let fresh := ((Engine.initial {} ⟨"/"⟩).rebuild "/r" .never h).2.1
    let package := fresh.withState (fresh.state.changeFile lib ⟨"/r/aΣ/__init__.py"⟩ "").2
    let e := package.withState (package.state.changeFile lib ⟨"/r/aΣ/sub.py"⟩ "").2
    Engine.Reachable e ∧ (∀ part ∈ split '.' "aΣ", SearchPath.isSegment part) ∧
      trim "aΣ" = "aΣ" ∧ SearchPath.isSegment "sub" ∧
      "aΣ" ++ "." ++ "sub" ∈ e.state.index.names ∧ (inImport lib "aΣ" e.state).1 = [] := by
  intro h lib fresh package e
  have home : (⟨"/"⟩ : Path).isAbsolute := by decide
  have run : Engine.Reachable e :=
    .changeFile (.changeFile (.rebuild (.initial {} home) "/r" .never home) lib _ _) lib _ _
  have dotted : ∀ part ∈ split '.' "aΣ", SearchPath.isSegment part := by decide
  have trimmed : trim "aΣ" = "aΣ" := by decide +kernel
  have indexed : "aΣ" ++ "." ++ "sub" ∈ e.state.index.names := by decide +kernel
  have answer : (inImport lib "aΣ" e.state).1.isEmpty := by decide +kernel
  exact ⟨run, dotted, trimmed, by decide, indexed, List.isEmpty_iff.mp answer⟩

end Completion

end ImportAtlas
