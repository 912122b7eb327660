import ImportAtlas.Proofs.LetterCase
import ImportAtlas.Proofs.SymbolTables
import Mathlib.Data.List.Nodup

/-!
What an import can go on with. For names and input in ASCII, the symbols in front are the segments
that follow the typed name in the module names, whatever the case of its letters, in the order of
their octets; then come the symbols of the module that the typed name names.
-/

set_option autoImplicit false

namespace ImportAtlas

namespace Completion

open Text

/-! ### Parts of names -/

private theorem behindOctets_append (q r : List Char) :
    behindOctets (String.utf8Len q) (q ++ r) = some r := by
  induction q with
  | nil => rw [String.utf8Len_nil, List.nil_append, behindOctets]
  | cons c q ih =>
    have size := String.utf8Len_cons c q
    have positive := c.utf8Size_pos
    obtain ⟨n, more⟩ := Nat.exists_eq_add_one_of_ne_zero (n := String.utf8Len (c :: q)) (by omega)
    rw [more, List.cons_append, behindOctets, if_pos (by omega)]
    have left : n + 1 - c.utf8Size = String.utf8Len q := by omega
    rw [left, ih]

private theorem eq_append_of_behindOctets {n : Nat} {cs own : List Char}
    (h : behindOctets n cs = some own) :
    ∃ q, cs = q ++ own ∧ String.utf8Len q = n := by
  fun_induction behindOctets n cs with
  | case1 cs => exact ⟨[], Option.some.inj h, rfl⟩
  | case2 => simp at h
  | case3 n c cs fits ih =>
    obtain ⟨q, rfl, size⟩ := ih h
    refine ⟨c :: q, rfl, ?_⟩
    rw [String.utf8Len_cons, size]
    omega
  | case4 => simp at h

/-- What is left behind a beginning whose lower case is known keeps its spelling if the beginning is
as long in lower case and the rest has the lower case that it has alone. -/
theorem tailBehind_append {lowered name : String} {q r : List Char} (parts : name.toList = q ++ r)
    (begins : lowerBetween [] q r = lowered.toList) :
    tailBehind lowered name =
      some (if lowered.utf8ByteSize = String.utf8Len q ∧ lowerFrom [] r = lowerFrom q.reverse r then r
        else lowerFrom q.reverse r) := by
  have whole : (lower name).toList = lowered.toList ++ lowerFrom q.reverse r := by
    rw [lower, String.toList_ofList, parts, lowerFrom_append, begins, List.append_nil]
  rw [tailBehind, stripStart_eq_some_iff.mpr whole, Option.bind_eq_bind, Option.bind_some, parts]
  have alone : ∀ own : List Char, (lower (String.ofList own)).toList = lowerFrom [] own := by
    intro own
    rw [lower, String.toList_ofList, String.toList_ofList]
  split
  · rename_i own behind
    rw [alone]
    by_cases size : lowered.utf8ByteSize = String.utf8Len q
    · rw [size, behindOctets_append] at behind
      obtain rfl := Option.some.inj behind
      simp only [size, true_and]
      split <;> rfl
    · obtain ⟨q', same, size'⟩ := eq_append_of_behindOctets behind
      -- Another end of the name is not as long in lower case.
      have other : lowerFrom [] own ≠ lowerFrom q.reverse r := by
        intro equal
        obtain rfl := eq_of_length_lowerFrom same (congrArg List.length equal.symm)
        obtain rfl := List.append_cancel_right same
        exact size size'.symm
      rw [if_neg other, if_neg fun both => size both.1]
  · rename_i nothing
    rw [if_neg]
    rintro ⟨size, -⟩
    rw [size, behindOctets_append] at nothing
    simp at nothing

theorem tailBehind_eq_none {lowered name : String}
    (h : ¬lowered.toList <+: (lower name).toList) : tailBehind lowered name = none := by
  have nothing := mt isSome_stripStart.mp h
  rw [Option.not_isSome_iff_eq_none] at nothing
  rw [tailBehind, nothing]
  rfl

/-- Whether `segment` is what comes first in `rest`, up to its end or a dot. -/
def Heads (segment : String) (rest : List Char) : Prop :=
  rest = segment.toList ∨ ∃ more, rest = segment.toList ++ '.' :: more

private theorem takeWhile_of_heads {segment : String} {rest : List Char}
    (own : SearchPath.isSegment segment) (heads : Heads segment rest) : rest.takeWhile
    (· != '.') = segment.toList := by
  have kept : ∀ c ∈ segment.toList, (c != '.') = true := by
    intro c member
    rw [bne_iff_ne]
    rintro rfl
    exact (SearchPath.isSegment_iff.mp own).2 member
  rcases heads with rfl | ⟨more, rfl⟩
  · rw [← List.append_nil segment.toList, List.takeWhile_append_of_pos kept, List.takeWhile_nil]
  · rw [List.takeWhile_append_of_pos kept, List.takeWhile_cons_of_neg (by simp), List.append_nil]

private theorem heads_takeWhile (rest : List Char) :
    Heads (String.ofList (rest.takeWhile (· != '.'))) rest := by
  have whole := List.takeWhile_append_dropWhile (p := (· != '.')) (l := rest)
  rw [Heads, String.toList_ofList]
  cases left : rest.dropWhile (· != '.') with
  | nil =>
    rw [left, List.append_nil] at whole
    exact Or.inl whole.symm
  | cons c more =>
    have stops := List.head?_dropWhile_not (· != '.') rest
    rw [left] at stops whole
    obtain rfl : c = '.' := by simpa using stops
    exact Or.inr ⟨more, whole.symm⟩

def firstSegment (rest : List Char) : Option String :=
  match rest.takeWhile (· != '.') with
  | [] => none
  | segment => some (String.ofList segment)

theorem nextSegment_eq (lowered name : String) :
    nextSegment lowered name = (tailBehind lowered name).bind fun tail =>
      (if lowered = "" then some tail else stripStart ['.'] tail).bind firstSegment := by
  rw [nextSegment]
  cases tailBehind lowered name with
  | none => rfl
  | some tail =>
    simp only [Option.bind_eq_bind, Option.bind_some]
    split <;> rfl

private theorem firstSegment_eq_some_iff {segment : String} {rest : List Char} :
    firstSegment rest = some segment ↔ SearchPath.isSegment segment ∧ Heads segment rest := by
  unfold firstSegment
  refine ⟨fun h => ?_, fun ⟨own, heads⟩ => ?_⟩
  · split at h
    · simp at h
    · rename_i filled
      obtain rfl := Option.some.inj h
      refine ⟨SearchPath.isSegment_iff.mpr ⟨?_, ?_⟩, heads_takeWhile rest⟩
      · exact fun empty => filled (String.ofList_eq_empty_iff.mp empty)
      · rw [String.toList_ofList]
        intro dot
        simpa using List.all_eq_true.mp List.all_takeWhile _ dot
  · rw [takeWhile_of_heads own heads]
    split
    · rename_i empty
      exact absurd (String.toList_eq_nil_iff.mp empty) (SearchPath.isSegment_iff.mp own).1
    · rw [String.ofList_toList]

theorem nextSegment_eq_some_iff {lowered name segment : String} :
    nextSegment lowered name = some segment ↔
      SearchPath.isSegment segment ∧ ∃ rest, Heads segment rest ∧
        tailBehind lowered name = some (if lowered = "" then rest else '.' :: rest) := by
  have cut : ∀ tail rest, (if lowered = "" then some tail else stripStart ['.'] tail) = some rest ↔
      tail = if lowered = "" then rest else '.' :: rest := by
    intro tail rest
    split
    · exact Option.some_inj
    · exact stripStart_eq_some_iff
  rw [nextSegment_eq]
  simp only [Option.bind_eq_some_iff, cut, firstSegment_eq_some_iff]
  constructor
  · rintro ⟨tail, found, rest, rfl, own, heads⟩
    exact ⟨own, rest, heads, found⟩
  · rintro ⟨own, rest, heads, found⟩
    exact ⟨_, found, rest, rfl, own, heads⟩

/-! ### The typed name -/

def dropDot (s : String) : String :=
  if s.toList.getLast? = some '.' then String.ofList s.toList.dropLast else s

theorem typedName_eq (raw : String) : typedName raw = trim (dropDot (trim raw)) := by
  have dropped : ∀ cs : List Char, (stripEnd ['.'] cs).getD cs =
      if cs.getLast? = some '.' then cs.dropLast else cs := by
    intro cs
    rcases List.eq_nil_or_concat cs with rfl | ⟨front, c, rfl⟩
    · rfl
    · by_cases dot : c = '.'
      · simp [stripEnd, stripStart, dot]
      · simp [stripEnd, stripStart, dot, Ne.symm dot]
  rw [typedName, dropDot, trim, trim, String.toList_ofList]
  simp only [dropped]
  split <;> rw [String.toList_ofList]

private theorem mem_of_mem_trim {raw : String} {c : Char} (h : c ∈ (trim raw).toList) :
    c ∈ raw.toList := by
  rw [trim, String.toList_ofList, trimChars, dropEndWhile, List.mem_reverse] at h
  have inner := (List.dropWhile_sublist _).subset h
  rw [List.mem_reverse] at inner
  exact (List.dropWhile_sublist _).subset inner

private theorem mem_of_mem_typedName {raw : String} {c : Char} (h : c ∈ (typedName raw).toList) :
    c ∈ raw.toList := by
  rw [typedName_eq] at h
  have inner := mem_of_mem_trim h
  rw [dropDot] at inner
  split at inner
  · rw [String.toList_ofList] at inner
    exact mem_of_mem_trim ((List.dropLast_sublist _).subset inner)
  · exact mem_of_mem_trim inner

/-! ### Names in ASCII -/

variable {typed name segment : String}

private theorem toList_lower_of_isAscii (plain : ∀ c ∈ typed.toList, c.isAscii) :
    (lower typed).toList = typed.toList.map Char.toLower := by
  rw [lower, String.toList_ofList, lowerFrom_of_isAscii plain]

theorem lower_eq_empty_iff : lower typed = "" ↔ typed = "" := by
  rw [← String.toList_eq_nil_iff, ← String.toList_eq_nil_iff, ← List.length_eq_zero_iff,
    ← List.length_eq_zero_iff, lower, String.toList_ofList, length_lowerFrom]
  refine ⟨fun h => by omega, fun h => ?_⟩
  rw [List.eq_nil_of_length_eq_zero h]
  rfl

private theorem tailBehind_eq_some_iff_of_isAscii (plain : ∀ c ∈ typed.toList, c.isAscii)
    (named : ∀ c ∈ name.toList, c.isAscii) {rest : List Char} :
    tailBehind (lower typed) name = some rest ↔
      ∃ q, name.toList = q ++ rest ∧ q.map Char.toLower = typed.toList.map Char.toLower := by
  have lowered := toList_lower_of_isAscii plain
  have found : ∀ q r, name.toList = q ++ r → q.map Char.toLower = typed.toList.map Char.toLower →
      tailBehind (lower typed) name = some r := by
    intro q r parts same
    have front : ∀ c ∈ q, c.isAscii := fun c member =>
      named c (by rw [parts]; exact List.mem_append_left _ member)
    have back : ∀ c ∈ r, c.isAscii := fun c member =>
      named c (by rw [parts]; exact List.mem_append_right _ member)
    have folded : ∀ c ∈ typed.toList.map Char.toLower, c.isAscii := by
      intro c member
      obtain ⟨d, inside, rfl⟩ := List.mem_map.mp member
      exact isAscii_toLower (plain d inside)
    have size : (lower typed).utf8ByteSize = String.utf8Len q := by
      rw [lower, lowerFrom_of_isAscii plain, String.utf8ByteSize_ofList, utf8Len_of_isAscii folded,
        utf8Len_of_isAscii front, ← same, List.length_map]
    rw [tailBehind_append parts (by rw [lowerBetween_of_isAscii front, same, lowered]), if_pos]
    exact ⟨size, by rw [lowerFrom_of_isAscii back, lowerFrom_of_isAscii back]⟩
  refine ⟨fun h => ?_, fun ⟨q, parts, same⟩ => found q rest parts same⟩
  by_cases begins : (lower typed).toList <+: (lower name).toList
  · obtain ⟨tail, whole⟩ := begins
    rw [lowered, toList_lower_of_isAscii named] at whole
    obtain ⟨q, r, parts, same, -⟩ := List.map_eq_append_iff.mp whole.symm
    obtain rfl := Option.some.inj (h.symm.trans (found q r parts same))
    exact ⟨q, parts, same⟩
  · rw [tailBehind_eq_none begins] at h
    simp at h

/-- Whether a segment stands in a module name behind a dotted name and a dot, whatever the case of the
letters of the dotted name; if that is empty, whether the segment is the first one. -/
def Continues (typed segment name : String) : Prop :=
  SearchPath.isSegment segment ∧ ∃ front : String,
    (if typed = "" then front = "" else ∃ q : String, q.toLower = typed.toLower ∧ front = q ++ ".") ∧
    (name = front ++ segment ∨ ∃ rest, name = front ++ segment ++ "." ++ rest)

private theorem exists_heads_iff {front : String} :
    (∃ rest, name.toList = front.toList ++ rest ∧ Heads segment rest) ↔
      (name = front ++ segment ∨ ∃ rest, name = front ++ segment ++ "." ++ rest) := by
  simp only [← String.toList_inj, String.toList_append, List.append_assoc]
  constructor
  · rintro ⟨rest, whole, rfl | ⟨more, rfl⟩⟩
    · exact Or.inl whole
    · exact Or.inr ⟨String.ofList more, by simpa using whole⟩
  · rintro (whole | ⟨more, whole⟩)
    · exact ⟨segment.toList, whole, Or.inl rfl⟩
    · exact ⟨_, whole, Or.inr ⟨more.toList, rfl⟩⟩

private theorem toLower_eq_toLower_iff {q typed : String} :
    q.toLower = typed.toLower ↔ q.toList.map Char.toLower = typed.toList.map Char.toLower := by
  have folded : ∀ s : String, s.toLower.toList = s.toList.map Char.toLower := fun _ => String.toList_map
  rw [← String.toList_inj, folded, folded]

private theorem nextSegment_eq_some_iff_of_isAscii (plain : ∀ c ∈ typed.toList, c.isAscii)
    (named : ∀ c ∈ name.toList, c.isAscii) :
    nextSegment (lower typed) name = some segment ↔ Continues typed segment name := by
  rw [nextSegment_eq_some_iff, Continues]
  simp only [tailBehind_eq_some_iff_of_isAscii plain named, lower_eq_empty_iff, ← exists_heads_iff]
  refine and_congr_right fun _ => ?_
  by_cases empty : typed = ""
  · simp [empty]
  · simp only [empty, if_false]
    constructor
    · rintro ⟨rest, heads, q, parts, same⟩
      refine ⟨String.ofList q ++ ".", ⟨String.ofList q, ?_, rfl⟩, rest, ?_, heads⟩
      · rw [toLower_eq_toLower_iff, String.toList_ofList, same]
      · rw [parts]
        simp
    · rintro ⟨front, ⟨q, same, rfl⟩, rest, parts, heads⟩
      refine ⟨rest, heads, q.toList, ?_, toLower_eq_toLower_iff.mp same⟩
      rw [parts]
      simp

/-! ### The segments in order -/

private theorem foldl_put (segments : List String) {m : NameMap Unit} (ordered : m.Ordered) :
    (segments.foldl (fun m segment => m.put segment ()) m).Ordered ∧
      ∀ x, NameMap.contains (segments.foldl (fun m segment => m.put segment ()) m) x ↔
        x ∈ segments ∨ NameMap.contains m x := by
  induction segments generalizing m with
  | nil => exact ⟨ordered, by simp⟩
  | cons segment rest ih =>
    obtain ⟨later, found⟩ := ih (NameMap.ordered_put ordered segment ())
    refine ⟨later, fun x => ?_⟩
    rw [List.foldl_cons, found, NameMap.contains, NameMap.get?_put]
    by_cases same : x = segment
    · simp [same]
    · simp [same, NameMap.contains]

private theorem mem_nextSegments {lowered x : String} {names : List String} :
    x ∈ nextSegments lowered names ↔ ∃ name ∈ names, nextSegment lowered name = some x := by
  rw [nextSegments, ← NameMap.contains_iff_mem_keys, (foldl_put _ NameMap.ordered_nil).2]
  simp [NameMap.contains]

private theorem pairwise_nextSegments (lowered : String) (names : List String) :
    (nextSegments lowered names).Pairwise (· < ·) :=
  List.pairwise_map.mpr (foldl_put _ NameMap.ordered_nil).1

private theorem nodup_nextSegments (lowered : String) (names : List String) :
    (nextSegments lowered names).Nodup :=
  (pairwise_nextSegments lowered names).imp String.ne_of_lt

/-! ### The answer -/

variable {lib : Library} {s : State} {raw : String}

def segmentSymbol (typed segment : String) : Symbol :=
  { name := segment, kind := .imported, owner := typed }

def namedGlobals (lib : Library) (typed : String) (s : State) : List Symbol :=
  if typed = "" then []
  else match (s.resolve lib typed).1 with
    | .ok m => m.globals
    | .error _ => []

theorem inImport_fst (lib : Library) (raw : String) (s : State) :
    (inImport lib raw s).1 =
      ((SymbolSet.empty.insertAll ((nextSegments (lower (typedName raw)) s.index.names).map
        (segmentSymbol (typedName raw)))).insertAll (namedGlobals lib (typedName raw) s)).toList := by
  simp only [inImport, namedGlobals, lower_eq_empty_iff]
  split
  · rfl
  · rcases s.resolve lib (typedName raw) with ⟨cause | m, t⟩ <;> rfl

private theorem nodup_ids_segmentSymbol {segments : List String} (h : segments.Nodup)
    (typed : String) :
    ((segments.map (segmentSymbol typed)).map Symbol.id).Nodup := by
  rw [List.map_map]
  exact h.map fun _ _ same => congrArg SymbolId.name same

private theorem areOwn_namedGlobals (made : s.index.ModulesAre Module.Made) (lib : Library)
    (typed : String) :
    AreOwn (namedGlobals lib typed s) := by
  unfold namedGlobals
  split
  · exact .nil
  · rw [State.resolve_fst]
    cases answered : s.index.answer lib typed with
    | error cause => exact .nil
    | ok m => exact (made.answer Module.Made.loaded answered).areOwn_globals

private theorem toList_insertAll_segmentSymbol {segments : List String} (h : segments.Nodup)
    (typed : String) :
    (SymbolSet.empty.insertAll (segments.map (segmentSymbol typed))).toList =
      segments.map (segmentSymbol typed) :=
  SymbolSet.toList_insertAll_of_nodup (s := SymbolSet.empty) (nodup_ids_segmentSymbol h typed)

theorem mem_inImport_of_nextSegment (read : typedName raw = typed) (indexed : name ∈ s.index.names)
    (next : nextSegment (lower typed) name = some segment) (lib : Library) :
    segmentSymbol typed segment ∈ (inImport lib raw s).1 := by
  subst read
  rw [inImport_fst]
  refine SymbolSet.mem_insertAll_of_mem _ ?_
  rw [toList_insertAll_segmentSymbol (nodup_nextSegments _ _)]
  exact List.mem_map_of_mem (mem_nextSegments.mpr ⟨name, indexed, next⟩)

private theorem inImport_fst_eq_append (made : s.index.ModulesAre Module.Made) (lib : Library)
    (raw : String) :
    (inImport lib raw s).1 =
      (nextSegments (lower (typedName raw)) s.index.names).map (segmentSymbol (typedName raw)) ++
        namedGlobals lib (typedName raw) s := by
  have distinct := nodup_nextSegments (lower (typedName raw)) s.index.names
  have own := areOwn_namedGlobals made lib (typedName raw)
  have first := toList_insertAll_segmentSymbol distinct (typedName raw)
  rw [inImport_fst, SymbolSet.toList_insertAll_of_nodup, first]
  rw [SymbolSet.ids, first]
  refine List.nodup_append.mpr ⟨nodup_ids_segmentSymbol distinct _, own.distinct, ?_⟩
  -- The kinds tell a segment and a symbol of the module apart.
  rintro a member b later rfl
  obtain ⟨x, inside, rfl⟩ := List.mem_map.mp member
  obtain ⟨segment, -, rfl⟩ := List.mem_map.mp inside
  obtain ⟨y, defined, same⟩ := List.mem_map.mp later
  exact own.defined y defined (congrArg SymbolId.kind same)

private theorem not_continues_of_ne_dot {q rest : String} {c : Char} (filled : typed ≠ "")
    (same : q.toLower = typed.toLower) (other : c ≠ '.') (segment : String) :
    ¬Continues typed segment (q ++ String.ofList (c :: rest.toList)) := by
  rintro ⟨-, front, begins, name⟩
  rw [if_neg filled] at begins
  obtain ⟨q', same', rfl⟩ := begins
  obtain ⟨tail, parts, -⟩ := exists_heads_iff.mpr name
  have lengths : q.toList.length = q'.toList.length := by
    have maps := congrArg List.length
      ((toLower_eq_toLower_iff.mp same).trans (toLower_eq_toLower_iff.mp same').symm)
    rwa [List.length_map, List.length_map] at maps
  simp only [String.toList_append, String.toList_ofList, List.append_assoc] at parts
  have behind := (List.append_inj parts lengths).2
  have dot : c = '.' := (List.cons.inj behind).1
  exact other dot

/-- An index of names in ASCII completes an import, whatever is typed in ASCII, with the segments that
continue the typed name in some indexed name: in the order of their octets, and followed by the
symbols of the module that the typed name names, in the module's order. A name that is merely longer
than the typed one has no part in it. -/
theorem import_completion_is_exact (made : s.index.ModulesAre Module.Made)
    (named : ∀ name ∈ s.index.names, ∀ c ∈ name.toList, c.isAscii) (lib : Library)
    (plain : ∀ c ∈ raw.toList, c.isAscii) :
    let typed := typedName raw
    typed = trim (dropDot (trim raw)) ∧
    (∃ segments : List String,
      (∀ segment, segment ∈ segments ↔ ∃ name ∈ s.index.names, Continues typed segment name) ∧
      (segments.Pairwise fun a b => octets a < octets b) ∧
      (inImport lib raw s).1 =
        segments.map (fun segment => { name := segment, kind := .imported, owner := typed }) ++
          if typed = "" then []
          else match (s.resolve lib typed).1 with
            | .ok m => m.globals
            | .error _ => []) ∧
    (typed ≠ "" → ∀ q rest : String, ∀ c, q.toLower = typed.toLower → c ≠ '.' → ∀ segment,
      ¬Continues typed segment (q ++ String.ofList (c :: rest.toList))) := by
  intro typed
  have plain' : ∀ c ∈ typed.toList, c.isAscii := fun c member => plain c (mem_of_mem_typedName member)
  have continued : ∀ segment, segment ∈ nextSegments (lower typed) s.index.names ↔
      ∃ name ∈ s.index.names, Continues typed segment name := by
    intro segment
    rw [mem_nextSegments]
    exact exists_congr fun name => and_congr_right fun member =>
      nextSegment_eq_some_iff_of_isAscii plain' (named name member)
  have ascii : ∀ segment ∈ nextSegments (lower typed) s.index.names, ∀ c ∈ segment.toList,
      c.isAscii := by
    intro segment member c inside
    obtain ⟨name, indexed, -, front, -, parts⟩ := (continued segment).mp member
    refine named name indexed c ?_
    rcases parts with rfl | ⟨rest, rfl⟩ <;> simp [inside]
  refine ⟨typedName_eq raw, ⟨_, continued, ?_, inImport_fst_eq_append made lib raw⟩, ?_⟩
  · refine (pairwise_nextSegments _ _).imp_of_mem ?_
    intro a b member member' less
    exact octets_lt_octets (ascii a member) (ascii b member') less
  · intro filled q rest c same other segment
    exact not_continues_of_ne_dot filled same other segment

theorem import_completion_is_exact_in_any_case :
    let h : Host := ⟨.ofEntries ⟨"/"⟩ [], ⟨"/"⟩, ⟨0, 0⟩⟩
    let lib : Library :=
      ⟨⟨fun _ => .ok "", fun _ => true⟩, fun _ => .ok [.assign [.name "VALUE"]]⟩
    let fresh := ((Engine.initial {} ⟨"/"⟩).rebuild "/a" .never h).2.1
    let change (e : Engine) (file : String) := e.withState (e.state.changeFile lib ⟨file⟩ "").2
    let e := change (change (change (change fresh "/a/Xml.py") "/a/xml/sax.py") "/a/XML/Dom/x.py")
      "/a/xmlrpclib.py"
    let symbols := [("Dom", SymbolKind.imported), ("sax", .imported), ("VALUE", .attribute)].map
      fun (name, kind) => ({ name, kind, owner := "Xml" } : Symbol)
    Engine.Reachable e ∧
      e.state.index.names = ["XML.Dom.x", "Xml", "__builtin__", "sys", "xml.sax", "xmlrpclib"] ∧
      (∀ name ∈ e.state.index.names, ∀ c ∈ name.toList, c.isAscii) ∧
      (∀ c ∈ " Xml. ".toList, c.isAscii) ∧ (inImport lib " Xml. " e.state).1 = symbols ∧
      ∃ segments : List String,
        (∀ segment, segment ∈ segments ↔
          ∃ name ∈ e.state.index.names, Continues (typedName " Xml. ") segment name) ∧
        (segments.Pairwise fun a b => octets a < octets b) ∧
        symbols = segments.map (fun segment => { name := segment, kind := .imported, owner := "Xml" }) ++
          [{ name := "VALUE", kind := .attribute, owner := "Xml" }] := by
  intro h lib fresh change e symbols
  have home : (⟨"/"⟩ : Path).isAbsolute := by decide
  have begun : Engine.Reachable fresh := .rebuild (.initial {} home) "/a" .never home
  have run : Engine.Reachable e :=
    .changeFile (.changeFile (.changeFile (.changeFile begun lib _ _) lib _ _) lib _ _) lib _ _
  have names : e.state.index.names =
      ["XML.Dom.x", "Xml", "__builtin__", "sys", "xml.sax", "xmlrpclib"] := by decide +kernel
  have letters : e.state.index.names.all fun name => name.toList.all Char.isAscii := by
    rw [names]
    decide
  have ascii : ∀ name ∈ e.state.index.names, ∀ c ∈ name.toList, c.isAscii :=
    fun name member => List.all_eq_true.mp (List.all_eq_true.mp letters name member)
  have plain : ∀ c ∈ " Xml. ".toList, c.isAscii := List.all_eq_true.mp (by decide)
  have typed : typedName " Xml. " = "Xml" := by decide +kernel
  have answer : (inImport lib " Xml. " e.state).1 = symbols := by decide +kernel
  have globals : (match (e.state.resolve lib "Xml").1 with
      | .ok m => m.globals
      | .error _ => []) = [{ name := "VALUE", kind := .attribute, owner := "Xml" }] := by
    decide +kernel
  obtain ⟨-, ⟨segments, continued, increasing, whole⟩, -⟩ :=
    import_completion_is_exact run.modulesAre_made ascii lib plain
  rw [answer, typed, if_neg (by decide), globals] at whole
  exact ⟨run, names, ascii, plain, answer, segments, continued, increasing, whole⟩

end Completion

end ImportAtlas
