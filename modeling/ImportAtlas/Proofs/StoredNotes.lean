import ImportAtlas.Cache.Metadata
import ImportAtlas.Proofs.JsonText

/-!
The notes on a stored list of keys are read back from their text.
-/

set_option autoImplicit false

namespace ImportAtlas

namespace Json

private theorem natBelow?_ofNat {bound n : Nat} (h : n < bound) : (ofNat n).natBelow? bound =
    some n := by
  simp [natBelow?, ofNat, Text.decimal?_decimalChars, h]

private theorem readable_ofNat (n : Nat) : (ofNat n).Readable :=
  ⟨n, rfl⟩

theorem readable_ofText (s : String) : (ofText s).Readable :=
  rfl

private theorem itemsReadable_iff {items : List Json} :
    ItemsReadable items ↔ ∀ item ∈ items, item.Readable := by
  induction items with
  | nil => simp [ItemsReadable]
  | cons item items ih => simp [ItemsReadable, ih]

private theorem fieldsReadable_iff {fields : List (Option String × Json)} :
    FieldsReadable fields ↔ ∀ field ∈ fields, field.1.isSome ∧ field.2.Readable := by
  induction fields with
  | nil => simp [FieldsReadable]
  | cons field fields ih => simp [FieldsReadable, ih, and_assoc]

theorem readable_ofFields {fields : List (String × Json)}
    (h : ∀ field ∈ fields, field.2.Readable) : (ofFields fields).Readable := by
  apply fieldsReadable_iff.mpr
  intro field member
  obtain ⟨field, listed, rfl⟩ := List.mem_map.mp member
  exact ⟨rfl, h field listed⟩

end Json

namespace Time

/-- Whether a time is one that the clock can tell: its nanoseconds are less than a second, and its
seconds have room in sixty-three bits. -/
structure Valid (t : Time) : Prop where
  nanoseconds : t.nanoseconds < perSecond
  seconds : 2 * t.seconds < UInt64.size

private theorem ofJson?_toJson {t : Time} (h : t.Valid) : ofJson? t.toJson = some t := by
  have small : t.nanoseconds < 1000000000 := h.nanoseconds
  have fits : 2 * t.seconds < 18446744073709551616 := h.seconds
  have nanoseconds : (Json.ofNat t.nanoseconds).natBelow? UInt32.size = some t.nanoseconds :=
    Json.natBelow?_ofNat (by show t.nanoseconds < 4294967296; omega)
  have seconds : (Json.ofNat t.seconds).natBelow? UInt64.size = some t.seconds :=
    Json.natBelow?_ofNat (by show t.seconds < 18446744073709551616; omega)
  have carried : t.nanoseconds / perSecond = 0 := Nat.div_eq_of_lt h.nanoseconds
  have left : t.nanoseconds % perSecond = t.nanoseconds := Nat.mod_eq_of_lt h.nanoseconds
  have whole : ofValues (.ofNat t.seconds) (.ofNat t.nanoseconds) = some t := by
    simp only [ofValues, seconds, nanoseconds, Option.bind_eq_bind, Option.bind_some, carried, left,
      Nat.add_zero, if_pos h.seconds]
  exact whole

private theorem readable_toJson (t : Time) : t.toJson.Readable :=
  Json.readable_ofFields (by simp [Json.readable_ofNat])

end Time

namespace Metadata

structure Valid (m : Metadata) : Prop where
  version : m.version < UInt32.size
  createdAt : m.createdAt.Valid
  entryCount : m.entryCount < UInt64.size

private theorem pathsOf_texts (paths : List Path) :
    pathsOf (.array (paths.map fun path => .ofText path.text)) = some paths := by
  have texts : (paths.map fun path => Json.ofText path.text).mapM Json.string? =
      some (paths.map Path.text) := by
    induction paths with
    | nil => rfl
    | cons path paths ih =>
      rw [List.map_cons, List.mapM_cons, ih]
      rfl
  simp [pathsOf, texts, Function.comp_def]

private theorem ofJson?_toJson {m : Metadata} (h : m.Valid) : ofJson? m.toJson = some m := by
  have whole : ofValues (.ofNat m.version) m.createdAt.toJson (.ofNat m.entryCount)
      (.ofText m.writerVersion) (.array (m.roots.map fun root => .ofText root.text)) = some m := by
    simp only [ofValues, Json.natBelow?_ofNat h.version, Time.ofJson?_toJson h.createdAt,
      Json.natBelow?_ofNat h.entryCount, pathsOf_texts, Option.bind_eq_bind, Option.bind_some]
    rfl
  exact whole

private theorem readable_toJson (m : Metadata) : m.toJson.Readable := by
  apply Json.readable_ofFields
  simp only [List.mem_cons, List.not_mem_nil, or_false]
  rintro field (rfl | rfl | rfl | rfl | rfl)
  · exact Json.readable_ofNat _
  · exact Time.readable_toJson _
  · exact Json.readable_ofNat _
  · exact Json.readable_ofText _
  · apply Json.itemsReadable_iff.mpr
    simp [Json.readable_ofText]

theorem parse_print {m : Metadata} (h : m.Valid) : parse m.print = some m := by
  rw [parse, print, Json.parse_pretty m.readable_toJson]
  exact ofJson?_toJson h

end Metadata

end ImportAtlas
