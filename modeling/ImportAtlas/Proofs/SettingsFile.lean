import ImportAtlas.Config
import ImportAtlas.Proofs.DiskDirs
import ImportAtlas.Proofs.StoredKeys
import ImportAtlas.Proofs.StoredNotes

/-!
Settings in a file. What is saved is loaded again, whatever characters are in it; and the settings of
a file that someone else has written, with some of them left out or with more in it than settings,
survive as they have been understood.
-/

set_option autoImplicit false

namespace ImportAtlas

namespace Disk

variable {d d' : Disk} {here location : Location}

private theorem within_put_of_file {old : List UInt8} (h : d.entryAt location = some (.file old))
    (entry : Entry) : d.Within (d.put location entry) := by
  refine ⟨cwd_put d location entry, fun place other solid found => ?_⟩
  have apart : place ≠ location := by
    rintro rfl
    rw [h] at found
    obtain rfl := Option.some.inj found
    exact Bool.noConfusion solid
  rwa [entryAt_put_other apart]

private theorem read_of_writeFile {p : Path} {bytes : List UInt8}
    (h : d.writeFile p bytes = some d') :
    d'.read p = .ok bytes := by
  obtain ⟨location, entry, located, free, rfl⟩ := exists_place_of_writeFile h
  have own : d.entryAt location = entry := (solid_of_locateWith true located).1
  have nonempty : location ≠ [] := by
    rintro rfl
    simp [entryAt, ← own] at free
  have within : d.Within (d.put location (.file bytes)) := by
    rcases free with rfl | ⟨old, rfl⟩
    · exact .put_of_none own _
    · exact within_put_of_file own _
  have no_link : ∀ target, entry ≠ some (.link target) := by
    rcases free with rfl | ⟨old, rfl⟩ <;> simp
  have stands := entryAt_put_self (d := d) (possible_of_locateWith located) nonempty (.file bytes)
  have again : (d.put location (.file bytes)).locate p = .ok (location, some (.file bytes)) :=
    within.locateWith_eq true located no_link stands (by simp)
  rw [read, again]

private theorem read_of_writeDeep {p : Path} {bytes : List UInt8}
    (h : d.writeDeep p bytes = some d') :
    d'.read p = .ok bytes := by
  obtain ⟨m, -, written⟩ := Option.bind_eq_some_iff.mp h
  exact read_of_writeFile written

def Writable (d : Disk) (p : Path) : Prop :=
  (d.writeDeep p []).isSome

instance (d : Disk) (p : Path) : Decidable (d.Writable p) :=
  inferInstanceAs (Decidable (_ = true))

private theorem isSome_writeFile (d : Disk) (p : Path) (bytes other : List UInt8) :
    (d.writeFile p bytes).isSome = (d.writeFile p other).isSome := by
  unfold writeFile
  split
  · rfl
  · split <;> rfl
  · rfl

private theorem Writable.exists_writeDeep {p : Path} (h : d.Writable p) (bytes : List UInt8) :
    ∃ d', d.writeDeep p bytes = some d' := by
  obtain ⟨_, written⟩ := Option.isSome_iff_exists.mp h
  obtain ⟨m, made, filled⟩ := Option.bind_eq_some_iff.mp written
  have possible : (m.writeFile p bytes).isSome := by
    rw [isSome_writeFile m p bytes [], filled]
    rfl
  obtain ⟨d', placed⟩ := Option.isSome_iff_exists.mp possible
  exact ⟨d', Option.bind_eq_some_iff.mpr ⟨m, made, placed⟩⟩

end Disk

namespace Config

private theorem ofJson?_toJson (c : Config) : ofJson? c.toJson = some c := by
  obtain ⟨searchPath, persist, cacheDir⟩ := c
  cases cacheDir <;> rfl

private theorem readable_toJson (c : Config) : c.toJson.Readable := by
  apply Json.readable_ofFields
  simp only [List.mem_cons, List.not_mem_nil, or_false]
  rintro field (rfl | rfl | rfl)
  · exact Json.readable_ofText _
  · exact trivial
  · cases c.cacheDir with
    | none => exact trivial
    | some dir => exact Json.readable_ofText _

/-- Settings are read back from their text. -/
theorem parse_print (c : Config) : parse c.print = some c := by
  rw [parse, print, Json.parse_pretty c.readable_toJson]
  exact ofJson?_toJson c

private theorem exists_load_of_save {d : Disk} {file : Path} (writable : d.Writable file)
    (c : Config) :
    ∃ d', c.save d file = some d' ∧ load d' file = .ok c := by
  obtain ⟨d', written⟩ := writable.exists_writeDeep (Text.octets c.print)
  have strict : d'.readStrict? file = some c.print := by
    rw [Disk.readStrict?, Disk.read_of_writeDeep written]
    exact Text.ofOctets?_octets _
  refine ⟨d', written, ?_⟩
  simp only [load, strict, parse_print]

/-! What a file says. -/

/-- What a value gives for a setting: the field of that name, or the item in its place. -/
def given : Json → String → Option Json
  | .object fields, name => fields.lookup (some name)
  | .array items, name => (names.zip items).lookup name
  | _, _ => none

/-- Whether a value has the form of settings. An object can have more fields than there are settings,
but must not give one twice; an array has no more items than there are settings. -/
def HasForm : Json → Prop
  | .object fields => (∀ field ∈ fields, field.1.isSome) ∧
      ∀ name ∈ names, (fields.filter fun field => field.1 = some name).length ≤ 1
  | .array items => items.length ≤ names.length
  | _ => False

/-- Whether a value describes some settings: those it gives, and the defaults for the others. -/
structure Describes (j : Json) (c : Config) : Prop where
  form : HasForm j
  searchPath : setting Json.string? "" (given j "search_path") = some c.searchPath
  persist : setting Json.bool? true (given j "persist") = some c.persist
  cacheDir : setting Json.stringOrNull? none (given j "cache_dir") = some (c.cacheDir.map Path.text)

private theorem ofValues_eq_some_iff {searchPath persist cacheDir : Option Json} {c : Config} :
    ofValues searchPath persist cacheDir = some c ↔
      setting Json.string? "" searchPath = some c.searchPath ∧
      setting Json.bool? true persist = some c.persist ∧
      setting Json.stringOrNull? none cacheDir = some (c.cacheDir.map Path.text) := by
  obtain ⟨ownPath, ownPersist, ownDir⟩ := c
  constructor
  · intro h
    obtain ⟨path, path_read, h⟩ := Option.bind_eq_some_iff.mp h
    obtain ⟨kept, kept_read, h⟩ := Option.bind_eq_some_iff.mp h
    obtain ⟨dir, dir_read, h⟩ := Option.bind_eq_some_iff.mp h
    obtain ⟨rfl, rfl, rfl⟩ := Config.mk.inj (Option.some.inj h)
    refine ⟨path_read, kept_read, ?_⟩
    rw [dir_read, Option.map_map]
    cases dir <;> rfl
  · rintro ⟨path_read, kept_read, dir_read⟩
    simp only [ofValues, path_read, kept_read, dir_read, Option.bind_eq_bind, Option.bind_some]
    cases ownDir <;> rfl

private theorem lookup?_names (fields : List (Option String × Json)) :
    Json.lookup? names fields =
      if (∀ field ∈ fields, field.1.isSome) ∧
          ∀ name ∈ names, (fields.filter fun field => field.1 = some name).length ≤ 1 then
        some (names.map fun name => fields.lookup (some name))
      else none := by
  simp only [Json.lookup?, Bool.and_eq_true, List.all_eq_true, decide_eq_true_eq]

private theorem ofJson?_eq_some_iff {j : Json} {c : Config} : ofJson? j = some c ↔
    Describes j c := by
  have known : Describes j c ↔ HasForm j ∧
      ofValues (given j "search_path") (given j "persist") (given j "cache_dir") = some c := by
    rw [ofValues_eq_some_iff]
    exact ⟨fun h => ⟨h.form, h.searchPath, h.persist, h.cacheDir⟩,
      fun ⟨form, searchPath, persist, cacheDir⟩ => ⟨form, searchPath, persist, cacheDir⟩⟩
  rw [known]
  match j with
  | .object fields =>
    simp only [ofJson?, lookup?_names, HasForm]
    split_ifs with form
    · exact (and_iff_right form).symm
    · exact iff_of_false (by simp) fun h => form h.1
  | .array [] => exact (and_iff_right (Nat.zero_le _)).symm
  | .array [_] => exact (and_iff_right (Nat.le_of_ble_eq_true rfl)).symm
  | .array [_, _] => exact (and_iff_right (Nat.le_of_ble_eq_true rfl)).symm
  | .array [_, _, _] => exact (and_iff_right (Nat.le_of_ble_eq_true rfl)).symm
  | .array (_ :: _ :: _ :: _ :: rest) => simp [ofJson?, HasForm, names]
  | .null | .bool _ | .number _ | .text _ => simp [ofJson?, HasForm]

private theorem parse_eq_some_iff {text : String} {c : Config} :
    parse text = some c ↔ ∃ j, Json.parse text = some j ∧ Describes j c := by
  simp only [parse, Option.bind_eq_some_iff, ofJson?_eq_some_iff]

example : parse "[\"/lib\", false]" = some ⟨"/lib", false, none⟩ := by decide +kernel

private theorem load_eq_ok_iff {d : Disk} {file : Path} {c : Config} :
    load d file = .ok c ↔ ∃ text, d.readStrict? file = some text ∧ parse text = some c := by
  unfold load
  split
  · rename_i unreadable
    simp [unreadable]
  · rename_i text readable
    cases understood : parse text <;> simp [readable, understood]

private theorem Describes.defaults {j : Json} {c : Config} (h : Describes j c) :
    (given j "search_path" = none → c.searchPath = "") ∧
    (given j "persist" = none → c.persist = true) ∧
    (given j "cache_dir" = none → c.cacheDir = none) := by
  refine ⟨fun absent => ?_, fun absent => ?_, fun absent => ?_⟩
  · have read := h.searchPath
    rw [absent] at read
    exact (Option.some.inj read).symm
  · have read := h.persist
    rw [absent] at read
    exact (Option.some.inj read).symm
  · have read := h.cacheDir
    rw [absent] at read
    exact Option.map_eq_none_iff.mp (Option.some.inj read).symm

/-- Settings that are saved where a file can be written are loaded from there as they were. A file is
accepted if its text describes some settings, where those that it leaves out have their defaults; and
these settings are the same when they have been saved and loaded again, from any place. -/
theorem settings_survive :
    (∀ (c : Config) (d : Disk) (file : Path), d.Writable file →
      ∃ d', c.save d file = some d' ∧ load d' file = .ok c) ∧
    (∀ (d : Disk) (file : Path) (c : Config), load d file = .ok c ↔
      ∃ text j, d.readStrict? file = some text ∧ Json.parse text = some j ∧ Describes j c) ∧
    (∀ (j : Json) (c : Config), Describes j c →
      (given j "search_path" = none → c.searchPath = "") ∧
      (given j "persist" = none → c.persist = true) ∧
      (given j "cache_dir" = none → c.cacheDir = none)) ∧
    ∀ (text : String) (c : Config), parse text = some c → parse c.print = some c ∧
      ∀ (d : Disk) (copy : Path), d.Writable copy →
        ∃ d', c.save d copy = some d' ∧ load d' copy = .ok c := by
  refine ⟨fun c d file writable => exists_load_of_save writable c, ?_,
    fun j c => Describes.defaults, ?_⟩
  · intro d file c
    simp only [load_eq_ok_iff, parse_eq_some_iff, exists_and_left]
  · exact fun text c _ => ⟨parse_print c, fun d copy writable =>
      exists_load_of_save writable c⟩

theorem settings_survive_of_quotes :
    let d := Disk.ofHome ⟨"/w"⟩
    let file : Path := ⟨"nested/config.json"⟩
    let c : Config := ⟨"/a:/\\\"b\"\x01\n", false, some ⟨"/\u00e4"⟩⟩
    let text := "\x7b\"more\": [1], \"persist\": false\x7d"
    d.Writable file ∧
    (∃ d', c.save d file = some d' ∧ load d' file = .ok c) ∧
    parse text = some ⟨"", false, none⟩ ∧ parse (print ⟨"", false, none⟩) = some ⟨"", false, none⟩ := by
  intro d file c text
  have writable : d.Writable file := by decide +kernel
  have accepted : parse text = some ⟨"", false, none⟩ := by decide +kernel
  exact ⟨writable, settings_survive.1 c d file writable, accepted,
    (settings_survive.2.2.2 text _ accepted).1⟩

end Config

end ImportAtlas
