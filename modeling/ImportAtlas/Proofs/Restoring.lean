import ImportAtlas.Proofs.Fallback
import ImportAtlas.Proofs.WarmStart

/-!
An index that is made from any list of keys, stale or damaged as it may be. Each key that makes an
entry has the name of its file, and the first such key of a name counts. But a key keeps its file as
it is spelled: a file that is spelled by a detour cannot be removed again, and a key without a name
comes in if its file is a root.
-/

set_option autoImplicit false

namespace ImportAtlas

private theorem Path.normalize_of_same {p q : Path} (normal : q.IsNormal) (same : p.same q)
    (cwd : Path) :
    normalize cwd p = q := by
  have parts : p.components = q.components := eq_of_beq same
  have absolute : p.isAbsolute := by
    obtain ⟨steps, rooted, -⟩ := components_of_absolute normal.isAbsolute
    by_contra relative
    rw [Bool.not_eq_true] at relative
    exact isStep_of_mem_components relative (by rw [parts, rooted]; exact List.mem_cons_self)
  calc
    normalize cwd p = normalize cwd q := by
      simp only [normalize, absolute, normal.isAbsolute, parts, if_true]
    _ = q := normal.normalize_eq cwd

namespace Index

private theorem get?_ofKeys (s : SearchPath) (keys : List ModuleKey) (name : String) :
    (ofKeys s keys).get? name =
      if Builtin.isReserved name then some (.placeholder ⟨name, none⟩)
      else (keys.find? fun key => key.name = name && s.admits key).map .placeholder := by
  rw [ofKeys, get?, get?_withBuiltins, get?_foldl_addKey, NameMap.get?_nil, Option.none_or]

private theorem ordered_ofKeys (s : SearchPath) (keys : List ModuleKey) :
    NameMap.Ordered (ofKeys s keys).modules :=
  ordered_withBuiltins (ordered_foldl_addKey s keys NameMap.ordered_nil)

/-- An index whose files, however they are spelled, have the names that they stand under. -/
def NamesFiles (i : Index) : Prop :=
  ∀ name file, i.fileOf? name = some file → i.searchPath.moduleName file = some name

private theorem exists_key_of_get?_ofKeys {s : SearchPath} {keys : List ModuleKey} {name : String}
    {m : Module} (free : Builtin.isReserved name = false)
    (found : (ofKeys s keys).get? name = some m) :
    ∃ file, m = .placeholder ⟨name, some file⟩ ∧ s.moduleName file = some name := by
  rw [get?_ofKeys, free, if_neg Bool.false_ne_true] at found
  obtain ⟨key, first, rfl⟩ := Option.map_eq_some_iff.mp found
  have agrees := List.find?_some first
  obtain ⟨own, backing⟩ := key
  simp only [Bool.and_eq_true, decide_eq_true_eq] at agrees
  obtain ⟨rfl, admitted⟩ := agrees
  cases backing with
  | none => exact Bool.noConfusion admitted
  | some file =>
    simp only [SearchPath.admits, Bool.and_eq_true, decide_eq_true_eq] at admitted
    exact ⟨file, rfl, admitted.2⟩

private theorem namesFiles_ofKeys (s : SearchPath) (keys : List ModuleKey) :
    (ofKeys s keys).NamesFiles := by
  intro name file behind
  obtain ⟨m, found, backed⟩ := Option.bind_eq_some_iff.mp behind
  cases free : Builtin.isReserved name with
  | true =>
    rw [get?_ofKeys, free, if_pos rfl] at found
    obtain rfl := Option.some.inj found
    exact nomatch backed
  | false =>
    obtain ⟨own, rfl, named⟩ := exists_key_of_get?_ofKeys free found
    obtain rfl : own = file := Option.some.inj backed
    exact named

end Index

namespace State

variable {s : State} {name : String} {file : Path}

/-- A file that an index has is removed by its own spelling if that is a normal one, up to slashes
and dots that make no component. No entry has the file then. -/
theorem removeFile_of_spelled (path : s.index.searchPath.IsNormal)
    (ordered : NameMap.Ordered s.index.modules) (names : s.index.NamesFiles) (lib : Library)
    (behind : s.index.fileOf? name = some file) (spelled : file.same (s.fileOf file)) :
    ∃ t, s.removeFile lib file = (.ok true, t) ∧ t.index.files.any file.same = false := by
  have named := names name file behind
  have normal : (s.fileOf file).IsNormal := path.normalize_of_moduleName named
  have again : s.index.searchPath.moduleName (s.fileOf file) = some name :=
    path.moduleName_normalize named
  have parts : file.components = (s.fileOf file).components := eq_of_beq spelled
  have provided : (s.index.fileOf? name).any (s.fileOf file).same := by
    rw [behind]
    exact beq_iff_eq.mpr parts.symm
  obtain ⟨t, removed, -, still, entries⟩ := removeFile_of_provided lib again provided
  refine ⟨t, removed, List.any_eq_false.mpr fun other member same => ?_⟩
  obtain ⟨⟨key, m⟩, inside, backed⟩ := List.mem_filterMap.mp member
  have found : t.index.get? key = some m := NameMap.get?_of_mem (still ordered) inside
  rw [entries key] at found
  have same_parts : file.components = other.components := eq_of_beq same
  split at found
  · -- the file that takes the name is another one
    obtain ⟨next, chosen, rfl⟩ := Option.map_eq_some_iff.mp found
    obtain rfl : next = other := Option.some.inj backed
    have different := List.find?_some chosen
    simp only [Bool.and_eq_true, Bool.not_eq_true', Path.same, beq_eq_false_iff_ne] at different
    exact different.1 (same_parts.symm.trans parts)
  · -- an entry with the same file has the same name
    rename_i elsewhere
    have behind' : s.index.fileOf? key = some other :=
      Option.bind_eq_some_iff.mpr ⟨m, found, backed⟩
    have meant : s.fileOf other = s.fileOf file :=
      Path.normalize_of_same normal (beq_iff_eq.mpr (same_parts.symm.trans parts)) _
    have named' := path.moduleName_normalize (names key other behind')
    rw [← fileOf, meant, again] at named'
    exact elsewhere (Option.some.inj named').symm

private theorem removeFile_of_not_spelled (path : s.index.searchPath.IsNormal)
    (names : s.index.NamesFiles) (lib : Library) (behind : s.index.fileOf? name = some file)
    (detour : file.same (s.fileOf file) = false) : s.removeFile lib file = (.ok false, s) := by
  refine removeFile_of_not_provided lib (path.moduleName_normalize (names name file behind)) ?_
  have parts : file.components ≠ (s.fileOf file).components := beq_eq_false_iff_ne.mp detour
  rw [behind]
  exact beq_eq_false_iff_ne.mpr parts.symm

end State

namespace Engine

/-- Whatever keys an index is made from: the reserved names are there without a file, any other name
has the first of its keys whose file the search path names so, and the number that is told is that of
the entries. The removal of the file of an entry succeeds and leaves no entry with the file, if the
key spells the file as a normal path; otherwise it finds nothing. A name is empty if a key without a
name has a file that the search path gives no name, such as a root. -/
theorem restored_index_follows_keys (e : Engine) {cwd : Path} (home : cwd.isAbsolute)
    (text : String) (keys : List ModuleKey) :
    let s := SearchPath.parse cwd text
    let after := (e.restore cwd text keys).2
    let i := after.state.index
    i.searchPath = s ∧ NameMap.Ordered i.modules ∧ (e.restore cwd text keys).1 = i.size ∧
    (∀ name, Builtin.isReserved name → i.get? name = some (.placeholder ⟨name, none⟩)) ∧
    (∀ name, Builtin.isReserved name = false → i.get? name =
      (keys.find? fun key => key.name = name && s.admits key).map .placeholder) ∧
    (∀ name m, Builtin.isReserved name = false → i.get? name = some m →
      ∃ file, m = .placeholder ⟨name, some file⟩ ∧ s.moduleName file = some name ∧
        ∀ lib,
          (file.same (Path.normalize cwd file) →
            ∃ t, after.state.removeFile lib file = (.ok true, t) ∧
              t.index.files.any file.same = false) ∧
          (file.same (Path.normalize cwd file) = false →
            after.state.removeFile lib file = (.ok false, after.state))) ∧
    (i.contains "" ↔ ∃ key ∈ keys, key.name = "" ∧ s.admits key) := by
  intro s after i
  have entries (name : String) := Index.get?_ofKeys s keys name
  have ordered : NameMap.Ordered i.modules := Index.ordered_ofKeys s keys
  have names : i.NamesFiles := Index.namesFiles_ofKeys s keys
  have path : s.IsNormal := SearchPath.isNormal_parse home text
  refine ⟨rfl, ordered, rfl, fun name reserved => ?_, fun name free => ?_,
    fun name m free found => ?_, ?_⟩
  · exact (entries name).trans (if_pos reserved)
  · exact (entries name).trans (if_neg (Bool.eq_false_iff.mp free))
  · obtain ⟨file, rfl, named⟩ := Index.exists_key_of_get?_ofKeys free found
    have behind : i.fileOf? name = some file := Option.bind_eq_some_iff.mpr ⟨_, found, rfl⟩
    exact ⟨file, rfl, named, fun lib =>
      ⟨State.removeFile_of_spelled path ordered names lib behind,
        State.removeFile_of_not_spelled path names lib behind⟩⟩
  · have nameless : i.get? "" = (keys.find? fun key => key.name = "" && s.admits key).map
        .placeholder := (entries "").trans (if_neg (by decide))
    change (i.get? "").isSome ↔ _
    rw [nameless, Option.isSome_map, List.find?_isSome]
    simp only [Bool.and_eq_true, decide_eq_true_eq]

theorem restored_index_follows_keys_of_damaged_list :
    let keys : List ModuleKey :=
      [⟨"x", some ⟨"/r/x.pyw"⟩⟩, ⟨"sys", some ⟨"/r/sys.py"⟩⟩, ⟨"x", some ⟨"/r/x.py"⟩⟩,
        ⟨"y", some ⟨"/s/y.py"⟩⟩, ⟨"p.z", some ⟨"/r//p/./z.py"⟩⟩]
    let lib : Library := ⟨⟨fun _ => .ok "", fun _ => false⟩, fun _ => .ok []⟩
    let after := ((initial {} ⟨"/"⟩).restore ⟨"/"⟩ "/r" keys).2
    (⟨"/"⟩ : Path).isAbsolute ∧
      ((initial {} ⟨"/"⟩).restore ⟨"/"⟩ "/r" keys).1 = 4 ∧
      after.state.index.get? "sys" = some (.placeholder ⟨"sys", none⟩) ∧
      after.state.index.get? "x" = some (.placeholder ⟨"x", some ⟨"/r/x.pyw"⟩⟩) ∧
      ∃ t, after.state.removeFile lib ⟨"/r//p/./z.py"⟩ = (.ok true, t) ∧
        t.index.files.any (Path.same ⟨"/r//p/./z.py"⟩) = false := by
  intro keys lib after
  have home : (⟨"/"⟩ : Path).isAbsolute := by decide
  obtain ⟨-, -, count, reserved, first, entry, -⟩ :=
    restored_index_follows_keys (initial {} ⟨"/"⟩) home "/r" keys
  have chosen : (keys.find? fun key =>
      key.name = "x" && (SearchPath.parse ⟨"/"⟩ "/r").admits key) =
        some ⟨"x", some ⟨"/r/x.pyw"⟩⟩ := by decide +kernel
  have later : (keys.find? fun key =>
      key.name = "p.z" && (SearchPath.parse ⟨"/"⟩ "/r").admits key) =
        some ⟨"p.z", some ⟨"/r//p/./z.py"⟩⟩ := by decide +kernel
  have found := first "p.z" (by decide)
  rw [later] at found
  obtain ⟨file, same, -, removed⟩ := entry "p.z" _ (by decide) found
  obtain rfl : (⟨"/r//p/./z.py"⟩ : Path) = file := by simpa using same
  refine ⟨home, count.trans (by decide +kernel), reserved "sys" (by decide), ?_,
    (removed lib).1 (by decide +kernel)⟩
  rw [first "x" (by decide), chosen]
  rfl

/-- A root stands in the index under the empty name, and the removal of a file by the spelling that
its key has finds nothing. -/
theorem restored_root_and_detour :
    let keys : List ModuleKey := [⟨"", some ⟨"/r"⟩⟩, ⟨"x", some ⟨"/r/p/../x.py"⟩⟩]
    let lib : Library := ⟨⟨fun _ => .ok "", fun _ => false⟩, fun _ => .ok []⟩
    let after := ((initial {} ⟨"/"⟩).restore ⟨"/"⟩ "/r" keys).2
    let left := after.state.removeFile lib ⟨"/r/p/../x.py"⟩
    after.state.index.fileOf? "" = some ⟨"/r"⟩ ∧
      after.state.index.fileOf? "x" = some ⟨"/r/p/../x.py"⟩ ∧
      left.1.toOption = some false ∧ left.2.index.fileOf? "x" = some ⟨"/r/p/../x.py"⟩ := by
  decide +kernel

end Engine

end ImportAtlas
