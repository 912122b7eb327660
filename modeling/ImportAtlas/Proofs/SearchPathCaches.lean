import ImportAtlas.Cache.Frame
import ImportAtlas.Proofs.DiskDirs
import ImportAtlas.Proofs.Storing

/-!
Keys of many lists of roots that are stored below one directory. The digits that name the directory of
a list do not tell all lists apart. Still a list never gets the keys of another one: keys are found
for it if and only if the last ones stored in its directory were for the same roots.
-/

set_option autoImplicit false

namespace ImportAtlas

private theorem Path.child_injective (p : Path) {a b : String} (h : IsName a) (h' : IsName b)
    (same : p.child a = p.child b) : a = b := by
  rw [child_of_isName p h, child_of_isName p h', Path.mk.injEq] at same
  exact (String.append_right_inj _).mp same

namespace Cache

def versionDirectory (home : Path) : Path :=
  home.child ("v" ++ Text.decimal version)

private theorem isName_version : Path.IsName ("v" ++ Text.decimal version) := by
  decide +kernel

def directoryName (roots : List Path) : String :=
  "searchpath-" ++ fingerprint roots

private theorem directory_eq (home : Path) (roots : List Path) :
    directory home roots = (versionDirectory home).child (directoryName roots) :=
  rfl

private theorem not_mem_hexChars (bytes : List UInt8) : '/' ∉ Text.hexChars bytes := by
  have digits : ∀ d < 16, Text.hexChar d ≠ '/' := by decide
  intro inside
  obtain ⟨b, -, member⟩ := List.mem_flatMap.mp inside
  have small : b.toNat < 256 := b.toNat_lt
  rcases List.mem_cons.mp member with high | member
  · exact digits _ (by omega) high.symm
  · exact digits _ (by omega) (List.mem_singleton.mp member).symm

private theorem toList_directoryName (roots : List Path) :
    (directoryName roots).toList = 's' :: 'e' :: 'a' :: "rchpath-".toList ++
      Text.hexChars ((Digest.digest (rootOctets roots)).take 8) := by
  simp [directoryName, fingerprint]

private theorem isName_directoryName (roots : List Path) : Path.IsName (directoryName roots) := by
  have differs : ∀ text : String, text.toList.length ≤ 2 → directoryName roots ≠ text := by
    intro text short equal
    rw [← equal, toList_directoryName] at short
    simp at short
  refine ⟨differs _ (by decide), differs _ (by decide), differs _ (by decide), ?_⟩
  rw [toList_directoryName]
  simp [not_mem_hexChars]

private theorem directoryName_not_mem_fileNames (roots : List Path) :
    directoryName roots ∉ fileNames := by
  have starts : ∀ name ∈ fileNames, name.toList.head? = some 'm' := by decide
  intro member
  have start := starts _ member
  rw [toList_directoryName] at start
  simp at start

private theorem directory_eq_iff {home : Path} {roots roots' : List Path} :
    directory home roots = directory home roots' ↔ directoryName roots = directoryName roots' := by
  refine ⟨fun same => ?_, fun same => by rw [directory_eq, directory_eq, same]⟩
  exact Path.child_injective _ (isName_directoryName roots) (isName_directoryName roots') same

/-! The place of all directories. -/

/-- What is known of a file system before anything has been stored below a directory: the directory
of all lists can be made, and nothing stands in it then. -/
structure Fresh (home : Path) (disk made : Disk) (place : Location) : Prop where
  making : disk.makeDirs (versionDirectory home) = some made
  located : made.locate (versionDirectory home) = .ok (place, some .dir)
  vacant : ∀ entry ∈ made.entries, place <+: entry.1 → entry.1 = place

/-- Whether only files stand where saves put files, and no directory of a list is a link. -/
structure Tidy (place : Location) (d : Disk) : Prop where
  files : ∀ entry ∈ d.entries, ∀ dir, ∀ name ∈ fileNames, place ++ [dir, name] <+: entry.1 →
    entry.2.isFile
  links : ∀ entry ∈ d.entries, ∀ dir, entry.1 = place ++ [dir] → ∀ target, entry.2 ≠ .link target

variable {home : Path} {disk made d after : Disk} {place : Location}

private theorem last_eq_of_append_eq {around : Location} {dir dir' name : String}
    (same : place ++ [dir', name] = around ++ [dir]) : name = dir := by
  have last := congrArg List.getLast? same
  simpa using last

private theorem Fresh.tidy (fresh : Fresh home disk made place) : Tidy place made := by
  constructor
  · intro entry member dir name _ below
    have equal := fresh.vacant entry member ((List.prefix_append _ _).trans below)
    have longer := below.length_le
    simp only [equal, List.length_append, List.length_cons, List.length_nil] at longer
    omega
  · intro entry member dir equal
    have shorter := fresh.vacant entry member (equal ▸ List.prefix_append _ _)
    rw [equal] at shorter
    simp at shorter

namespace Tidy

private theorem put (h : Tidy place d) {location : Location} {entry : Entry}
    (file : ∀ dir, ∀ name ∈ fileNames, place ++ [dir, name] <+: location → entry.isFile)
    (solid : ∀ target, entry ≠ .link target) : Tidy place (d.put location entry) := by
  constructor
  · intro other member
    rcases Disk.mem_entries_put member with old | rfl
    · exact h.files other old
    · exact file
  · intro other member dir equal target
    rcases Disk.mem_entries_put member with old | rfl
    · exact h.links other old dir equal target
    · exact solid target

private theorem dropTree (h : Tidy place d) (location : Location) :
    Tidy place (d.dropTree location) := by
  have old : ∀ entry ∈ (d.dropTree location).entries, entry ∈ d.entries := by
    intro entry member
    rw [Disk.entries_dropTree] at member
    exact (List.mem_filter.mp member).1
  exact ⟨fun entry member => h.files entry (old entry member),
    fun entry member => h.links entry (old entry member)⟩

private theorem placing (h : Tidy place d) (around : Location) (beside name : String)
    (bytes : List UInt8) : Tidy place (d.placing around beside name bytes) :=
  ((h.put (fun _ _ _ _ => rfl) (by simp)).dropTree _).put (fun _ _ _ _ => rfl) (by simp)

private theorem put_dir (h : Tidy place d) {around : Location} {dir : String}
    (solid : d.Solid around) (other : dir ∉ fileNames) : Tidy place
    (d.put (around ++ [dir]) .dir) := by
  refine h.put (fun dir' name known below => ?_) (by simp)
  exfalso
  rcases List.prefix_concat_iff.mp below with same | above
  · exact other (last_eq_of_append_eq same ▸ known)
  · have stands := Disk.mem_of_entryAt (by simp) (solid _ above)
    exact absurd (h.files _ stands dir' name known (List.prefix_refl _)) (by simp [Entry.isFile])

private theorem ne_link (h : Tidy place d) (dir : String) (target : Path) :
    d.entryAt (place ++ [dir]) ≠ some (.link target) := fun found =>
  h.links _ (Disk.mem_of_entryAt (by simp) found) dir rfl target rfl

private theorem ne_link_file (h : Tidy place d) (dir : String) {name : String}
    (known : name ∈ fileNames) (target : Path) : d.entryAt (place ++ [dir] ++ [name]) ≠ some
    (.link target) := by
  intro found
  rw [List.append_assoc] at found
  exact absurd (h.files _ (Disk.mem_of_entryAt (by simp) found) dir name known (List.prefix_refl _))
    (by simp [Entry.isFile])

end Tidy

private theorem tidy_of_makeDirs {m : Disk} {dir : String} (tidy : Tidy place m)
    (other_name : dir ∉ fileNames)
    (h : d = m ∨ ∃ around, m.Solid around ∧ m.entryAt (around ++ [dir]) = none ∧
      d = m.put (around ++ [dir]) .dir) :
    m.Within d ∧ Tidy place d ∧ ∀ other, other ≠ dir →
      d.entryAt (place ++ [other]) = m.entryAt (place ++ [other]) ∧
        ∀ name ∈ fileNames,
          d.entryAt (place ++ [other, name]) = m.entryAt (place ++ [other, name]) := by
  rcases h with rfl | ⟨around, solid, absent, rfl⟩
  · exact ⟨.refl _, tidy, fun _ _ => ⟨rfl, fun _ _ => rfl⟩⟩
  · refine ⟨.put_of_none absent .dir, tidy.put_dir solid other_name, fun other different => ⟨?_, ?_⟩⟩
    · have apart : place ++ [other] ≠ around ++ [dir] := fun same =>
        different (List.cons.inj (List.append_inj_right' same rfl)).1
      rw [Disk.entryAt_put_other apart]
    · intro name known
      have apart : place ++ [other, name] ≠ around ++ [dir] := fun same =>
        other_name (last_eq_of_append_eq same ▸ known)
      rw [Disk.entryAt_put_other apart]

private theorem placing_of_runSteps {dir : String} {keys notes : List UInt8}
    (fresh : Fresh home disk made place) (within : made.Within d) (tidy : Tidy place d)
    (named : Path.IsName dir)
    (ran : runSteps [
      .write (((versionDirectory home).child dir).child modulesBeside) keys,
      .move (((versionDirectory home).child dir).child modulesBeside)
        (((versionDirectory home).child dir).child modulesName),
      .write (((versionDirectory home).child dir).child metadataBeside) notes,
      .move (((versionDirectory home).child dir).child metadataBeside)
        (((versionDirectory home).child dir).child metadataName)] d = (.ok (), after)) :
    d.Within after ∧ d.entryAt (place ++ [dir]) = some .dir ∧
      d.Reaches ((versionDirectory home).child dir) (place ++ [dir]) ∧
      after = (d.placing (place ++ [dir]) modulesBeside modulesName keys).placing (place ++ [dir])
        metadataBeside metadataName notes := by
  obtain ⟨d₁, d₂, written, moved, ran⟩ := exists_of_runSteps_place ran
  obtain ⟨d₃, d₄, written', moved', ran⟩ := exists_of_runSteps_place ran
  obtain rfl : d₄ = after := (Prod.mk.inj ran).2
  have known : ∀ name ∈ fileNames, Path.IsName name := isName_of_mem_fileNames
  obtain ⟨solid, reaches⟩ := Disk.reaches_of_writeFile isName_version within fresh.located named
    (known _ (by decide)) (tidy.ne_link dir) written
  -- The directory is reached without its files, so it still is when they have been replaced.
  have without : d.Within (d.without (place ++ [dir]) fileNames) := by
    refine Disk.within_without_of_files fun entry member name among below => ?_
    rw [List.append_assoc] at below
    exact tidy.files entry member dir name among below
  have base := reaches.mono without
  have vacant : ∀ name ∈ fileNames,
      (d.without (place ++ [dir]) fileNames).Vacant (place ++ [dir] ++ [name]) :=
    fun name among => d.vacant_without (place ++ [dir]) among
  obtain ⟨within₂, rfl⟩ := base.placing_eq (d.within_without (place ++ [dir]) fileNames)
    (known _ (by decide)) (known _ (by decide)) (vacant _ (by decide)) (vacant _ (by decide))
    (tidy.ne_link_file dir (by decide)) written moved
  have tidy₂ := tidy.placing (place ++ [dir]) modulesBeside modulesName keys
  obtain ⟨within₄, rfl⟩ := base.placing_eq within₂
    (known _ (by decide)) (known _ (by decide)) (vacant _ (by decide)) (vacant _ (by decide))
    (tidy₂.ne_link_file dir (by decide)) written' moved'
  exact ⟨without.trans within₄, solid, reaches, rfl⟩

structure Stored (home : Path) (place : Location) (roots : List Path) (keys notes : List UInt8)
    (d : Disk) : Prop where
  reaches : d.Reaches (directory home roots) (place ++ [directoryName roots])
  modules : d.entryAt (place ++ [directoryName roots, modulesName]) = some (.file keys)
  metadata : d.entryAt (place ++ [directoryName roots, metadataName]) = some (.file notes)

/-- What a save changes: it puts its two files in their places, and leaves the other directories
alone. -/
structure Saves (home : Path) (place : Location) (roots : List Path) (keys notes : List UInt8)
    (d after : Disk) : Prop where
  within : d.Within after
  tidy : Tidy place after
  stored : Stored home place roots keys notes after
  elsewhere : ∀ other, other ≠ directoryName roots →
    after.entryAt (place ++ [other]) = d.entryAt (place ++ [other]) ∧
      ∀ name ∈ fileNames, after.entryAt (place ++ [other, name]) = d.entryAt (place ++ [other, name])

private theorem saves_of_save [Compression] {m : Disk} {time : Time} {roots : List Path}
    {keys : List ModuleKey} {dir : Path}
    (fresh : Fresh home disk made place) (within : made.Within m) (tidy : Tidy place m)
    (remade : ∀ m', d.makeDirs (versionDirectory home) = some m' → m' = m)
    (saved : save home time roots keys d = (.ok dir, after)) :
    Saves home place roots (Compression.pack (KeyCodec.encode keys))
      (Text.octets (notes time roots keys).print) m after := by
  have ran := runSteps_of_save saved
  rw [saveSteps, placeSteps_modules, placeSteps_metadata, directory_eq] at ran
  obtain ⟨d₁, making, ran⟩ := runSteps_cons_eq_ok ran
  simp only [Step.run] at making
  obtain ⟨m', made_there, added⟩ := Disk.makeDirs_child (isName_directoryName roots) making
  obtain rfl := remade m' made_there
  obtain ⟨within₁, tidy₁, elsewhere⟩ :=
    tidy_of_makeDirs tidy (directoryName_not_mem_fileNames roots) added
  obtain ⟨within₂, solid, reaches, rfl⟩ := placing_of_runSteps fresh (within.trans within₁) tidy₁
    (isName_directoryName roots) ran
  have split : ∀ other name, place ++ [other, name] = place ++ [other] ++ [name] := by simp
  refine ⟨within₁.trans within₂, (tidy₁.placing _ _ _ _).placing _ _ _ _,
    ⟨reaches.mono within₂, ?_, ?_⟩, fun other different => ?_⟩
  · rw [split, Disk.entryAt_placing_other _ _ _ (by decide) (by decide)]
    exact Disk.entryAt_placing_self _ _ _ (reaches.possible (by decide))
  · rw [split]
    exact Disk.entryAt_placing_self _ _ _ (reaches.possible (by decide))
  · have apart : ∀ rest, ¬place ++ [directoryName roots] <+: place ++ other :: rest := by
      intro rest
      rw [List.prefix_append_right_inj]
      simpa using Ne.symm different
    obtain ⟨same, files⟩ := elsewhere other different
    refine ⟨?_, fun name known => ?_⟩
    · rw [Disk.entryAt_placing_elsewhere _ _ _ _ (apart []),
        Disk.entryAt_placing_elsewhere _ _ _ _ (apart []), same]
    · rw [Disk.entryAt_placing_elsewhere _ _ _ _ (apart [name]),
        Disk.entryAt_placing_elsewhere _ _ _ _ (apart [name]), files name known]

/-! What is found. -/

section Found

variable [Compression]

/-- Keys are found in a directory for the roots for which they were stored, and no others. -/
theorem load_iff_of_stored {time : Time} {roots asked : List Path} {keys found : List ModuleKey}
    (valid : time.Valid) (few : keys.length < UInt64.size) (fits : ∀ key ∈ keys, KeyCodec.Fits key)
    (stored : Stored home place roots (Compression.pack (KeyCodec.encode keys))
      (Text.octets (notes time roots keys).print) d)
    (shared : directory home roots = directory home asked) :
    load home asked d = .ok found ↔
      roots.map Path.components = asked.map Path.components ∧ keys = found := by
  have split : ∀ dir name, place ++ [dir, name] = place ++ [dir] ++ [name] := by simp
  have modules : d.read (modulesFile home asked) = .ok (Compression.pack (KeyCodec.encode keys)) := by
    rw [modulesFile, ← shared]
    exact stored.reaches.read_eq (by decide) (split _ _ ▸ stored.modules)
  have metadata : d.read (metadataFile home asked) =
      .ok (Text.octets (notes time roots keys).print) := by
    rw [metadataFile, ← shared]
    exact stored.reaches.read_eq (by decide) (split _ _ ▸ stored.metadata)
  rw [← sameRoots_iff, load_of_read valid few few fits modules metadata]
  cases sameRoots roots asked with
  | true => simp
  | false => simp

theorem load_of_unread {asked : List Path}
    (unread : ∀ bytes, d.read (metadataFile home asked) ≠ .ok bytes) :
    load home asked d = .error (.noMetadata (directory home asked)) := by
  cases reads : d.read (metadataFile home asked) with
  | error cause =>
    have noted : loadMetadata home asked d = .error (.noMetadata (directory home asked)) := by
      unfold loadMetadata
      rw [reads]
    rw [load, noted]
    rfl
  | ok bytes => exact absurd reads (unread bytes)

private theorem load_ne_ok_of_missing {d' : Disk} {asked : List Path}
    (fresh : Fresh home disk made place) (within : made.Within d') (more : d.Within d')
    (missing : d'.entryAt (place ++ [directoryName asked]) = none) (found : List ModuleKey) :
    load home asked d ≠ .ok found := by
  have named : Path.IsName metadataName := by decide
  have lost := Disk.locateWith_of_missing isName_version within fresh.located
    (isName_directoryName asked) missing named false
  have unread : ∀ bytes, d.read (metadataFile home asked) ≠ .ok bytes := by
    rw [metadataFile, directory_eq]
    exact Disk.read_ne_ok_of_missing named more lost
  rw [load_of_unread unread]
  simp only [ne_eq, reduceCtorEq, not_false_eq_true]

end Found

/-! One save after the other. -/

structure SaveCall where
  time : Time
  roots : List Path
  keys : List ModuleKey

structure SaveCall.Valid (c : SaveCall) : Prop where
  time : c.time.Valid
  few : c.keys.length < UInt64.size
  fits : ∀ key ∈ c.keys, KeyCodec.Fits key

def SaveCall.run [Compression] (home : Path) (c : SaveCall) (disk : Disk) : Option Disk :=
  match save home c.time c.roots c.keys disk with
  | (.ok _, after) => some after
  | (.error _, _) => none

def SaveCall.runAll [Compression] (home : Path) (calls : List SaveCall) (disk : Disk) :
    Option Disk :=
  calls.foldlM (fun d c => c.run home d) disk

theorem SaveCall.exists_of_run [Compression] {c : SaveCall} (h : c.run home d = some after) :
    ∃ dir, save home c.time c.roots c.keys d = (.ok dir, after) := by
  unfold run at h
  split at h
  · rename_i dir final saved
    obtain rfl := Option.some.inj h
    exact ⟨dir, saved⟩
  · exact absurd h (by simp)

/-- The last of some calls that has stored keys in the directory of a list of roots. -/
def lastInto (home : Path) (calls : List SaveCall) (roots : List Path) : Option SaveCall :=
  (calls.filter fun c => directory home c.roots = directory home roots).getLast?

private theorem lastInto_append (calls : List SaveCall) (c : SaveCall) (roots : List Path) :
    lastInto home (calls ++ [c]) roots =
      if directory home c.roots = directory home roots then some c
      else lastInto home calls roots := by
  unfold lastInto
  rw [List.filter_append]
  split
  · rename_i same
    simp [same]
  · rename_i different
    simp [different]

private theorem directory_of_lastInto {calls : List SaveCall} {roots : List Path} {c : SaveCall}
    (h : lastInto home calls roots = some c) :
    c ∈ calls ∧ directory home c.roots = directory home roots := by
  have member := List.mem_filter.mp (List.mem_of_getLast? h)
  exact ⟨member.1, of_decide_eq_true member.2⟩

section Saves

variable [Compression]

/-- What stands below the directory of all lists after some calls: in the directory of each list what
the last call into it has stored. -/
structure Holds (home : Path) (made : Disk) (place : Location) (calls : List SaveCall) (d : Disk) :
    Prop where
  within : made.Within d
  tidy : Tidy place d
  stored : ∀ roots c, lastInto home calls roots = some c →
    Stored home place c.roots (Compression.pack (KeyCodec.encode c.keys))
      (Text.octets (notes c.time c.roots c.keys).print) d
  missing : ∀ roots, lastInto home calls roots = none →
    d.entryAt (place ++ [directoryName roots]) = none

private theorem Fresh.holds (fresh : Fresh home disk made place) :
    Holds home made place [] made := by
  refine ⟨.refl made, fresh.tidy, by simp [lastInto], fun roots _ => ?_⟩
  cases found : made.entryAt (place ++ [directoryName roots]) with
  | none => rfl
  | some entry =>
    have stands := Disk.mem_of_entryAt (by simp) found
    have equal := fresh.vacant _ stands (List.prefix_append _ _)
    simp at equal

private theorem Holds.save {calls : List SaveCall} {c : SaveCall} {m : Disk}
    (h : Holds home made place calls m)
    (saved : Saves home place c.roots (Compression.pack (KeyCodec.encode c.keys))
      (Text.octets (notes c.time c.roots c.keys).print) m after) :
    Holds home made place (calls ++ [c]) after := by
  refine ⟨h.within.trans saved.within, saved.tidy, ?_, ?_⟩
  · intro roots last latest
    rw [lastInto_append] at latest
    split at latest
    · obtain rfl := Option.some.inj latest
      exact saved.stored
    · rename_i different
      obtain ⟨-, same⟩ := directory_of_lastInto latest
      -- The last call into another directory, so this save leaves its two files alone.
      have other : directoryName last.roots ≠ directoryName c.roots := fun equal =>
        different ((directory_eq_iff.mpr equal).symm.trans same)
      have old := h.stored roots last latest
      obtain ⟨-, files⟩ := saved.elsewhere _ other
      exact ⟨old.reaches.mono saved.within, (files _ (by decide)).trans old.modules,
        (files _ (by decide)).trans old.metadata⟩
  · intro roots absent
    rw [lastInto_append] at absent
    split at absent
    · simp at absent
    · rename_i different
      have other : directoryName roots ≠ directoryName c.roots := fun equal =>
        different (directory_eq_iff.mpr equal.symm)
      rw [(saved.elsewhere _ other).1]
      exact h.missing roots absent

/-- After a run of calls: `m` is what making the directory of all lists leaves, which changes nothing
once there has been a call. -/
theorem holds_of_calls (fresh : Fresh home disk made place) (calls : List SaveCall)
    (completed : SaveCall.runAll home calls disk = some after) :
    ∃ m, Holds home made place calls m ∧ after.Within m ∧
      (∀ m', after.makeDirs (versionDirectory home) = some m' → m' = m) ∧
      (calls ≠ [] → m = after) := by
  -- `m` stands for the file system in the middle of the next call: only the first call makes the
  -- directory of all lists, and what it leaves is not known before.
  induction calls using List.reverseRecOn generalizing after with
  | nil =>
    obtain rfl := Option.some.inj completed
    refine ⟨made, fresh.holds, Disk.within_makeDirs fresh.making, fun m' again => ?_, by simp⟩
    exact Option.some.inj (again.symm.trans fresh.making)
  | append_singleton calls c ih =>
    rw [SaveCall.runAll, List.foldlM_append] at completed
    obtain ⟨d, before, last⟩ := Option.bind_eq_some_iff.mp completed
    obtain ⟨m, holds, -, remade, -⟩ := ih before
    rw [List.foldlM_cons] at last
    obtain ⟨next, ran, same⟩ := Option.bind_eq_some_iff.mp last
    obtain rfl : after = next := (Option.some.inj same).symm
    obtain ⟨dir, saved⟩ := SaveCall.exists_of_run ran
    have whole := holds.save (saves_of_save fresh holds.within holds.tidy remade saved)
    exact ⟨after, whole, .refl after,
      fun m' again => Disk.makeDirs_again fresh.making whole.within again, fun _ => rfl⟩

/-- Keys are found for a list of roots if and only if the last ones stored in its directory were for
the same roots, and these are the keys that are found. Nothing is known here of the digits that name
the directory but that they are digits. -/
theorem load_iff_last_save (fresh : Fresh home disk made place) {calls : List SaveCall}
    (valid : ∀ c ∈ calls, c.Valid)
    (completed : SaveCall.runAll home calls disk = some after) (roots : List Path)
    (keys : List ModuleKey) :
    load home roots after = .ok keys ↔
      ∃ c, lastInto home calls roots = some c ∧
        c.roots.map Path.components = roots.map Path.components ∧ c.keys = keys := by
  obtain ⟨m, holds, more, -, settled⟩ := holds_of_calls fresh calls completed
  cases last : lastInto home calls roots with
  | none =>
    have absent := load_ne_ok_of_missing fresh holds.within more (holds.missing roots last) keys
    simp [absent]
  | some c =>
    obtain ⟨member, shared⟩ := directory_of_lastInto last
    obtain rfl := settled (List.ne_nil_of_mem member)
    obtain ⟨time, few, fits⟩ := valid c member
    rw [load_iff_of_stored time few fits (holds.stored roots c last) shared]
    simp

end Saves

theorem load_iff_last_save_for_shared_directory :
    let first : SaveCall := ⟨⟨0, 0⟩, [⟨"/a\x00/b"⟩], [⟨"x", none⟩]⟩
    let second : SaveCall := ⟨⟨0, 0⟩, [⟨"/a"⟩, ⟨"/b"⟩], [⟨"y", some ⟨"/b/y.py"⟩⟩]⟩
    directory ⟨"/c"⟩ first.roots = directory ⟨"/c"⟩ second.roots ∧
      ∃ after, SaveCall.runAll ⟨"/c"⟩ [first, second] (.ofHome ⟨"/"⟩) = some after ∧
        (∀ keys, load ⟨"/c"⟩ first.roots after ≠ .ok keys) ∧
        load ⟨"/c"⟩ second.roots after = .ok second.keys := by
  intro first second
  have octets : rootOctets first.roots = rootOctets second.roots := by decide
  have shared : directory ⟨"/c"⟩ first.roots = directory ⟨"/c"⟩ second.roots := by
    rw [directory, directory, fingerprint, fingerprint, octets]
  have fresh : Fresh ⟨"/c"⟩ (Disk.ofHome ⟨"/"⟩)
      (.ofEntries ⟨"/"⟩ [([], .dir), (["c"], .dir), (["c", "v1"], .dir)]) ["c", "v1"] :=
    ⟨by decide +kernel, by decide +kernel, by decide⟩
  have valid : ∀ c ∈ [first, second], c.Valid := by
    refine List.forall_mem_cons.mpr ⟨?_, List.forall_mem_singleton.mpr ?_⟩
    · exact ⟨⟨by decide, by decide⟩, by decide, by decide⟩
    · exact ⟨⟨by decide, by decide⟩, by decide, by decide⟩
  have finished : (SaveCall.runAll ⟨"/c"⟩ [first, second] (.ofHome ⟨"/"⟩)).isSome := by
    decide +kernel
  obtain ⟨after, completed⟩ := Option.isSome_iff_exists.mp finished
  have found := load_iff_last_save fresh valid completed
  have latest : ∀ roots, directory ⟨"/c"⟩ second.roots = directory ⟨"/c"⟩ roots →
      lastInto ⟨"/c"⟩ [first, second] roots = some second :=
    fun roots same => (lastInto_append [first] second roots).trans (if_pos same)
  refine ⟨shared, after, completed, fun keys loaded => ?_, ?_⟩
  · obtain ⟨c, last, same, -⟩ := (found _ keys).mp loaded
    rw [latest _ shared.symm] at last
    obtain rfl := Option.some.inj last
    exact absurd same (by decide)
  · exact (found _ _).mpr ⟨second, latest _ rfl, rfl, rfl⟩

end Cache

end ImportAtlas
