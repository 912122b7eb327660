import ImportAtlas.Cache.Store
import ImportAtlas.Proofs.DiskDirs
import ImportAtlas.Proofs.Naming
import ImportAtlas.Proofs.StoredKeys
import ImportAtlas.Proofs.StoredNotes

/-!
Keys that have been stored for a list of roots are found again, unless their files are written through
a link or stand on the way to themselves.
-/

set_option autoImplicit false

namespace ImportAtlas

namespace Cache

def modulesBeside : String := "modules.bin.tmp"

def metadataBeside : String := "metadata.tmp"

def fileNames : List String :=
  [modulesBeside, modulesName, metadataBeside, metadataName]

theorem isName_of_mem_fileNames : ∀ name ∈ fileNames, Path.IsName name := by
  decide

/-- Whether the files of a directory can be put in their places there: none of them is first written
through a link, and the way into the directory does not lead through one of them. -/
def Unobstructed (dir : Path) (disk : Disk) : Prop :=
  ∀ made, disk.makeDirs dir = some made →
    (∀ name ∈ [modulesBeside, metadataBeside], made.isLink (dir.child name) = false) ∧
      made.Avoids dir fileNames

instance (dir : Path) (disk : Disk) : Decidable (Unobstructed dir disk) :=
  decidable_of_iff (∀ made ∈ disk.makeDirs dir,
    (∀ name ∈ [modulesBeside, metadataBeside], made.isLink (dir.child name) = false) ∧
      made.Avoids dir fileNames) Iff.rfl

theorem placeSteps_modules (home : Path) (roots : List Path) (content : List UInt8) :
    placeSteps (modulesFile home roots) content =
      [.write ((directory home roots).child modulesBeside) content,
        .move ((directory home roots).child modulesBeside)
          ((directory home roots).child modulesName)] := by
  have beside : (modulesFile home roots).withExtension "tmp" =
      (directory home roots).child modulesBeside :=
    Path.withExtension_child_stem _ (by decide) (by decide) (by decide)
  rw [placeSteps, beside]
  rfl

theorem placeSteps_metadata (home : Path) (roots : List Path) (content : List UInt8) :
    placeSteps (metadataFile home roots) content =
      [.write ((directory home roots).child metadataBeside) content,
        .move ((directory home roots).child metadataBeside)
          ((directory home roots).child metadataName)] := by
  have beside : (metadataFile home roots).withExtension "tmp" =
      (directory home roots).child metadataBeside :=
    Path.withExtension_child_stem _ (by decide) (by decide) (by decide)
  rw [placeSteps, beside]
  rfl

theorem runSteps_cons_eq_ok {step : Step} {rest : List Step} {disk after : Disk}
    (h : runSteps (step :: rest) disk = (.ok (), after)) :
    ∃ next, step.run disk = some next ∧ runSteps rest next = (.ok (), after) := by
  simp only [runSteps] at h
  cases done : step.run disk with
  | none =>
    rw [done] at h
    exact absurd (Prod.mk.inj h).1 (by simp)
  | some next =>
    rw [done] at h
    exact ⟨next, rfl, h⟩

private theorem cwd_of_writeFile {disk after : Disk} {file : Path} {content : List UInt8}
    (h : disk.writeFile file content = some after) : after.cwd = disk.cwd := by
  obtain ⟨location, _, -, -, rfl⟩ := Disk.exists_place_of_writeFile h
  exact Disk.cwd_put _ _ _

private theorem cwd_run {step : Step} {disk after : Disk} (h : step.run disk = some after) :
    after.cwd = disk.cwd := by
  cases step with
  | makeDirs dir => exact (Disk.within_makeDirs h).cwd
  | write file content => exact cwd_of_writeFile h
  | move file target =>
    simp only [Step.run, Disk.rename] at h
    split at h
    · split at h
      · exact absurd h (by simp)
      · obtain rfl := Option.some.inj h
        exact Disk.cwd_put _ _ _
    · exact absurd h (by simp)

private theorem cwd_runSteps (steps : List Step) (disk : Disk) :
    (runSteps steps disk).2.cwd = disk.cwd := by
  induction steps generalizing disk with
  | nil => rfl
  | cons step rest ih =>
    simp only [runSteps]
    cases done : step.run disk with
    | none => rfl
    | some next => exact (ih next).trans (cwd_run done)

theorem cwd_save [Compression] (home : Path) (time : Time) (roots : List Path)
    (keys : List ModuleKey) (disk : Disk) : (save home time roots keys disk).2.cwd = disk.cwd := by
  simp only [save]
  exact cwd_runSteps _ _

theorem sameRoots_iff {roots roots' : List Path} :
    sameRoots roots roots' = true ↔ roots.map Path.components = roots'.map Path.components := by
  induction roots generalizing roots' with
  | nil => cases roots' <;> simp [sameRoots]
  | cons root roots ih =>
    cases roots' with
    | nil => simp [sameRoots]
    | cons root' roots' => simp [sameRoots, Path.same, ih]

private theorem loadMetadata_eq {home : Path} {time : Time} {roots asked : List Path}
    {keys : List ModuleKey} {disk : Disk} (valid : time.Valid) (few : keys.length < UInt64.size)
    (stands : disk.read (metadataFile home asked) =
      .ok (Text.octets (notes time roots keys).print)) :
    loadMetadata home asked disk =
      if sameRoots roots asked then .ok (notes time roots keys)
      else .error (.incompatible (directory home asked) version) := by
  have small : version < UInt32.size := by decide
  have noted := Metadata.parse_print (m := notes time roots keys) ⟨small, valid, few⟩
  have same : (decide (version = version) && sameRoots roots asked) = sameRoots roots asked := by
    simp
  unfold loadMetadata
  rw [stands]
  dsimp only
  rw [Text.ofOctets?_octets, Option.bind_some, noted]
  dsimp only [notes]
  rw [same]

private theorem loadModules_eq [Compression] {home : Path} {roots : List Path}
    {keys : List ModuleKey} {disk : Disk} (few : keys.length < UInt64.size)
    (fits : ∀ key ∈ keys, KeyCodec.Fits key)
    (stands : disk.read (modulesFile home roots) = .ok (Compression.pack (KeyCodec.encode keys))) :
    loadModules home roots disk = .ok keys := by
  unfold loadModules
  rw [stands]
  dsimp only
  rw [Compression.unpack_pack]
  dsimp only
  rw [KeyCodec.decode_encode few fits]

/-- What is found where keys and notes can be read: the keys, if the notes are for the same roots and
for as many keys. -/
theorem load_of_read [Compression] {home : Path} {time : Time} {roots asked : List Path}
    {keys noted : List ModuleKey} {disk : Disk} (valid : time.Valid)
    (few_noted : noted.length < UInt64.size) (few : keys.length < UInt64.size)
    (fits : ∀ key ∈ keys, KeyCodec.Fits key)
    (modules : disk.read (modulesFile home asked) = .ok (Compression.pack (KeyCodec.encode keys)))
    (metadata : disk.read (metadataFile home asked) =
      .ok (Text.octets (notes time roots noted).print)) :
    load home asked disk =
      if sameRoots roots asked then
        if keys.length = noted.length then .ok keys else .error (.miscounted noted.length keys.length)
      else .error (.incompatible (directory home asked) version) := by
  have read_notes := loadMetadata_eq valid few_noted metadata
  have read_keys := loadModules_eq few fits modules
  have counted : (notes time roots noted).entryCount = noted.length := rfl
  -- The roots are compared when the notes are read, before there is a look at the keys.
  cases same : sameRoots roots asked with
  | true =>
    rw [same, if_pos rfl] at read_notes
    simp only [load, read_notes, read_keys, bind, Except.bind, counted, if_true]
  | false =>
    rw [same, if_neg Bool.false_ne_true] at read_notes
    simp only [load, read_notes, bind, Except.bind, Bool.false_eq_true, if_false]

theorem exists_of_runSteps_place {file beside : Path} {content : List UInt8} {rest : List Step}
    {disk after : Disk}
    (h : runSteps (.write beside content :: .move beside file :: rest) disk = (.ok (), after)) :
    ∃ d₁ d₂, disk.writeFile beside content = some d₁ ∧ d₁.rename beside file = some d₂ ∧
      runSteps rest d₂ = (.ok (), after) := by
  obtain ⟨d₁, written, h⟩ := runSteps_cons_eq_ok h
  obtain ⟨d₂, moved, h⟩ := runSteps_cons_eq_ok h
  exact ⟨d₁, d₂, written, moved, h⟩

/-- A directory in which a file can be written is there, and it is reached without the files that a
save replaces. -/
theorem Unobstructed.exists_reaches {dir : Path} {disk made next : Disk} {bytes : List UInt8}
    (clear : Unobstructed dir disk) (making : disk.makeDirs dir = some made)
    (written : made.writeFile (dir.child modulesBeside) bytes = some next) :
    ∃ place, made.Reaches dir place ∧ (made.without place fileNames).Reaches dir place ∧
      ∀ name ∈ [modulesBeside, metadataBeside], ∀ target,
        made.entryAt (place ++ [name]) ≠ some (.link target) := by
  obtain ⟨no_links, avoids⟩ := clear made making
  have first : Path.IsName modulesBeside := isName_of_mem_fileNames _ (by decide)
  obtain ⟨location, entry, located, -⟩ := Disk.exists_place_of_writeFile written
  obtain ⟨place, reaches⟩ :=
    @Disk.exists_reaches made true _ modulesBeside first (location, entry) located
  have among : ∀ name ∈ [modulesBeside, metadataBeside], name ∈ fileNames := by decide
  exact ⟨place, reaches, avoids.reaches reaches first (by decide), fun name member =>
    reaches.ne_link_of_isLink (isName_of_mem_fileNames name (among name member))
      (no_links name member)⟩

private theorem read_of_runSteps {dir : Path} {keys notes : List UInt8} {disk after : Disk}
    (clear : Unobstructed dir disk) (ran : runSteps [.makeDirs dir,
      .write (dir.child modulesBeside) keys,
      .move (dir.child modulesBeside) (dir.child modulesName),
      .write (dir.child metadataBeside) notes,
      .move (dir.child metadataBeside) (dir.child metadataName)] disk = (.ok (), after)) :
    after.read (dir.child modulesName) = .ok keys ∧
      after.read (dir.child metadataName) = .ok notes := by
  obtain ⟨made, making, ran⟩ := runSteps_cons_eq_ok ran
  obtain ⟨d₁, d₂, written, moved, ran⟩ := exists_of_runSteps_place ran
  obtain ⟨d₃, d₄, written', moved', ran⟩ := exists_of_runSteps_place ran
  obtain rfl : d₄ = after := (Prod.mk.inj ran).2
  have named : ∀ name ∈ fileNames, Path.IsName name := isName_of_mem_fileNames
  -- The directory is reached without its files, so it still is when they have been replaced.
  obtain ⟨place, -, base, unlinked⟩ := clear.exists_reaches making written
  have vacant : ∀ name ∈ fileNames, (made.without place fileNames).Vacant (place ++ [name]) :=
    fun name among => made.vacant_without place among
  obtain ⟨within, rfl⟩ := base.placing_eq (made.within_without place fileNames)
    (named _ (by decide)) (named _ (by decide))
    (vacant _ (by decide)) (vacant _ (by decide))
    (unlinked _ (by simp)) written moved
  have unlinked' : ∀ target, (made.placing place modulesBeside modulesName keys).entryAt
      (place ++ [metadataBeside]) ≠ some (.link target) := by
    rw [Disk.entryAt_placing_other _ _ _ (by decide) (by decide)]
    exact unlinked _ (by simp)
  obtain ⟨within', rfl⟩ := base.placing_eq within (named _ (by decide))
    (named _ (by decide)) (vacant _ (by decide))
    (vacant _ (by decide)) unlinked' written' moved'
  have reaches' := base.mono within'
  refine ⟨reaches'.read_eq (named _ (by decide)) ?_, reaches'.read_eq (named _ (by decide)) ?_⟩
  · rw [Disk.entryAt_placing_other _ _ _ (by decide) (by decide)]
    exact Disk.entryAt_placing_self _ _ _ (base.possible (named _ (by decide)))
  · exact Disk.entryAt_placing_self _ _ _ (base.possible (named _ (by decide)))

theorem runSteps_of_save [Compression] {home : Path} {time : Time} {roots : List Path}
    {keys : List ModuleKey} {disk after : Disk} {dir : Path}
    (saved : save home time roots keys disk = (.ok dir, after)) :
    runSteps (saveSteps home time roots keys) disk = (.ok (), after) := by
  rcases ran : runSteps (saveSteps home time roots keys) disk with ⟨result, final⟩
  rw [save, ran] at saved
  obtain ⟨done, rfl⟩ := Prod.mk.inj saved
  cases result with
  | error cause => exact absurd done (by simp [Except.map])
  | ok _ => rfl

private theorem read_of_save [Compression] {home : Path} {time : Time} {roots : List Path}
    {keys : List ModuleKey} {disk after : Disk} {dir : Path}
    (clear : Unobstructed (directory home roots) disk)
    (saved : save home time roots keys disk = (.ok dir, after)) :
    after.read (modulesFile home roots) = .ok (Compression.pack (KeyCodec.encode keys)) ∧
      after.read (metadataFile home roots) = .ok (Text.octets (notes time roots keys).print) := by
  have ran := runSteps_of_save saved
  rw [saveSteps, placeSteps_modules, placeSteps_metadata] at ran
  exact read_of_runSteps clear ran

theorem load_of_save [Compression] {home : Path} {time : Time} {roots : List Path}
    {keys : List ModuleKey} {disk after : Disk} {dir : Path}
    (clear : Unobstructed (directory home roots) disk)
    (saved : save home time roots keys disk = (.ok dir, after)) (valid : time.Valid)
    (few : keys.length < UInt64.size) (fits : ∀ key ∈ keys, KeyCodec.Fits key) :
    load home roots after = .ok keys := by
  obtain ⟨modules, metadata⟩ := read_of_save clear saved
  rw [load_of_read valid few few fits modules metadata, if_pos (sameRoots_iff.mpr rfl), if_pos rfl]

end Cache

end ImportAtlas
