import ImportAtlas.Proofs.SearchPathCaches

/-!
A save that does not come to its end. Each of its two files is written beside its place and moved there
as a whole, so that a reader finds the files of the last save, the new keys beside the old notes, or
both new files. In the middle case the notes only tell how many keys there should be; the keys are
whole all the same.
-/

set_option autoImplicit false

namespace ImportAtlas

namespace Disk

variable {d d' : Disk}

def isMissing (d : Disk) (p : Path) : Bool :=
  match d.locateItself p with
  | .ok (_, some _) => false
  | _ => true

private theorem Reaches.entryAt_of_isMissing {dir : Path} {place : Location}
    (h : d.Reaches dir place) {name : String} (named : Path.IsName name)
    (missing : d.isMissing (dir.child name)) :
    d.entryAt (place ++ [name]) = none := by
  have located := h.locateItself_eq named
  cases found : d.entryAt (place ++ [name]) with
  | none => rfl
  | some entry =>
    rw [found] at located
    simp [isMissing, located] at missing

private theorem read_ne_ok_of_isMissing {dir : Path} {name : String} (named : Path.IsName name)
    (missing : d.isMissing (dir.child name)) (bytes : List UInt8) :
    d.read (dir.child name) ≠ .ok bytes := by
  intro stands
  obtain ⟨found, located⟩ : ∃ found, d.locateWith true (dir.child name) = .ok found := by
    cases located : d.locate (dir.child name) with
    | error cause => simp [read, located] at stands
    | ok found => exact ⟨found, located⟩
  obtain ⟨place, reaches⟩ := exists_reaches named located
  have empty := reaches.entryAt_of_isMissing named missing
  have nothing := reaches.locate_eq named (by simp [empty])
  rw [empty] at nothing
  simp [read, nothing] at stands

private theorem Rooted.avoids {dir : Path} {names : List String} (rooted : d.Rooted)
    (named : ∀ name ∈ names, Path.IsName name)
    (missing : ∀ name ∈ names, d.isMissing (dir.child name)) : d.Avoids dir names := by
  intro name member location found located
  obtain ⟨place, reaches⟩ := @exists_reaches d false dir name (named name member) _ located
  obtain rfl : location = place ++ [name] := reaches.fst_eq (named name member) located
  have vacant : ∀ other ∈ names, d.Vacant (place ++ [other]) := fun other among =>
    rooted.vacant (by simp) (reaches.entryAt_of_isMissing (named other among) (missing other among))
  have within : d.Within (d.without place names) :=
    within_without_of_files fun entry stands other among below =>
      absurd below (vacant other among entry stands)
  rw [List.dropLast_concat, (reaches.mono within).locateItself_eq (named name member)]
  rfl

private theorem isLink_of_isMissing {p : Path} (missing : d.isMissing p) : d.isLink p = false := by
  unfold isMissing at missing
  unfold isLink
  split
  · rename_i located
    simp [located] at missing
  · rfl

end Disk

namespace Cache

def besideNames : List String :=
  [modulesBeside, metadataBeside]

def placeNames : List String :=
  [modulesName, metadataName]

/-- What stands at the places of the two files of a directory, where the way there does not lead
through them and files can be written beside them. -/
structure Slots (dir : Path) (base : Disk) (place : Location) (content : String → Option Entry)
    (d : Disk) : Prop where
  reaches : base.Reaches dir place
  vacant : ∀ name ∈ fileNames, base.Vacant (place ++ [name])
  within : base.Within d
  places : ∀ name ∈ placeNames, d.entryAt (place ++ [name]) = content name
  beside : ∀ name ∈ besideNames, ∀ target, d.entryAt (place ++ [name]) ≠ some (.link target)

private theorem mem_fileNames_iff {name : String} :
    name ∈ fileNames ↔ name ∈ besideNames ∨ name ∈ placeNames := by
  simp only [fileNames, besideNames, placeNames, List.mem_cons, List.not_mem_nil, or_false]
  tauto

private theorem ne_of_mem_placeNames {name other : String} (place : name ∈ placeNames)
    (beside : other ∈ besideNames) : name ≠ other := by
  have apart : ∀ name ∈ placeNames, ∀ other ∈ besideNames, name ≠ other := by decide
  exact apart name place other beside

namespace Slots

variable {dir : Path} {base d after : Disk} {place : Location} {content : String → Option Entry}
  {name temp : String} {bytes : List UInt8}

private theorem write (h : Slots dir base place content d) (beside : temp ∈ besideNames)
    (written : d.writeFile (dir.child temp) bytes = some after) :
    Slots dir base place content after ∧
      after.entryAt (place ++ [temp]) = some (.file bytes) := by
  have among : temp ∈ fileNames := mem_fileNames_iff.mpr (Or.inl beside)
  have somewhere : place ++ [temp] ≠ [] := by simp
  have named := isName_of_mem_fileNames temp among
  have reaches := h.reaches.mono h.within
  obtain rfl := reaches.writeFile_eq named (h.beside temp beside) written
  refine ⟨⟨h.reaches, h.vacant, h.within.put (h.vacant temp among) somewhere _, ?_, ?_⟩, ?_⟩
  · intro other placed
    have apart : place ++ [other] ≠ place ++ [temp] := by
      simpa using ne_of_mem_placeNames placed beside
    rw [Disk.entryAt_put_other apart]
    exact h.places other placed
  · intro other besides target
    rcases d.entryAt_put_cases (place ++ [temp]) (.file bytes) (place ++ [other]) with kept | ⟨-, new⟩
    · rw [kept]
      exact h.beside other besides target
    · simp [new]
  · exact Disk.entryAt_put_self (reaches.possible named) somewhere _

private theorem move (h : Slots dir base place content d) (beside : temp ∈ besideNames)
    (placed : name ∈ placeNames) (stands : d.entryAt (place ++ [temp]) = some (.file bytes))
    (moved : d.rename (dir.child temp) (dir.child name) = some after) :
    Slots dir base place (Function.update content name (some (.file bytes))) after := by
  have among : temp ∈ fileNames := mem_fileNames_iff.mpr (Or.inl beside)
  have among' : name ∈ fileNames := mem_fileNames_iff.mpr (Or.inr placed)
  have somewhere : ∀ other, place ++ [other] ≠ [] := by simp
  have named := isName_of_mem_fileNames name among'
  have reaches := h.reaches.mono h.within
  obtain rfl := reaches.rename_eq (isName_of_mem_fileNames temp among) named stands moved
  refine ⟨h.reaches, h.vacant, ?_, ?_, ?_⟩
  · exact (h.within.dropTree (h.vacant temp among) (somewhere temp)).put (h.vacant name among')
      (somewhere name) _
  · intro other placed'
    by_cases same : other = name
    · subst same
      rw [Function.update_self]
      exact Disk.entryAt_put_self (reaches.possible named) (somewhere other) _
    · have apart : ¬place ++ [temp] <+: place ++ [other] := by
        rw [List.prefix_append_right_inj]
        simpa using Ne.symm (ne_of_mem_placeNames placed' beside)
      rw [Function.update_of_ne same, Disk.entryAt_put_other (by simpa using same),
        Disk.entryAt_dropTree (somewhere temp), if_neg apart]
      exact h.places other placed'
  · intro other besides target
    have apart : other ≠ name := (ne_of_mem_placeNames placed besides).symm
    rw [Disk.entryAt_put_other (by simpa using apart), Disk.entryAt_dropTree (somewhere temp)]
    split
    · simp
    · exact h.beside other besides target

private theorem makeDirs (h : Slots dir base place content d) {p : Path}
    (made : d.makeDirs p = some after) (filled : ∀ name ∈ placeNames, content name ≠ none) :
    Slots dir base place content after := by
  refine ⟨h.reaches, h.vacant, h.within.trans (Disk.within_makeDirs made), ?_, ?_⟩
  · intro other placed
    rcases Disk.entryAt_makeDirs made (place ++ [other]) with same | ⟨absent, -⟩
    · exact same.trans (h.places other placed)
    · exact absurd ((h.places other placed).symm.trans absent) (filled other placed)
  · intro other besides target
    rcases Disk.entryAt_makeDirs made (place ++ [other]) with same | ⟨-, solid⟩
    · rw [same]
      exact h.beside other besides target
    · simp [solid]

private theorem read_eq (h : Slots dir base place content d) (placed : name ∈ placeNames)
    (stands : content name = some (.file bytes)) : d.read (dir.child name) = .ok bytes :=
  (h.reaches.mono h.within).read_eq
    (isName_of_mem_fileNames name (mem_fileNames_iff.mpr (Or.inr placed)))
    ((h.places name placed).trans stands)

private theorem read_ne_ok (h : Slots dir base place content d) (placed : name ∈ placeNames)
    (empty : content name = none) : d.read (dir.child name) ≠ .ok bytes := by
  have named := isName_of_mem_fileNames name (mem_fileNames_iff.mpr (Or.inr placed))
  have absent : d.entryAt (place ++ [name]) = none := (h.places name placed).trans empty
  have located := (h.reaches.mono h.within).locate_eq named (by simp [absent])
  rw [absent] at located
  simp [Disk.read, located]

end Slots

/-! Where a run of steps can stop. -/

/-- Where a run of steps can stop: before a step, because it is refused or the run is cut off, or in
the middle of one that writes a file. The number counts the steps that are done. -/
inductive Stops : List Step → Disk → Nat → Disk → Prop
  | here (steps : List Step) (disk : Disk) : Stops steps disk 0 disk
  | writing {file : Path} {content written : List UInt8} {rest : List Step} {disk after : Disk}
      (leads : written <+: content) (done : disk.writeFile file written = some after) :
      Stops (.write file content :: rest) disk 0 after
  | later {step : Step} {rest : List Step} {disk next after : Disk} {n : Nat}
      (done : step.run disk = some next) (stops : Stops rest next n after) :
      Stops (step :: rest) disk (n + 1) after

namespace Stops

variable {steps rest : List Step} {disk after : Disk} {n : Nat}

private theorem append (h : Stops steps disk n after) (rest : List Step) :
    Stops (steps ++ rest) disk n after := by
  induction h with
  | here steps disk => exact .here _ disk
  | writing leads done => exact .writing leads done
  | later done _ ih => exact .later done ih

private theorem of_runSteps (ran : runSteps steps disk = (.ok (), after)) :
    Stops steps disk steps.length after := by
  induction steps generalizing disk with
  | nil =>
    obtain rfl := (Prod.mk.inj ran).2
    exact .here [] disk
  | cons step rest ih =>
    obtain ⟨next, done, ran⟩ := runSteps_cons_eq_ok ran
    exact .later done (ih ran)

private theorem of_runSteps_take (few : n ≤ steps.length)
    (ran : (runSteps (steps.take n) disk).1 = .ok ()) :
    Stops steps disk n (runSteps (steps.take n) disk).2 := by
  have stopped := (of_runSteps (Prod.ext ran rfl)).append (steps.drop n)
  rwa [List.take_append_drop, List.length_take_of_le few] at stopped

private theorem exists_runSteps (steps : List Step) (disk : Disk) :
    ∃ n, Stops steps disk n (runSteps steps disk).2 := by
  induction steps generalizing disk with
  | nil => exact ⟨0, .here [] disk⟩
  | cons step rest ih =>
    simp only [runSteps]
    cases done : step.run disk with
    | none => exact ⟨0, .here _ disk⟩
    | some next =>
      obtain ⟨n, stops⟩ := ih next
      exact ⟨n + 1, .later done stops⟩

private theorem exists_save [Compression] (home : Path) (c : SaveCall) (disk : Disk) :
    ∃ n, Stops (saveSteps home c.time c.roots c.keys) disk n
      (save home c.time c.roots c.keys disk).2 := by
  simp only [save]
  exact exists_runSteps _ disk

private theorem nil (h : Stops [] disk n after) : n = 0 ∧ after = disk := by
  cases h
  exact ⟨rfl, rfl⟩

private theorem write {file : Path} {content : List UInt8}
    (h : Stops (.write file content :: rest) disk n after) :
    n = 0 ∧ after = disk ∨ ∃ bytes next, disk.writeFile file bytes = some next := by
  cases h with
  | here => exact Or.inl ⟨rfl, rfl⟩
  | writing _ done => exact Or.inr ⟨_, _, done⟩
  | later done _ => exact Or.inr ⟨_, _, done⟩

end Stops

/-- A run that puts a file in its place stops with the old content there, or goes on with the new
one. -/
theorem Slots.stops {dir : Path} {base d after : Disk} {place : Location}
    {content : String → Option Entry} (h : Slots dir base place content d) {name temp : String}
    (beside : temp ∈ besideNames) (placed : name ∈ placeNames) {bytes : List UInt8}
    {rest : List Step} {n : Nat}
    (stopped : Stops (.write (dir.child temp) bytes :: .move (dir.child temp) (dir.child name) :: rest)
      d n after) :
    n < 2 ∧ Slots dir base place content after ∨
      ∃ k next, n = k + 2 ∧
        Slots dir base place (Function.update content name (some (.file bytes))) next ∧
        Stops rest next k after := by
  cases stopped with
  | here => exact Or.inl ⟨by decide, h⟩
  | writing leads done => exact Or.inl ⟨by decide, (h.write beside done).1⟩
  | later done stopped =>
    obtain ⟨written, stands⟩ := h.write beside done
    cases stopped with
    | here => exact Or.inl ⟨by decide, written⟩
    | later moved stopped =>
      exact Or.inr ⟨_, _, rfl, written.move beside placed stands moved, stopped⟩

/-! What is found where a save has stopped. -/

variable {home : Path} {roots : List Path} {last : Option SaveCall} {d after : Disk}

def foundBefore (dir : Path) : Option SaveCall → Except CacheFailure (List ModuleKey)
  | none => .error (.noMetadata dir)
  | some last => .ok last.keys

def foundBetween (dir : Path) (keys : List ModuleKey) :
    Option SaveCall → Except CacheFailure (List ModuleKey)
  | none => .error (.noMetadata dir)
  | some last =>
    if keys.length = last.keys.length then .ok keys
    else .error (.miscounted last.keys.length keys.length)

private theorem exists_of_foundBefore {dir : Path} {found : List ModuleKey}
    (h : foundBefore dir last = .ok found) : ∃ c, last = some c ∧ found = c.keys := by
  cases last with
  | none => simp [foundBefore] at h
  | some c => exact ⟨c, rfl, (Except.ok.inj h).symm⟩

private theorem eq_of_foundBetween {dir : Path} {keys found : List ModuleKey}
    (h : foundBetween dir keys last = .ok found) : found = keys := by
  cases last with
  | none => simp [foundBetween] at h
  | some c =>
    simp only [foundBetween] at h
    split at h
    · exact (Except.ok.inj h).symm
    · simp at h

/-- Whether a directory has none of the files that are read, before it is made and after, and nothing
is in the way of the files that are written first. -/
structure EmptyOfFiles (dir : Path) (disk : Disk) : Prop where
  clear : Unobstructed dir disk
  before : ∀ name ∈ placeNames, disk.isMissing (dir.child name)
  made : ∀ made, disk.makeDirs dir = some made → ∀ name ∈ placeNames, made.isMissing (dir.child name)

private theorem EmptyOfFiles.of_missing {dir : Path} {disk : Disk} (rooted : disk.Rooted)
    (before : ∀ name ∈ fileNames, disk.isMissing (dir.child name))
    (after : ∀ made, disk.makeDirs dir = some made →
      ∀ name ∈ fileNames, made.isMissing (dir.child name)) : EmptyOfFiles dir disk := by
  have read : ∀ name ∈ placeNames, name ∈ fileNames := by decide
  have written : ∀ name ∈ besideNames, name ∈ fileNames := by decide
  refine ⟨fun made making => ⟨fun name among => ?_, ?_⟩, fun name among => before name (read name among),
    fun made making name among => after made making name (read name among)⟩
  · exact Disk.isLink_of_isMissing (after made making name (written name among))
  · exact (rooted.makeDirs making).avoids isName_of_mem_fileNames (after made making)

private theorem Slots.congr {dir : Path} {base : Disk} {place : Location}
    {content content' : String → Option Entry} (h : Slots dir base place content d)
    (same : ∀ name ∈ placeNames, content name = content' name) : Slots dir base place content' d :=
  ⟨h.reaches, h.vacant, h.within, fun name placed => (h.places name placed).trans (same name placed),
    h.beside⟩

section Found

variable [Compression]

/-- The keys and the notes that are read can be of two saves for the same roots. -/
theorem load_of_files {keys : List ModuleKey} {noted : SaveCall} (ours : noted.roots = roots)
    (valid : noted.Valid) (few : keys.length < UInt64.size) (fits : ∀ key ∈ keys, KeyCodec.Fits key)
    (modules : d.read (modulesFile home roots) = .ok (Compression.pack (KeyCodec.encode keys)))
    (metadata : d.read (metadataFile home roots) =
      .ok (Text.octets (notes noted.time noted.roots noted.keys).print)) :
    load home roots d =
      if keys.length = noted.keys.length then .ok keys
      else .error (.miscounted noted.keys.length keys.length) := by
  rw [load_of_read valid.time valid.few few fits modules metadata, ours,
    if_pos (sameRoots_iff.mpr rfl)]

def contentOf (last : Option SaveCall) (name : String) : Option Entry :=
  last.map fun c => .file <|
    if name = modulesName then Compression.pack (KeyCodec.encode c.keys)
    else Text.octets (notes c.time c.roots c.keys).print

/-- What a save for some roots can begin with: an empty directory, or one with the files of the last
save for them. -/
inductive Prepared (home : Path) (roots : List Path) : Option SaveCall → Disk → Prop
  | empty {d : Disk} (h : EmptyOfFiles (directory home roots) d) : Prepared home roots none d
  | stored {c : SaveCall} {base d : Disk} {place : Location} (ours : c.roots = roots)
      (valid : c.Valid) (slots : Slots (directory home roots) base place (contentOf (some c)) d) :
      Prepared home roots (some c) d

private theorem Prepared.known (h : Prepared home roots last d) :
    ∀ c, last = some c → c.roots = roots ∧ c.Valid := by
  cases h with
  | empty _ => simp
  | stored ours valid _ =>
    rintro c ⟨⟩
    exact ⟨ours, valid⟩

namespace Slots

variable {dir : Path} {base : Disk} {place : Location}

private theorem of_writeFile {disk made next : Disk} {bytes : List UInt8}
    (h : EmptyOfFiles dir disk) (making : disk.makeDirs dir = some made)
    (written : made.writeFile (dir.child modulesBeside) bytes = some next) :
    ∃ base place, Slots dir base place (contentOf none) made := by
  obtain ⟨place, reaches, base, unlinked⟩ := h.clear.exists_reaches making written
  refine ⟨made.without place fileNames, place, base,
    fun name among => made.vacant_without place among, made.within_without place fileNames, ?_, unlinked⟩
  intro name placed
  have named := isName_of_mem_fileNames name (mem_fileNames_iff.mpr (Or.inr placed))
  exact reaches.entryAt_of_isMissing named (h.made made making name placed)

private theorem load_before (h : Slots (directory home roots) base place (contentOf last) d)
    (known : ∀ c, last = some c → c.roots = roots ∧ c.Valid) :
    load home roots d = foundBefore (directory home roots) last := by
  cases last with
  | none => exact load_of_unread fun bytes => h.read_ne_ok (by decide) rfl
  | some c =>
    obtain ⟨ours, valid⟩ := known c rfl
    have found := load_of_files ours valid valid.few valid.fits (h.read_eq (by decide) rfl)
      (h.read_eq (by decide) rfl)
    rw [if_pos rfl] at found
    exact found

private theorem load_between {c : SaveCall} (valid : c.Valid)
    (h : Slots (directory home roots) base place (Function.update (contentOf last) modulesName
      (some (.file (Compression.pack (KeyCodec.encode c.keys))))) d)
    (known : ∀ c, last = some c → c.roots = roots ∧ c.Valid) :
    load home roots d = foundBetween (directory home roots) c.keys last := by
  have notes_name : metadataName ≠ modulesName := by decide
  cases last with
  | none =>
    refine load_of_unread fun bytes => h.read_ne_ok (by decide) ?_
    rw [Function.update_of_ne notes_name]
    rfl
  | some old =>
    obtain ⟨ours, old_valid⟩ := known old rfl
    refine load_of_files ours old_valid valid.few valid.fits
      (h.read_eq (by decide) (Function.update_self _ _ _)) (h.read_eq (by decide) ?_)
    rw [Function.update_of_ne notes_name]
    rfl

end Slots

private theorem Prepared.load_eq (h : Prepared home roots last d) :
    load home roots d = foundBefore (directory home roots) last := by
  have named : Path.IsName metadataName := by decide
  cases h with
  | empty empty => exact load_of_unread (Disk.read_ne_ok_of_isMissing named (empty.before _ (by decide)))
  | stored ours valid slots =>
    exact slots.load_before fun c same => Option.some.inj same ▸ ⟨ours, valid⟩

private theorem Prepared.makeDirs {made : Disk} (h : Prepared home roots last d)
    (making : d.makeDirs (directory home roots) = some made) :
    load home roots made = foundBefore (directory home roots) last ∧
      ∀ bytes next, made.writeFile ((directory home roots).child modulesBeside) bytes = some next →
        ∃ base place, Slots (directory home roots) base place (contentOf last) made := by
  have named : Path.IsName metadataName := by decide
  have known := h.known
  cases h with
  | empty empty =>
    exact ⟨load_of_unread (Disk.read_ne_ok_of_isMissing named (empty.made made making _ (by decide))),
      fun bytes next written => Slots.of_writeFile empty making written⟩
  | stored ours valid slots =>
    have kept := slots.makeDirs making fun name _ => by simp [contentOf]
    exact ⟨kept.load_before known, fun _ _ _ => ⟨_, _, kept⟩⟩

/-- Where a save can stop: with the files of the last save, with its own keys beside the old notes, or
with both its files. -/
theorem Prepared.stops {c : SaveCall} {n : Nat} (h : Prepared home c.roots last d) (valid : c.Valid)
    (stopped : Stops (saveSteps home c.time c.roots c.keys) d n after) :
    n < 3 ∧ load home c.roots after = foundBefore (directory home c.roots) last ∨
    (n = 3 ∨ n = 4) ∧
      load home c.roots after = foundBetween (directory home c.roots) c.keys last ∨
    n = 5 ∧ Prepared home c.roots (some c) after := by
  rw [saveSteps, placeSteps_modules, placeSteps_metadata] at stopped
  cases stopped with
  | here => exact Or.inl ⟨by decide, h.load_eq⟩
  | later making stopped =>
    obtain ⟨found, written⟩ := h.makeDirs making
    rcases stopped.write with ⟨rfl, rfl⟩ | ⟨bytes, next, done⟩
    · exact Or.inl ⟨by decide, found⟩
    obtain ⟨base, place, slots⟩ := written bytes next done
    rcases slots.stops (by decide) (by decide) stopped with ⟨early, old⟩ | ⟨k, next, rfl, moved, rest⟩
    · exact Or.inl ⟨by omega, old.load_before h.known⟩
    rcases moved.stops (by decide) (by decide) rest with ⟨early, mixed⟩ | ⟨k, final, rfl, both, rest⟩
    · exact Or.inr (Or.inl ⟨by omega, mixed.load_between valid h.known⟩)
    obtain ⟨rfl, rfl⟩ := rest.nil
    refine Or.inr (Or.inr ⟨rfl, .stored rfl valid (both.congr ?_)⟩)
    intro name placed
    rcases List.mem_cons.mp placed with rfl | placed
    · simp [contentOf, modulesName, metadataName]
    · obtain rfl := List.mem_singleton.mp placed
      simp [contentOf, modulesName, metadataName]

private theorem prepared_of_runAll {disk : Disk} (empty : EmptyOfFiles (directory home roots) disk)
    {calls : List SaveCall} (ours : ∀ c ∈ calls, c.roots = roots ∧ c.Valid)
    (completed : SaveCall.runAll home calls disk = some d) :
    Prepared home roots calls.getLast? d := by
  induction calls using List.reverseRecOn generalizing d with
  | nil =>
    obtain rfl := Option.some.inj completed
    exact .empty empty
  | append_singleton calls c ih =>
    rw [SaveCall.runAll, List.foldlM_append] at completed
    obtain ⟨before, first, rest⟩ := Option.bind_eq_some_iff.mp completed
    rw [List.foldlM_cons] at rest
    obtain ⟨next, ran, same⟩ := Option.bind_eq_some_iff.mp rest
    obtain rfl : d = next := (Option.some.inj same).symm
    obtain ⟨rfl, valid⟩ := ours c (List.mem_append_right _ List.mem_cons_self)
    have prepared := ih (fun e member => ours e (List.mem_append_left _ member)) first
    obtain ⟨dir, saved⟩ := SaveCall.exists_of_run ran
    have stopped := Stops.of_runSteps (runSteps_of_save saved)
    rw [List.getLast?_concat]
    rcases prepared.stops valid stopped with ⟨early, -⟩ | ⟨middle, -⟩ | ⟨-, stored⟩
    · exact absurd early (by simp [saveSteps, placeSteps])
    · exact absurd middle (by simp [saveSteps, placeSteps])
    · exact stored

/-- A save for some roots that stops anywhere, where the directory has the files of completed saves
for them or none: the keys of the last save are found until the third step is done, which moves the
new keys to their place. Then, until the last step is done, the new keys are found if there are as many
as before, and otherwise nothing is. After the last step the new keys are found. A save that ends by
itself, even one that is refused, has stopped in this way. -/
theorem interrupted_save_keeps_old_or_new {disk : Disk} {calls : List SaveCall} {c : SaveCall}
    (empty : EmptyOfFiles (directory home c.roots) disk)
    (ours : ∀ e ∈ calls, e.roots = c.roots ∧ e.Valid) (valid : c.Valid)
    (completed : SaveCall.runAll home calls disk = some d) :
    let steps := saveSteps home c.time c.roots c.keys
    let dir := directory home c.roots
    let last := calls.getLast?
    (∀ n after, Stops steps d n after →
      n ≤ 5 ∧
      (∀ found, load home c.roots after = .ok found →
        found = c.keys ∨ ∃ e, last = some e ∧ found = e.keys) ∧
      (n < 3 → load home c.roots after = foundBefore dir last) ∧
      (n = 3 ∨ n = 4 → load home c.roots after = foundBetween dir c.keys last) ∧
      (n = 5 → load home c.roots after = .ok c.keys)) ∧
    ∃ n, Stops steps d n (save home c.time c.roots c.keys d).2 := by
  intro steps dir last
  have prepared : Prepared home c.roots last d := prepared_of_runAll empty ours completed
  refine ⟨fun n after stopped => ?_, Stops.exists_save home c d⟩
  rcases prepared.stops valid stopped with ⟨early, found⟩ | ⟨middle, found⟩ | ⟨rfl, stored⟩
  · refine ⟨by omega, fun keys loaded => ?_, fun _ => found, by omega, by omega⟩
    exact Or.inr (exists_of_foundBefore (found.symm.trans loaded))
  · refine ⟨by omega, fun keys loaded => ?_, by omega, fun _ => found, by omega⟩
    exact Or.inl (eq_of_foundBetween (found.symm.trans loaded))
  · have found : load home c.roots after = .ok c.keys := stored.load_eq
    refine ⟨by omega, fun keys loaded => ?_, by omega, by omega, fun _ => found⟩
    exact Or.inl (Except.ok.inj (found.symm.trans loaded)).symm

end Found

/-- Two lists of one length, the second of which has been stored but for its notes. -/
theorem interrupted_save_keeps_old_or_new_of_one_length :
    let old : SaveCall := ⟨⟨0, 0⟩, [⟨"/a"⟩], [⟨"x", some ⟨"/a/x.py"⟩⟩]⟩
    let new : SaveCall := ⟨⟨1, 0⟩, [⟨"/a"⟩], [⟨"y", some ⟨"/a/y.py"⟩⟩]⟩
    let steps := saveSteps ⟨"/c"⟩ new.time new.roots new.keys
    EmptyOfFiles (directory ⟨"/c"⟩ new.roots) (.ofHome ⟨"/"⟩) ∧
      ∃ d after, SaveCall.runAll ⟨"/c"⟩ [old] (.ofHome ⟨"/"⟩) = some d ∧ Stops steps d 3 after ∧
        load ⟨"/c"⟩ new.roots d = .ok old.keys ∧ load ⟨"/c"⟩ new.roots after = .ok new.keys := by
  intro old new steps
  have empty : EmptyOfFiles (directory ⟨"/c"⟩ new.roots) (.ofHome ⟨"/"⟩) := by
    have after : ∀ made ∈ (Disk.ofHome ⟨"/"⟩).makeDirs (directory ⟨"/c"⟩ new.roots),
        ∀ name ∈ fileNames, made.isMissing ((directory ⟨"/c"⟩ new.roots).child name) := by
      decide +kernel
    have rooted : (Disk.ofHome ⟨"/"⟩).Rooted := by
      intro entry member
      obtain rfl : entry = ([], .dir) := List.mem_singleton.mp member
      exact Disk.solid_nil _
    exact .of_missing rooted (by decide +kernel) after
  have valid : ∀ c ∈ [old, new], c.Valid := by
    refine List.forall_mem_cons.mpr ⟨?_, List.forall_mem_singleton.mpr ?_⟩
    · exact ⟨⟨by decide, by decide⟩, by decide, by decide⟩
    · exact ⟨⟨by decide, by decide⟩, by decide, by decide⟩
  have three : (SaveCall.runAll ⟨"/c"⟩ [old] (.ofHome ⟨"/"⟩)).any (fun d =>
      (runSteps (steps.take 3) d).1 = .ok ()) := by
    decide +kernel
  obtain ⟨d, completed, ran⟩ := (Option.any_eq_true _ _).mp three
  have ours : ∀ e ∈ [old], e.roots = new.roots ∧ e.Valid :=
    List.forall_mem_singleton.mpr ⟨rfl, valid old (by simp)⟩
  have stopped : Stops steps d 3 (runSteps (steps.take 3) d).2 :=
    Stops.of_runSteps_take (by simp [steps, saveSteps, placeSteps]) (of_decide_eq_true ran)
  generalize (runSteps (steps.take 3) d).2 = after at stopped
  obtain ⟨stops, -⟩ :=
    interrupted_save_keeps_old_or_new empty ours (valid new (by simp)) completed
  obtain ⟨-, -, before, -⟩ := stops 0 d (.here _ d)
  obtain ⟨-, -, -, between, -⟩ := stops 3 after stopped
  refine ⟨empty, d, after, completed, stopped, ?_, ?_⟩
  · exact before (by decide)
  · exact between (Or.inl rfl)

end Cache

end ImportAtlas
