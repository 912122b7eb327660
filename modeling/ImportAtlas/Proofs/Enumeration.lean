import ImportAtlas.Disk
import ImportAtlas.Proofs.Naming

/-!
The files that a walk below the roots yields are normal paths, whatever lies in the directories.
-/

set_option autoImplicit false

namespace ImportAtlas

namespace Folder

mutual
def WellNamed : Folder → Prop
  | .file => True
  | .dir entries => EntriesWellNamed entries

def EntriesWellNamed : List (String × Folder) → Prop
  | [] => True
  | (name, folder) :: rest => Path.IsName name ∧ WellNamed folder ∧ EntriesWellNamed rest
end

private theorem entriesWellNamed_iff {entries : List (String × Folder)} :
    EntriesWellNamed entries ↔ ∀ entry ∈ entries, Path.IsName entry.1 ∧ WellNamed entry.2 := by
  induction entries with
  | nil => simp [EntriesWellNamed]
  | cons entry rest ih => simp [EntriesWellNamed, ih, and_assoc]

mutual
theorem isNormal_of_mem_filesWhere {enter : Folder → Bool} {file : Path} :
    (folder : Folder) → folder.WellNamed → (place : Path) → place.IsNormal →
      file ∈ filesWhere enter place folder → file.IsNormal
  | .file, _, place, normal, member => by
    simp only [filesWhere] at member
    split at member
    · obtain rfl := List.mem_singleton.mp member
      exact normal
    · simp at member
  | .dir entries, named, place, normal, member =>
    isNormal_of_mem_entryFiles entries named place normal member

private theorem isNormal_of_mem_entryFiles {enter : Folder → Bool} {file : Path} :
    (entries : List (String × Folder)) → EntriesWellNamed entries → (place : Path) →
      place.IsNormal → file ∈ entryFiles enter place entries → file.IsNormal
  | [], _, _, _, member => by simp [entryFiles] at member
  | (name, folder) :: rest, named, place, normal, member => by
    obtain ⟨possible, inside, others⟩ := named
    simp only [entryFiles, List.mem_append] at member
    rcases member with here | later
    · split at here
      · exact isNormal_of_mem_filesWhere folder inside _ (normal.child possible) here
      · simp at here
    · exact isNormal_of_mem_entryFiles rest others place normal later
end

end Folder

namespace Disk

variable {d : Disk}

private theorem isName_of_mem_childNames {location : Location} {name : String}
    (h : name ∈ d.childNames location) : Path.IsName name := by
  have listed := List.mem_mergeSort.mp h
  obtain ⟨⟨place, entry⟩, member, found⟩ := List.mem_filterMap.mp listed
  simp only at found
  split at found
  · exact d.possible _ member name (List.mem_of_getLast? found)
  · simp at found

theorem exists_folderAt_of_mem {follow : Bool} {fuel links : Nat} {around : List Location}
    {location : Location} {entries : List (String × Folder)} {child : String × Folder}
    (h : d.folderAt follow (fuel + 1) around links location .dir = some (.dir entries))
    (member : child ∈ entries) :
    child.1 ∈ d.childNames location ∧ ∃ around links place entry,
      d.folderAt follow fuel around links place entry = some child.2 := by
  obtain rfl := Folder.dir.inj (Option.some.inj h)
  obtain ⟨name, listed, found⟩ := List.mem_filterMap.mp member
  obtain ⟨inner, inside, rfl⟩ := Option.map_eq_some_iff.mp found
  refine ⟨listed, ?_⟩
  split at inside
  · split at inside
    · simp at inside
    · exact ⟨_, _, _, _, inside⟩
  · simp at inside

theorem folderAt_cases {follow : Bool} {fuel links : Nat} {around : List Location}
    {location : Location} {entry : Entry} {folder : Folder}
    (h : d.folderAt follow (fuel + 1) around links location entry = some folder) :
    folder = .file ∨ entry = .dir ∧ ∃ entries, folder = .dir entries := by
  cases entry with
  | file bytes => exact Or.inl (Option.some.inj h).symm
  | link target => simp [folderAt] at h
  | dir => exact Or.inr ⟨rfl, _, (Option.some.inj h).symm⟩

theorem wellNamed_folderAt {follow : Bool} {fuel links : Nat} {around : List Location}
    {location : Location} {entry : Entry} {folder : Folder}
    (h : d.folderAt follow fuel around links location entry = some folder) : folder.WellNamed := by
  induction fuel generalizing around links location entry folder with
  | zero => simp [folderAt] at h
  | succ fuel ih =>
    rcases folderAt_cases h with rfl | ⟨rfl, entries, rfl⟩
    · trivial
    · refine Folder.entriesWellNamed_iff.mpr fun child member => ?_
      obtain ⟨listed, _, _, _, _, inside⟩ := exists_folderAt_of_mem h member
      exact ⟨isName_of_mem_childNames listed, ih inside⟩

theorem exists_folderAt_of_folder {follow : Bool} {p : Path} {folder : Folder}
    (h : d.folder follow p = some folder) :
    ∃ fuel around links location entry,
      d.folderAt follow fuel around links location entry = some folder := by
  unfold Disk.folder at h
  split at h
  · exact ⟨_, _, _, _, _, h⟩
  · simp at h

theorem wellNamed_folder {follow : Bool} {p : Path} {folder : Folder}
    (h : d.folder follow p = some folder) : folder.WellNamed := by
  obtain ⟨_, _, _, _, _, found⟩ := exists_folderAt_of_folder h
  exact wellNamed_folderAt found

theorem isNormal_of_mem_sourceFiles (d : Disk) {roots : List Path}
    (normal : ∀ root ∈ roots, root.IsNormal) {file : Path} (h : file ∈ d.sourceFiles roots) :
    file.IsNormal := by
  obtain ⟨root, member, inside⟩ := List.mem_flatMap.mp h
  split at inside
  · rename_i folder found
    exact Folder.isNormal_of_mem_filesWhere folder (wellNamed_folder found) root (normal root member)
      inside
  · simp at inside

end Disk

end ImportAtlas
