import ImportAtlas.Proofs.Candidates
import ImportAtlas.Proofs.RootOrder
import Mathlib.Data.List.Flatten
import Mathlib.Data.List.Sort

/-!
The order of a walk. Siblings are met in the order of their names and a directory with its contents in
its own place, so that the files below a root come in the order of the names that lead to them. The
places for a module stand in the same order. So, where no root lies in another, the files of a name
come in the order of the candidates for it.
-/

set_option autoImplicit false

namespace ImportAtlas

namespace Path

instance : Std.Antisymm Before where
  antisymm _ _ h h' := absurd (h.trans h') (List.lt_irrefl _)

private theorem before_of_startsWith {p a b : Path} {name other : String} (named : IsName name)
    (named' : IsName other) (earlier : name < other) (below : a.startsWith (p.child name))
    (below' : b.startsWith (p.child other)) : a.Before b := by
  have leads : ∀ {q : Path} {last : String}, IsName last → q.startsWith (p.child last) →
      ∃ rest, Disk.namesOf q = Disk.namesOf p ++ last :: rest := by
    intro q last possible inside
    have lead : Disk.namesOf (p.child last) <+: Disk.namesOf q := (startsWith_iff.mp inside).filterMap _
    obtain ⟨rest, whole⟩ := lead
    refine ⟨rest, whole.symm.trans ?_⟩
    rw [namesOf_child p possible, List.append_assoc, List.singleton_append]
  obtain ⟨rest, names⟩ := leads named below
  obtain ⟨rest', names'⟩ := leads named' below'
  rw [Before, names, names']
  exact List.append_left_lt (List.cons_lt_cons_iff.mpr (Or.inl earlier))

end Path

namespace Folder

mutual
/-- Whether siblings have different names and stand in their order, at every depth. -/
def Ordered : Folder → Prop
  | .file => True
  | .dir entries => EntriesOrdered entries

def EntriesOrdered : List (String × Folder) → Prop
  | [] => True
  | (name, folder) :: rest => Ordered folder ∧ (∀ other ∈ rest, name < other.1) ∧ EntriesOrdered rest
end

private theorem entriesOrdered_iff {entries : List (String × Folder)} :
    EntriesOrdered entries ↔
      (∀ entry ∈ entries, Ordered entry.2) ∧ entries.Pairwise fun a b => a.1 < b.1 := by
  induction entries with
  | nil => simp [EntriesOrdered]
  | cons entry rest ih =>
    simp only [EntriesOrdered, ih, List.forall_mem_cons, List.pairwise_cons]
    constructor
    · rintro ⟨own, earlier, others, sorted⟩
      exact ⟨⟨own, others⟩, earlier, sorted⟩
    · rintro ⟨⟨own, others⟩, earlier, sorted⟩
      exact ⟨own, earlier, others, sorted⟩

private theorem exists_entry_of_mem_entryFiles {enter : Folder → Bool} {file place : Path}
    {entries : List (String × Folder)} (named : EntriesWellNamed entries)
    (h : file ∈ entryFiles enter place entries) :
    ∃ entry ∈ entries, Path.IsName entry.1 ∧ file.startsWith (place.child entry.1) := by
  induction entries with
  | nil => simp [entryFiles] at h
  | cons entry rest ih =>
    obtain ⟨name, folder⟩ := entry
    obtain ⟨possible, inside, others⟩ := named
    simp only [entryFiles, List.mem_append] at h
    rcases h with here | later
    · split at here
      · exact ⟨_, List.mem_cons_self, possible, startsWith_of_mem_filesWhere folder inside _ here⟩
      · simp at here
    · obtain ⟨entry, member, below⟩ := ih others later
      exact ⟨entry, List.mem_cons_of_mem _ member, below⟩

mutual
private theorem pairwise_filesWhere {enter : Folder → Bool} :
    (folder : Folder) → folder.WellNamed → folder.Ordered → (place : Path) →
      (filesWhere enter place folder).Pairwise Path.Before
  | .file, _, _, place => by
    simp only [filesWhere]
    split
    · exact List.pairwise_singleton _ _
    · exact List.Pairwise.nil
  | .dir entries, named, ordered, place => pairwise_entryFiles entries named ordered place

private theorem pairwise_entryFiles {enter : Folder → Bool} :
    (entries : List (String × Folder)) → EntriesWellNamed entries → EntriesOrdered entries →
      (place : Path) → (entryFiles enter place entries).Pairwise Path.Before
  | [], _, _, _ => by
    simp only [entryFiles]
    exact List.Pairwise.nil
  | (name, folder) :: rest, named, ordered, place => by
    obtain ⟨possible, inside, others⟩ := named
    obtain ⟨own, earlier, sorted⟩ := ordered
    simp only [entryFiles]
    rw [List.pairwise_append]
    refine ⟨?_, pairwise_entryFiles rest others sorted place, ?_⟩
    · split
      · exact pairwise_filesWhere folder inside own _
      · exact List.Pairwise.nil
    · -- The first entry is met with all below it before any later one.
      intro a here b later
      split at here
      · obtain ⟨entry, member, possible', below'⟩ := exists_entry_of_mem_entryFiles others later
        have below := startsWith_of_mem_filesWhere folder inside _ here
        exact Path.before_of_startsWith possible possible' (earlier entry member) below below'
      · simp at here
end

end Folder

namespace Disk

variable {d : Disk}

def nameIn (location place : Location) : Option String :=
  if place ≠ [] ∧ place.dropLast = location then place.getLast? else none

private theorem eq_concat_of_nameIn {location place : Location} {name : String}
    (h : nameIn location place = some name) : place = location ++ [name] := by
  unfold nameIn at h
  split at h
  · rename_i inside
    obtain ⟨front, rfl⟩ := List.getLast?_eq_some_iff.mp h
    rw [← inside.2, List.dropLast_concat]
  · simp at h

private theorem childNames_eq_mergeSort (d : Disk) (location : Location) :
    d.childNames location =
      ((d.entries.map Prod.fst).filterMap (nameIn location)).mergeSort fun a b => decide (a ≤ b) := by
  rw [List.filterMap_map]
  rfl

private theorem nodup_childNames (d : Disk) (location : Location) :
    (d.childNames location).Nodup := by
  rw [childNames_eq_mergeSort, List.nodup_mergeSort]
  refine d.distinct.filterMap ?_
  intro a b name first second
  rw [eq_concat_of_nameIn first, eq_concat_of_nameIn second]

private theorem pairwise_childNames (d : Disk) (location : Location) :
    (d.childNames location).Pairwise (· < ·) := by
  have sorted : (d.childNames location).Pairwise fun a b => decide (a ≤ b) = true := by
    rw [childNames_eq_mergeSort]
    apply List.pairwise_mergeSort
    · intro a b c h h'
      exact decide_eq_true ((of_decide_eq_true h).trans (of_decide_eq_true h'))
    · intro a b
      simpa using le_total a b
  refine (sorted.and (d.nodup_childNames location)).imp ?_
  rintro a b ⟨le, different⟩
  exact lt_of_le_of_ne (of_decide_eq_true le) different

private theorem ordered_folderAt {follow : Bool} {fuel links : Nat} {around : List Location}
    {location : Location} {entry : Entry} {folder : Folder}
    (h : d.folderAt follow fuel around links location entry = some folder) : folder.Ordered := by
  induction fuel generalizing around links location entry folder with
  | zero => simp [folderAt] at h
  | succ fuel ih =>
    rcases folderAt_cases h with rfl | ⟨rfl, entries, rfl⟩
    · trivial
    · refine Folder.entriesOrdered_iff.mpr ⟨fun child member => ?_, ?_⟩
      · obtain ⟨-, _, _, _, _, inside⟩ := exists_folderAt_of_mem h member
        exact ih inside
      · obtain rfl := Folder.dir.inj (Option.some.inj h)
        refine (d.pairwise_childNames location).filterMap _ ?_
        intro name other earlier entry found entry' found'
        obtain ⟨folder, -, rfl⟩ := Option.map_eq_some_iff.mp found
        obtain ⟨folder', -, rfl⟩ := Option.map_eq_some_iff.mp found'
        exact earlier

private theorem pairwise_importable (d : Disk) (root : Path) :
    (((d.folder true root).map (Folder.importable root)).getD []).Pairwise Path.Before := by
  cases found : d.folder true root with
  | none => exact List.Pairwise.nil
  | some folder =>
    obtain ⟨_, _, _, _, _, stands⟩ := exists_folderAt_of_folder found
    exact Folder.pairwise_filesWhere folder (wellNamed_folderAt stands) (ordered_folderAt stands) root

end Disk

namespace SearchPath

variable {s : SearchPath}

private theorem Apart.namingRoot_eq (apart : s.Apart) {p root : Path} (normal : p.IsNormal)
    (listed : root ∈ s.roots) (below : p.startsWith root) : s.namingRoot p = some root := by
  obtain ⟨⟨j, other⟩, found⟩ := Option.isSome_iff_exists.mp (isSome_longestRoot listed below)
  obtain ⟨at_j, below'⟩ := mem_of_longestRoot found
  obtain ⟨i, at_i⟩ := List.mem_iff_getElem?.mp listed
  obtain rfl := apart.eq_of_startsWith at_i at_j below below'
  obtain rfl := Option.some.inj (at_i.symm.trans at_j)
  rw [namingRoot, normal.normalize_eq, found]
  rfl

private theorem Apart.sublist_candidatesBelow (apart : s.Apart) (normal : s.IsNormal) (d : Disk)
    {name : String} (nonempty : name ≠ "") {root : Path} (listed : root ∈ s.roots) :
    ((((d.folder true root).map (Folder.importable root)).getD []).filter fun file =>
      s.moduleName file = some name).Sublist (s.candidatesBelow name root) := by
  have sorted := (d.pairwise_importable root).filter
    fun file => s.moduleName file = some name
  refine List.sublist_of_subperm_of_pairwise (List.subperm_of_subset ?_ ?_) sorted
    (pairwise_candidatesBelow s nonempty root)
  · exact sorted.imp fun before => before.ne
  · intro file member
    obtain ⟨walked, own_name⟩ := List.mem_filter.mp member
    obtain ⟨below, own⟩ := Disk.startsWith_of_mem_importable (normal.roots root listed) walked
    have listed_file : file ∈ d.sourceFiles s.roots := by
      rw [Disk.sourceFiles_eq]
      exact List.mem_flatMap.mpr ⟨root, listed, walked⟩
    have source : file.isSourceFile := Disk.isSourceFile_of_mem_sourceFiles listed_file
    obtain ⟨root', -, naming, place⟩ :=
      exists_place_of_moduleName normal own source nonempty (of_decide_eq_true own_name)
    obtain rfl := Option.some.inj ((apart.namingRoot_eq own listed below).symm.trans naming)
    exact List.mem_filter.mpr ⟨place, own_name⟩

/-- The files of a name come in the order of its candidates. -/
theorem Apart.sublist_candidates (apart : s.Apart) (normal : s.IsNormal) (d : Disk)
    {name : String} (nonempty : name ≠ "") :
    ((d.sourceFiles s.roots).filter fun file => s.moduleName file = some name).Sublist
      (s.candidates name) := by
  rw [Disk.sourceFiles_eq, List.filter_flatMap, candidates_eq s nonempty]
  exact List.Sublist.flatMap_right _ fun root listed =>
    apart.sublist_candidatesBelow normal d nonempty listed

private theorem Apart.nodup_roots (apart : s.Apart) : s.roots.Nodup := by
  refine apart.imp ?_
  rintro a _ ⟨-, outside⟩ rfl
  exact outside (Path.startsWith_iff.mpr (List.prefix_refl _))

private theorem Apart.find?_sourceFiles (apart : s.Apart) (normal : s.IsNormal) (d : Disk)
    {name : String} (nonempty : name ≠ "") :
    let files := d.sourceFiles s.roots
    files.find? (fun file => s.moduleName file = some name) =
      (s.candidates name).find? fun file => file ∈ files := by
  intro files
  have ordered := apart.sublist_candidates normal d nonempty
  have present : ((s.candidates name).filter fun file => file ∈ files).length ≤
      (files.filter fun file => s.moduleName file = some name).length := by
    refine (List.subperm_of_subset
      ((nodup_candidates normal apart.nodup_roots nonempty).filter _) ?_).length_le
    intro file member
    obtain ⟨candidate, there⟩ := List.mem_filter.mp member
    exact List.mem_filter.mpr
      ⟨of_decide_eq_true there, decide_eq_true (moduleName_of_mem_candidates candidate)⟩
  have kept : (files.filter fun file => s.moduleName file = some name).Sublist
      ((s.candidates name).filter fun file => file ∈ files) := by
    have again := ordered.filter fun file => decide (file ∈ files)
    rwa [List.filter_eq_self.mpr fun file member => decide_eq_true (List.mem_of_mem_filter member)]
      at again
  rw [← List.head?_filter, ← List.head?_filter, kept.eq_of_length_le present]

end SearchPath

namespace Engine

/-- Where no root lies in another, the files of a name come in the order of the candidates for it, and
a rebuild puts the first candidate that it meets behind the name. -/
theorem rebuild_takes_first_candidate (e : Engine) (text : String) (cancel : Cancellation)
    (h : Host)
    (home : h.disk.cwd.isAbsolute) :
    let s := SearchPath.parse h.disk.cwd text
    let files := h.disk.sourceFiles s.roots
    let after := (e.rebuild text cancel h).2.1.state.index
    s.Apart → ∀ name, name ≠ "" →
      (files.filter fun file => s.moduleName file = some name).Sublist (s.candidates name) ∧
      ((∀ k < files.length, cancel.sees k = false) → Builtin.isReserved name = false →
        after.get? name = ((s.candidates name).find? fun file => file ∈ files).map fun file =>
          .placeholder ⟨name, some file⟩) := by
  intro s files after apart name nonempty
  have normal : s.IsNormal := SearchPath.isNormal_parse home text
  refine ⟨apart.sublist_candidates normal h.disk nonempty, ?_⟩
  intro unseen free
  have uninterrupted := Cancellation.interrupts_eq_false unseen
  obtain ⟨-, -, -, -, entries⟩ := Index.rebuild_index e.state.index s files uninterrupted
  have entry : after.get? name = Index.rebuilt s files name := entries name
  rw [entry, Index.rebuilt, free, if_neg Bool.false_ne_true, if_neg nonempty]
  rw [apart.find?_sourceFiles normal h.disk nonempty]

theorem rebuild_takes_first_candidate_of_three :
    let disk : Disk :=
      .ofEntries ⟨"/"⟩ [(["a"], .dir), (["a", "x"], .dir), (["a", "x", "__init__.py"], .file []),
          (["a", "x.py"], .file []), (["b"], .dir), (["b", "x.pyw"], .file [])]
    let h : Host := ⟨disk, ⟨"/"⟩, ⟨0, 0⟩⟩
    let s := SearchPath.parse ⟨"/"⟩ "/a:/b"
    let after := ((initial {} ⟨"/"⟩).rebuild "/a:/b" .never h).2.1.state.index
    s.Apart ∧
      disk.sourceFiles s.roots = [⟨"/a/x/__init__.py"⟩, ⟨"/a/x.py"⟩, ⟨"/b/x.pyw"⟩] ∧
      [⟨"/a/x/__init__.py"⟩, ⟨"/a/x.py"⟩, ⟨"/b/x.pyw"⟩].Sublist (s.candidates "x") ∧
      after.get? "x" = some (.placeholder ⟨"x", some ⟨"/a/x/__init__.py"⟩⟩) := by
  intro disk h s after
  have home : (⟨"/"⟩ : Path).isAbsolute := by decide
  have apart : s.Apart := by decide +kernel
  have package : ∀ fuel around, disk.folderAt true (fuel + 2) around 40 ["a", "x"] .dir =
      some (.dir [("__init__.py", .file)]) := by
    intro fuel around
    have listed : disk.childNames ["a", "x"] = ["__init__.py"] :=
      Disk.childNames_eq (by decide +kernel) (by decide +kernel)
    rw [Disk.folderAt_dir listed (by decide +kernel)]
    rfl
  have outer : disk.folder true ⟨"/a"⟩ =
      some (.dir [("x", .dir [("__init__.py", .file)]), ("x.py", .file)]) := by
    have found : disk.reach true ⟨"/a"⟩ = .ok ⟨["a"], some .dir, 40⟩ := by decide +kernel
    have listed : disk.childNames ["a"] = ["x", "x.py"] :=
      Disk.childNames_eq (by decide +kernel) (by decide +kernel)
    have directory : disk.entryAt ["a", "x"] = some .dir := by decide +kernel
    have file : disk.entryAt ["a", "x.py"] = some (.file []) := by decide +kernel
    simp only [Disk.folder, found]
    show disk.folderAt true (61 + 2 + 1) [] 40 ["a"] .dir = _
    rw [Disk.folderAt_dir listed (by decide +kernel)]
    simp only [List.filterMap_cons, List.filterMap_nil, List.cons_append, List.nil_append, directory,
      file, Option.bind_some, package]
    rfl
  have roots : s.roots = [⟨"/a"⟩, ⟨"/b"⟩] := by decide +kernel
  have files : disk.sourceFiles s.roots =
      [⟨"/a/x/__init__.py"⟩, ⟨"/a/x.py"⟩, ⟨"/b/x.pyw"⟩] := by
    simp only [Disk.sourceFiles, SearchPath.sourceFiles, roots, List.flatMap_cons, outer]
    decide +kernel
  obtain ⟨ordered, taken⟩ := rebuild_takes_first_candidate (initial {} ⟨"/"⟩) "/a:/b" .never h home apart
    "x" (by decide)
  have matching : (disk.sourceFiles s.roots).filter (fun file => s.moduleName file = some "x") =
      [⟨"/a/x/__init__.py"⟩, ⟨"/a/x.py"⟩, ⟨"/b/x.pyw"⟩] := by
    rw [files]
    decide +kernel
  have first : ((s.candidates "x").find? fun file => file ∈ disk.sourceFiles s.roots) =
      some ⟨"/a/x/__init__.py"⟩ := by
    rw [files]
    decide +kernel
  have entry := taken (fun _ _ => rfl) (by decide +kernel)
  refine ⟨apart, files, matching ▸ ordered, entry.trans ?_⟩
  exact congrArg (Option.map fun file => Module.placeholder ⟨"x", some file⟩) first

end Engine

end ImportAtlas
