import ImportAtlas.Proofs.DiskWalk
import ImportAtlas.Proofs.Precedence

/-!
A rebuild keeps the first file of each name that it meets, root by root. Where no root lies in
another, every file is met below the root that names it, so that roots have precedence in their
order. Where a root lies in an earlier one, its files are met too early.
-/

set_option autoImplicit false

namespace ImportAtlas

namespace Path

theorem startsWith_iff {p base : Path} :
    p.startsWith base ↔ base.components <+: p.components := by
  have all : ∀ b cs : List Component, (componentsAfter b cs).isSome ↔ b <+: cs := by
    intro b
    induction b with
    | nil => simp [componentsAfter]
    | cons c b ih =>
      intro cs
      cases cs with
      | nil => simp [componentsAfter]
      | cons d cs =>
        simp only [componentsAfter, List.cons_prefix_cons]
        split
        · rename_i same
          rw [ih]
          exact (and_iff_right same).symm
        · rename_i different
          simp [different]
  exact all _ _

private theorem startsWith_child {p : Path} {name : String} (h : IsName name) {file : Path}
    (below : file.startsWith (p.child name)) : file.startsWith p := by
  rw [startsWith_iff, components_child p h] at below
  exact startsWith_iff.mpr ((List.prefix_append _ _).trans below)

end Path

namespace Folder

mutual
theorem startsWith_of_mem_filesWhere {enter : Folder → Bool} {file : Path} :
    (folder : Folder) → folder.WellNamed → (place : Path) →
      file ∈ filesWhere enter place folder → file.startsWith place
  | .file, _, place, member => by
    simp only [filesWhere] at member
    split at member
    · obtain rfl := List.mem_singleton.mp member
      exact Path.startsWith_iff.mpr (List.prefix_refl _)
    · simp at member
  | .dir entries, named, place, member =>
    startsWith_of_mem_entryFiles entries named place member

private theorem startsWith_of_mem_entryFiles {enter : Folder → Bool} {file : Path} :
    (entries : List (String × Folder)) → EntriesWellNamed entries → (place : Path) →
      file ∈ entryFiles enter place entries → file.startsWith place
  | [], _, _, member => by simp [entryFiles] at member
  | (name, folder) :: rest, named, place, member => by
    obtain ⟨possible, inside, others⟩ := named
    simp only [entryFiles, List.mem_append] at member
    rcases member with here | later
    · split at here
      · have deeper := startsWith_of_mem_filesWhere folder inside _ here
        exact Path.startsWith_child possible deeper
      · simp at here
    · exact startsWith_of_mem_entryFiles rest others place later
end

end Folder

namespace SearchPath

private theorem eq_or_mem_of_foldl {α β : Type} {f : Option β → α → Option β} (value : α → β)
    {l : List α} {start : Option β} {r : β} (h : l.foldl f start = some r)
    (picks : ∀ best a r, f best a = some r → best = some r ∨ value a = r) :
    start = some r ∨ ∃ a ∈ l, value a = r := by
  induction l generalizing start with
  | nil => exact Or.inl h
  | cons a l ih =>
    rcases ih h with first | ⟨b, member, same⟩
    · rcases picks start a r first with kept | taken
      · exact Or.inl kept
      · exact Or.inr ⟨a, List.mem_cons_self, taken⟩
    · exact Or.inr ⟨b, List.mem_cons_of_mem a member, same⟩

private theorem isSome_foldl {α β : Type} {f : Option β → α → Option β}
    (h : ∀ best a, (f best a).isSome) {l : List α} (nonempty : l ≠ []) (start : Option β) :
    (l.foldl f start).isSome := by
  induction l using List.reverseRecOn with
  | nil => exact absurd rfl nonempty
  | append_singleton l a => simp [List.foldl_append, h]

def Apart (s : SearchPath) : Prop :=
  s.roots.Pairwise fun a b => ¬a.startsWith b ∧ ¬b.startsWith a

instance (s : SearchPath) : Decidable s.Apart :=
  inferInstanceAs (Decidable (List.Pairwise _ _))

variable {s : SearchPath}

theorem mem_of_longestRoot {p : Path} {i : Nat} {root : Path}
    (h : s.longestRoot p = some (i, root)) : s.roots[i]? = some root ∧ p.startsWith root := by
  unfold longestRoot at h
  have picked := eq_or_mem_of_foldl Prod.swap h ?_
  · rcases picked with impossible | ⟨⟨root', i'⟩, member, same⟩
    · exact absurd impossible (by simp)
    · obtain ⟨rfl, rfl⟩ := Prod.mk.inj same
      obtain ⟨listed, below⟩ := List.mem_filter.mp member
      exact ⟨List.mem_zipIdx_iff_getElem?.mp listed, below⟩
  · rintro (- | best) ⟨root', i'⟩ r found
    · exact Or.inr (Option.some.inj found)
    · simp only at found
      split at found
      · exact Or.inr (Option.some.inj found)
      · exact Or.inl found

theorem isSome_longestRoot {p root : Path} (member : root ∈ s.roots) (below : p.startsWith root) :
    (s.longestRoot p).isSome := by
  obtain ⟨i, listed⟩ := List.mem_iff_getElem?.mp member
  have candidate : (root, i) ∈ s.roots.zipIdx.filter fun entry => p.startsWith entry.1 :=
    List.mem_filter.mpr ⟨List.mem_zipIdx_iff_getElem?.mpr listed, below⟩
  unfold longestRoot
  refine isSome_foldl ?_ (List.ne_nil_of_mem candidate) none
  rintro (- | best) ⟨root', i'⟩
  · rfl
  · simp only
    split <;> rfl

theorem Apart.eq_of_startsWith (apart : s.Apart) {p : Path} {i j : Nat} {a b : Path}
    (at_i : s.roots[i]? = some a) (at_j : s.roots[j]? = some b) (in_a : p.startsWith a)
    (in_b : p.startsWith b) : i = j := by
  obtain ⟨bound_i, rfl⟩ := List.getElem?_eq_some_iff.mp at_i
  obtain ⟨bound_j, rfl⟩ := List.getElem?_eq_some_iff.mp at_j
  have nested := List.prefix_or_prefix_of_prefix (Path.startsWith_iff.mp in_a)
    (Path.startsWith_iff.mp in_b)
  have separate := List.pairwise_iff_getElem.mp apart
  rcases Nat.lt_trichotomy i j with before | same | after
  · obtain ⟨outside, outside'⟩ := separate i j bound_i bound_j before
    rcases nested with inner | inner
    · exact absurd (Path.startsWith_iff.mpr inner) outside'
    · exact absurd (Path.startsWith_iff.mpr inner) outside
  · exact same
  · obtain ⟨outside, outside'⟩ := separate j i bound_j bound_i after
    rcases nested with inner | inner
    · exact absurd (Path.startsWith_iff.mpr inner) outside
    · exact absurd (Path.startsWith_iff.mpr inner) outside'

private theorem Apart.rootIndex_eq (apart : s.Apart) {p : Path} (normal : p.IsNormal) {i : Nat}
    {root : Path} (listed : s.roots[i]? = some root) (below : p.startsWith root) :
    s.rootIndex p = some i := by
  obtain ⟨⟨j, other⟩, found⟩ := Option.isSome_iff_exists.mp
    (isSome_longestRoot (List.mem_of_getElem? listed) below)
  obtain ⟨listed', below'⟩ := mem_of_longestRoot found
  obtain rfl := apart.eq_of_startsWith listed listed' below below'
  rw [rootIndex, normal.normalize_eq, found]
  rfl

end SearchPath

namespace Disk

variable {d : Disk}

theorem childNames_eq {location : Location} {names : List String}
    (listed : (d.entries.filterMap fun (place, _) =>
      if place ≠ [] ∧ place.dropLast = location then place.getLast? else none) = names)
    (sorted : names.Pairwise (· ≤ ·)) : d.childNames location = names := by
  unfold childNames
  simp only [listed]
  apply List.mergeSort_of_pairwise
  exact sorted.imp fun le => decide_eq_true le

theorem folderAt_dir {follow : Bool} {fuel links : Nat} {around : List Location}
    {location : Location} {names : List String} (listed : d.childNames location = names)
    (no_link : ∀ name ∈ names, (d.entryAt (location ++ [name])).any Entry.isLink = false) :
    d.folderAt follow (fuel + 1) around links location .dir =
      some (.dir (names.filterMap fun name => ((d.entryAt (location ++ [name])).bind
        (d.folderAt follow fuel (location :: around) links (location ++ [name]))).map fun folder =>
          (name, folder))) := by
  rw [folderAt, listed]
  refine congrArg (some <| Folder.dir ·) (List.filterMap_congr fun name member => ?_)
  have free : ∀ target, d.entryAt (location ++ [name]) ≠ some (.link target) := fun target found => by
    simpa [found, Entry.isLink] using no_link name member
  rw [walk_last (Or.inr free)]
  cases d.entryAt (location ++ [name]) <;> simp

theorem sourceFiles_eq (d : Disk) (roots : List Path) :
    d.sourceFiles roots = roots.flatMap fun root => ((d.folder true root).map
      (Folder.importable root)).getD [] := by
  unfold sourceFiles SearchPath.sourceFiles
  congr 1
  funext root
  cases d.folder true root <;> rfl

theorem startsWith_of_mem_importable {root : Path} (normal : root.IsNormal) {file : Path}
    (h : file ∈ ((d.folder true root).map (Folder.importable root)).getD []) :
    file.startsWith root ∧ file.IsNormal := by
  cases found : d.folder true root with
  | none => simp [found] at h
  | some folder =>
    simp only [found, Option.map_some, Option.getD_some] at h
    have wellNamed := wellNamed_folder found
    exact ⟨Folder.startsWith_of_mem_filesWhere folder wellNamed root h,
      Folder.isNormal_of_mem_filesWhere folder wellNamed root normal h⟩

/-- Where no root lies in another, files come in the order of the roots that name them. -/
theorem pairwise_rootIndex_sourceFiles (d : Disk) {s : SearchPath} (normal : s.IsNormal)
    (apart : s.Apart) : (d.sourceFiles s.roots).Pairwise fun a b =>
      ∃ j k, s.rootIndex a = some j ∧ s.rootIndex b = some k ∧ j ≤ k := by
  have ranked : ∀ (i : Nat) (root : Path), s.roots[i]? = some root → ∀ file,
      file ∈ ((d.folder true root).map (Folder.importable root)).getD [] →
      s.rootIndex file = some i := by
    intro i root listed file member
    obtain ⟨below, file_normal⟩ := startsWith_of_mem_importable
      (normal.roots root (List.mem_of_getElem? listed)) member
    exact apart.rootIndex_eq file_normal listed below
  rw [sourceFiles_eq, List.pairwise_flatMap]
  constructor
  · intro root member
    obtain ⟨i, listed⟩ := List.mem_iff_getElem?.mp member
    exact List.pairwise_of_forall_mem_list fun a in_a b in_b =>
      ⟨i, i, ranked i root listed a in_a, ranked i root listed b in_b, le_rfl⟩
  · apply List.pairwise_iff_getElem.mpr
    intro i j bound_i bound_j before a in_a b in_b
    exact ⟨i, j, ranked i _ (List.getElem?_eq_getElem bound_i) a in_a,
      ranked j _ (List.getElem?_eq_getElem bound_j) b in_b, before.le⟩

end Disk

namespace Engine

/-- Where no root lies in another, a rebuild puts a file of the earliest root behind each name. -/
theorem rebuild_keeps_precedence (e : Engine) (text : String) (cancel : Cancellation) (h : Host)
    (home : h.disk.cwd.isAbsolute) :
    let s := SearchPath.parse h.disk.cwd text
    let files := h.disk.sourceFiles s.roots
    let after := (e.rebuild text cancel h).2.1.state.index
    s.Apart → (∀ k < files.length, cancel.sees k = false) →
    ∀ name file, after.fileOf? name = some file → ∃ k, s.rootIndex file = some k ∧
      IsLeast {j | ∃ other ∈ files, s.moduleName other = some name ∧
        s.rootIndex other = some j} k := by
  intro s files after apart unseen name file behind
  have uninterrupted := Cancellation.interrupts_eq_false unseen
  obtain ⟨-, -, -, -, entries⟩ := Index.rebuild_index e.state.index s files uninterrupted
  obtain ⟨m, stands, backed⟩ := Option.bind_eq_some_iff.mp behind
  have entry : Index.rebuilt s files name = some m := (entries name).symm.trans stands
  have first : files.find? (fun file => s.moduleName file = some name) = some file := by
    unfold Index.rebuilt at entry
    split at entry
    · obtain rfl := Option.some.inj entry
      exact absurd backed.symm (Option.some_ne_none file)
    · split at entry
      · exact absurd entry.symm (Option.some_ne_none m)
      · obtain ⟨found, is_first, rfl⟩ := Option.map_eq_some_iff.mp entry
        obtain rfl := Option.some.inj backed
        exact is_first
  have normal := SearchPath.isNormal_parse home text
  have ordered := h.disk.pairwise_rootIndex_sourceFiles normal apart
  obtain ⟨matching, before, rest, parts, earlier⟩ := List.find?_eq_some_iff_append.mp first
  have own : s.moduleName file = some name := of_decide_eq_true matching
  obtain ⟨k, rank⟩ := SearchPath.exists_rootIndex_of_moduleName own
  refine ⟨k, rank, ⟨file, List.mem_of_find?_eq_some first, own, rank⟩, ?_⟩
  rintro j ⟨other, member, other_named, other_rank⟩
  -- A file of the name is not before the first one, and those behind it have no lower rank.
  simp only [files] at parts member
  rw [parts] at member ordered
  rcases List.mem_append.mp member with passed | member
  · have mismatch := earlier other passed
    rw [other_named] at mismatch
    exact absurd mismatch (by simp)
  · rcases List.mem_cons.mp member with rfl | later
    · exact (Option.some.inj (rank.symm.trans other_rank)).le
    · obtain ⟨-, from_file, -⟩ := List.pairwise_append.mp ordered
      obtain ⟨k', j', rank', other_rank', le⟩ := List.rel_of_pairwise_cons from_file later
      obtain rfl := Option.some.inj (rank.symm.trans rank')
      obtain rfl := Option.some.inj (other_rank.symm.trans other_rank')
      exact le

theorem rebuild_keeps_precedence_of_second_root :
    let disk : Disk :=
      .ofEntries ⟨"/"⟩ [(["a"], .dir), (["a", "y.py"], .file []), (["b"], .dir),
          (["b", "y.py"], .file [])]
    let h : Host := ⟨disk, ⟨"/"⟩, ⟨0, 0⟩⟩
    let s := SearchPath.parse ⟨"/"⟩ "/b:/a"
    let after := ((initial {} ⟨"/"⟩).rebuild "/b:/a" .never h).2.1.state.index
    s.Apart ∧ disk.sourceFiles s.roots = [⟨"/b/y.py"⟩, ⟨"/a/y.py"⟩] ∧
      after.fileOf? "y" = some ⟨"/b/y.py"⟩ ∧
      ∃ k, s.rootIndex ⟨"/b/y.py"⟩ = some k ∧
        IsLeast {j | ∃ other ∈ disk.sourceFiles s.roots, s.moduleName other = some "y" ∧
          s.rootIndex other = some j} k := by
  intro disk h s after
  have home : (⟨"/"⟩ : Path).isAbsolute := by decide
  have apart : s.Apart := by decide +kernel
  have behind : after.fileOf? "y" = some ⟨"/b/y.py"⟩ := by decide +kernel
  have least := rebuild_keeps_precedence (initial {} ⟨"/"⟩) "/b:/a" .never h home apart
    (fun _ _ => rfl) "y" _ behind
  exact ⟨apart, by decide +kernel, behind, least⟩

/-- A root in an earlier one: its files are met on the way through the earlier one, before a file of
the same name that is of the earlier root. -/
theorem nested_root_takes_precedence :
    let disk : Disk :=
      .ofEntries ⟨"/"⟩ [(["a"], .dir), (["a", "pkg"], .dir),
          (["a", "pkg", "__init__.py"], .file []),
          (["a", "pkg", "z.py"], .file []), (["a", "z.py"], .file [])]
    let h : Host := ⟨disk, ⟨"/"⟩, ⟨0, 0⟩⟩
    let s := SearchPath.parse ⟨"/"⟩ "/a:/a/pkg"
    let after := ((initial {} ⟨"/"⟩).rebuild "/a:/a/pkg" .never h).2.1.state.index
    after.fileOf? "z" = some ⟨"/a/pkg/z.py"⟩ ∧ s.rootIndex ⟨"/a/pkg/z.py"⟩ = some 1 ∧
      ⟨"/a/z.py"⟩ ∈ disk.sourceFiles s.roots ∧ s.moduleName ⟨"/a/z.py"⟩ = some "z" ∧
      s.rootIndex ⟨"/a/z.py"⟩ = some 0 := by
  intro disk h s after
  have package : ∀ fuel around, disk.folderAt true (fuel + 2) around 40 ["a", "pkg"] .dir =
      some (.dir [("__init__.py", .file), ("z.py", .file)]) := by
    intro fuel around
    have listed : disk.childNames ["a", "pkg"] = ["__init__.py", "z.py"] :=
      Disk.childNames_eq (by decide +kernel) (by decide +kernel)
    rw [Disk.folderAt_dir listed (by decide +kernel)]
    rfl
  have outer : disk.folder true ⟨"/a"⟩ =
      some (.dir [("pkg", .dir [("__init__.py", .file), ("z.py", .file)]), ("z.py", .file)]) := by
    have found : disk.reach true ⟨"/a"⟩ = .ok ⟨["a"], some .dir, 40⟩ := by decide +kernel
    have listed : disk.childNames ["a"] = ["pkg", "z.py"] :=
      Disk.childNames_eq (by decide +kernel) (by decide +kernel)
    have file : disk.entryAt ["a", "z.py"] = some (.file []) := by decide +kernel
    have directory : disk.entryAt ["a", "pkg"] = some .dir := by decide +kernel
    simp only [Disk.folder, found]
    show disk.folderAt true (46 + 2 + 1) [] 40 ["a"] .dir = _
    rw [Disk.folderAt_dir listed (by decide +kernel)]
    simp only [List.filterMap_cons, List.filterMap_nil, List.cons_append, List.nil_append, directory,
      file, Option.bind_some, package]
    rfl
  have inner : disk.folder true ⟨"/a/pkg"⟩ =
      some (.dir [("__init__.py", .file), ("z.py", .file)]) := by
    have found : disk.reach true ⟨"/a/pkg"⟩ = .ok ⟨["a", "pkg"], some .dir, 40⟩ := by decide +kernel
    simp only [Disk.folder, found]
    exact package _ _
  have roots : s.roots = [⟨"/a"⟩, ⟨"/a/pkg"⟩] := by decide +kernel
  have files : disk.sourceFiles s.roots =
      [⟨"/a/pkg/__init__.py"⟩, ⟨"/a/pkg/z.py"⟩, ⟨"/a/z.py"⟩, ⟨"/a/pkg/__init__.py"⟩,
        ⟨"/a/pkg/z.py"⟩] := by
    simp only [Disk.sourceFiles, SearchPath.sourceFiles, roots, List.flatMap_cons, outer, inner]
    decide +kernel
  have rebuilt : after = ((Index.initial ⟨"/"⟩).rebuild s (disk.sourceFiles s.roots) .never).2 := rfl
  rw [rebuilt, files]
  decide +kernel

end Engine

end ImportAtlas
