import ImportAtlas.Proofs.CanonicalPaths

/-!
The root that names a path is the longest one around it. Two equally long roots around a path are one
place, and a search path has each place once. So there is only one such root, in whatever order the
roots are given.
-/

set_option autoImplicit false

namespace ImportAtlas

namespace Path

/-- Whether a root is the longest one around a place: any other root around it is shorter. -/
structure IsLongestAround (roots : List Path) (place root : Path) : Prop where
  listed : root ∈ roots
  around : root.components <+: place.components
  longest : ∀ other ∈ roots, other.components <+: place.components →
    other = root ∨ other.components.length < root.components.length

private theorem IsLongestAround.unique {roots : List Path} {place root other : Path}
    (h : IsLongestAround roots place root) (h' : IsLongestAround roots place other) :
    root = other := by
  rcases h.longest other h'.listed h'.around with same | shorter
  · exact same.symm
  · rcases h'.longest root h.listed h.around with same | shorter'
    · exact same
    · exact absurd shorter (Nat.lt_asymm shorter')

private theorem IsLongestAround.of_mem_iff {roots roots' : List Path} {place root : Path}
    (h : IsLongestAround roots place root) (same : ∀ root, root ∈ roots ↔ root ∈ roots') :
    IsLongestAround roots' place root :=
  ⟨(same root).mp h.listed, h.around,
    fun other listed => h.longest other ((same other).mpr listed)⟩

private theorem isLongestAround_congr {roots roots' : List Path}
    (same : ∀ root, root ∈ roots ↔ root ∈ roots')
    (place root : Path) : IsLongestAround roots place root ↔ IsLongestAround roots' place root :=
  ⟨fun h => h.of_mem_iff same, fun h => h.of_mem_iff fun other => (same other).symm⟩

end Path

namespace SearchPath

/-- Whether two lists give the same directories, in whatever order and spelling and however often. -/
def SameDirs (cwd : Path) (dirs dirs' : List Path) : Prop :=
  ∀ root, root ∈ dirs.map (Path.normalize cwd) ↔ root ∈ dirs'.map (Path.normalize cwd)

private theorem SameDirs.of_perm (cwd : Path) {dirs dirs' : List Path} (order : dirs.Perm dirs') :
    SameDirs cwd dirs dirs' :=
  fun _ => (order.map _).mem_iff

private theorem subset_addRoot (roots : List Path) (root : Path) : roots ⊆ addRoot roots root := by
  unfold addRoot
  split
  · exact List.Subset.refl roots
  · exact List.subset_append_left roots [root]

private theorem exists_same_of_addRoot (roots : List Path) (root : Path) :
    ∃ other ∈ addRoot roots root, root.same other := by
  unfold addRoot
  split
  · rename_i found
    exact List.any_eq_true.mp found
  · exact ⟨root, by simp, Path.same_self root⟩

private theorem subset_foldl_addRoot (dirs roots : List Path) :
    roots ⊆ dirs.foldl addRoot roots := by
  induction dirs generalizing roots with
  | nil => exact List.Subset.refl roots
  | cons dir dirs ih => exact List.Subset.trans (subset_addRoot roots dir) (ih _)

private theorem exists_same_of_foldl_addRoot {dirs : List Path} {dir : Path} (h : dir ∈ dirs)
    (roots : List Path) : ∃ root ∈ dirs.foldl addRoot roots, dir.same root := by
  induction dirs generalizing roots with
  | nil => simp at h
  | cons first dirs ih =>
    rcases List.mem_cons.mp h with rfl | later
    · obtain ⟨root, added, same⟩ := exists_same_of_addRoot roots dir
      exact ⟨root, subset_foldl_addRoot dirs _ added, same⟩
    · exact ih later _

variable {cwd : Path} {dirs dirs' : List Path}

private theorem eq_of_same (home : cwd.isAbsolute) {root other : Path}
    (given : root ∈ dirs.map (Path.normalize cwd)) (given' : other ∈ dirs.map (Path.normalize cwd))
    (same : root.same other) : root = other := by
  obtain ⟨dir, -, rfl⟩ := List.mem_map.mp given
  obtain ⟨dir', -, rfl⟩ := List.mem_map.mp given'
  exact Path.normalize_eq_of_same_normalize home same

private theorem mem_roots_ofRoots (home : cwd.isAbsolute) {root : Path} :
    root ∈ (ofRoots cwd dirs).roots ↔ root ∈ dirs.map (Path.normalize cwd) := by
  have kept : ∀ root ∈ (ofRoots cwd dirs).roots, root ∈ dirs.map (Path.normalize cwd) := by
    intro root listed
    exact (mem_foldl_addRoot listed).resolve_left List.not_mem_nil
  refine ⟨kept root, ?_⟩
  intro given
  -- A directory is left out only where a root stands for it that is spelled as its normal form.
  obtain ⟨other, listed, same⟩ := exists_same_of_foldl_addRoot given []
  obtain rfl := eq_of_same home given (kept other listed) same
  exact listed

private theorem isLongestAround_roots_iff (home : cwd.isAbsolute) {place root : Path} :
    Path.IsLongestAround (ofRoots cwd dirs).roots place root ↔
      Path.IsLongestAround (dirs.map (Path.normalize cwd)) place root :=
  Path.isLongestAround_congr (fun _ => mem_roots_ofRoots home) place root

/-- The search for a longest root ends with the only one there is. -/
theorem isLongestAround_of_longestRoot (home : cwd.isAbsolute) {place root : Path} {i : Nat}
    (h : (ofRoots cwd dirs).longestRoot place = some (i, root)) :
    Path.IsLongestAround (dirs.map (Path.normalize cwd)) place root := by
  obtain ⟨at_i, below⟩ := mem_of_longestRoot h
  have listed := List.mem_of_getElem? at_i
  have around := Path.startsWith_iff.mp below
  refine (isLongestAround_roots_iff home).mp ⟨listed, around, ?_⟩
  intro other listed' around'
  have le := length_le_of_longestRoot h listed' (Path.startsWith_iff.mpr around')
  rcases le.lt_or_eq with shorter | equal
  · exact Or.inr shorter
  · have same : other.components = root.components :=
      (List.prefix_of_prefix_length_le around' around le).eq_of_length equal
    exact Or.inl (eq_of_same home ((mem_roots_ofRoots home).mp listed')
      ((mem_roots_ofRoots home).mp listed) (beq_iff_eq.mpr same))

private theorem exists_longestRoot_of_around (home : cwd.isAbsolute) {place root : Path}
    (given : root ∈ dirs.map (Path.normalize cwd)) (around : root.components <+: place.components) :
    ∃ i root, (ofRoots cwd dirs).longestRoot place = some (i, root) := by
  obtain ⟨⟨i, root⟩, found⟩ := Option.isSome_iff_exists.mp
    (isSome_longestRoot ((mem_roots_ofRoots home).mpr given) (Path.startsWith_iff.mpr around))
  exact ⟨i, root, found⟩

private theorem longestRoot_of_isLongestAround (home : cwd.isAbsolute) {place root : Path}
    (h : Path.IsLongestAround (dirs.map (Path.normalize cwd)) place root) :
    ∃ i, (ofRoots cwd dirs).longestRoot place = some (i, root) := by
  obtain ⟨i, found, longest⟩ := exists_longestRoot_of_around home h.listed h.around
  obtain rfl := h.unique (isLongestAround_of_longestRoot home longest)
  exact ⟨i, longest⟩

private theorem rootIndex_eq_some_iff (home : cwd.isAbsolute) {p : Path} {i : Nat} :
    (ofRoots cwd dirs).rootIndex p = some i ↔ ∃ root, (ofRoots cwd dirs).roots[i]? = some root ∧
      Path.IsLongestAround (dirs.map (Path.normalize cwd)) (Path.normalize cwd p) root := by
  constructor
  · intro h
    obtain ⟨⟨j, root⟩, longest, rfl⟩ := Option.map_eq_some_iff.mp h
    exact ⟨root, (mem_of_longestRoot longest).1, isLongestAround_of_longestRoot home longest⟩
  · rintro ⟨root, at_i, h⟩
    obtain ⟨j, longest⟩ := longestRoot_of_isLongestAround home h
    -- A root stands at one position only.
    obtain ⟨bound, here⟩ := List.getElem?_eq_some_iff.mp at_i
    obtain ⟨bound', there⟩ := List.getElem?_eq_some_iff.mp (mem_of_longestRoot longest).1
    obtain rfl := (nodup_roots_ofRoots cwd dirs).getElem_inj_iff.mp (here.trans there.symm)
    exact Option.map_eq_some_iff.mpr ⟨(i, root), longest, rfl⟩

private theorem root_of_rootIndex_eq_some_iff (home : cwd.isAbsolute) {p root : Path} :
    ((ofRoots cwd dirs).rootIndex p).bind (fun i => (ofRoots cwd dirs).roots[i]?) = some root ↔
      Path.IsLongestAround (dirs.map (Path.normalize cwd)) (Path.normalize cwd p) root := by
  constructor
  · intro h
    obtain ⟨i, position, at_i⟩ := Option.bind_eq_some_iff.mp h
    obtain ⟨root', at_i', longest⟩ := (rootIndex_eq_some_iff home).mp position
    obtain rfl := Option.some.inj (at_i.symm.trans at_i')
    exact longest
  · intro h
    obtain ⟨i, longest⟩ := longestRoot_of_isLongestAround home h
    have at_i := (mem_of_longestRoot longest).1
    exact Option.bind_eq_some_iff.mpr ⟨i, (rootIndex_eq_some_iff home).mpr ⟨root, at_i, h⟩, at_i⟩

private theorem moduleName_eq_some_iff (home : cwd.isAbsolute) {p : Path} {name : String} :
    (ofRoots cwd dirs).moduleName p = some name ↔ ∃ root below,
      Path.IsLongestAround (dirs.map (Path.normalize cwd)) (Path.normalize cwd p) root ∧
      (Path.normalize cwd p).components = root.components ++ below ∧
      nameBelow below = some name := by
  constructor
  · intro h
    obtain ⟨⟨i, root⟩, longest, rest⟩ := Option.bind_eq_some_iff.mp h
    obtain ⟨below, behind, named⟩ := Option.bind_eq_some_iff.mp rest
    exact ⟨root, below, isLongestAround_of_longestRoot home longest,
      eq_append_of_componentsAfter behind, named⟩
  · rintro ⟨root, below, h, whole, named⟩
    obtain ⟨i, longest⟩ := longestRoot_of_isLongestAround home h
    have naming : (ofRoots cwd dirs).namingRoot p = some root :=
      Option.map_eq_some_iff.mpr ⟨(i, root), longest, rfl⟩
    rw [moduleName_eq_nameBelow naming whole, named]

/-- The order in which directories are given, their spelling and their repetition make no difference
to the name of a path and to the root that its position points at. That is the longest root around the
path, of which there is exactly one as soon as there is a root around it, and the name is made of the
components behind it. -/
theorem naming_ignores_root_order (home : cwd.isAbsolute) (same : SameDirs cwd dirs dirs')
    (p : Path) :
    let s := ofRoots cwd dirs
    let s' := ofRoots cwd dirs'
    let roots := dirs.map (Path.normalize cwd)
    let place := Path.normalize cwd p
    s.moduleName p = s'.moduleName p ∧
    ((s.rootIndex p).bind fun i => s.roots[i]?) = ((s'.rootIndex p).bind fun i => s'.roots[i]?) ∧
    (∀ i, s.rootIndex p = some i ↔
      ∃ root, s.roots[i]? = some root ∧ Path.IsLongestAround roots place root) ∧
    ((∃ root ∈ roots, root.components <+: place.components) →
      (s.rootIndex p).isSome ∧ ∃! root, Path.IsLongestAround roots place root) ∧
    ∀ name, s.moduleName p = some name ↔ ∃ root below, Path.IsLongestAround roots place root ∧
      place.components = root.components ++ below ∧ nameBelow below = some name := by
  intro s s' roots place
  have alike := Path.isLongestAround_congr same place
  refine ⟨?_, ?_, fun i => rootIndex_eq_some_iff home, ?_, fun name => moduleName_eq_some_iff home⟩
  · ext name
    simp only [s, s', moduleName_eq_some_iff home, place, alike]
  · ext root
    simp only [s, s', root_of_rootIndex_eq_some_iff home]
    exact alike root
  · rintro ⟨root, given, around⟩
    obtain ⟨i, root, longest⟩ := exists_longestRoot_of_around home given around
    have h := isLongestAround_of_longestRoot home longest
    have at_i := (mem_of_longestRoot longest).1
    exact ⟨Option.isSome_iff_exists.mpr ⟨i, (rootIndex_eq_some_iff home).mpr ⟨root, at_i, h⟩⟩,
      root, h, fun other h' => h'.unique h⟩

theorem naming_ignores_root_order_of_nested_roots :
    let cwd : Path := ⟨"/w"⟩
    let dirs : List Path := [⟨"/a"⟩, ⟨"/a/b"⟩, ⟨"../a/./b/"⟩, ⟨"/a/c"⟩, ⟨"/a"⟩]
    let s := ofRoots cwd dirs
    let s' := ofRoots cwd dirs.reverse
    cwd.isAbsolute ∧ SameDirs cwd dirs dirs.reverse ∧
    s.roots = [⟨"/a"⟩, ⟨"/a/b"⟩, ⟨"/a/c"⟩] ∧ s'.roots = [⟨"/a"⟩, ⟨"/a/c"⟩, ⟨"/a/b"⟩] ∧
    s.rootIndex ⟨"/a/b/x.py"⟩ = some 1 ∧ s'.rootIndex ⟨"/a/b/x.py"⟩ = some 2 ∧
    s.moduleName ⟨"/a/b/x.py"⟩ = some "x" ∧ s'.moduleName ⟨"/a/b/x.py"⟩ = some "x" := by
  intro cwd dirs s s'
  have home : cwd.isAbsolute := by decide
  have same : SameDirs cwd dirs dirs.reverse := .of_perm cwd (List.reverse_perm dirs).symm
  have named : s.moduleName ⟨"/a/b/x.py"⟩ = some "x" := by decide +kernel
  obtain ⟨alike, -⟩ := naming_ignores_root_order home same ⟨"/a/b/x.py"⟩
  exact ⟨home, same, by decide +kernel, by decide +kernel, by decide +kernel, by decide +kernel,
    named, alike.symm.trans named⟩

end SearchPath

end ImportAtlas
