import ImportAtlas.Proofs.SourceFiles
import Mathlib.Data.List.Nodup
import Mathlib.Data.String.Basic

/-!
The files that could provide a module. The name of a file and the files of a name are worked out apart
from each other and in opposite directions. They agree: the candidates for a name are the source files
that have it, whichever root they lie below, and none of them comes twice.
-/

set_option autoImplicit false

namespace ImportAtlas

namespace Path

/-- Whether the names that lead to `a` stand before those that lead to `b`. -/
def Before (a b : Path) : Prop :=
  Disk.namesOf a < Disk.namesOf b

theorem Before.ne {a b : Path} (h : a.Before b) : a ≠ b := by
  rintro rfl
  exact List.lt_irrefl _ h

theorem Before.trans {a b c : Path} (h : a.Before b) (h' : b.Before c) : a.Before c :=
  List.lt_trans h h'

theorem namesOf_child (p : Path) {name : String} (h : IsName name) :
    Disk.namesOf (p.child name) = Disk.namesOf p ++ [name] := by
  simp [Disk.namesOf, components_child p h]

private theorem lt_append {s t : String} (h : t ≠ "") : s < s ++ t := by
  obtain ⟨c, cs, chars⟩ := List.exists_cons_of_ne_nil (fun empty => h (String.toList_inj.mp empty))
  have longer : s.toList ++ [] < s.toList ++ c :: cs := List.append_left_lt (List.nil_lt_cons c cs)
  rw [List.append_nil] at longer
  rwa [String.lt_iff_toList_lt, String.toList_append, chars]

end Path

namespace SearchPath

variable {s : SearchPath} {root : Path} {dirs : List String} {stem ext : String}

private theorem components_sourceBelow (root : Path) (clean : ∀ part ∈ dirs ++ [stem], IsPart part)
    (known : ext ∈ Path.sourceExtensions) :
    (sourceBelow root dirs stem ext).components =
      root.components ++ (dirs ++ [stem ++ "." ++ ext]).map .normal := by
  have names : ∀ dir ∈ dirs, Path.IsName dir := fun dir member =>
    (clean dir (List.mem_append_left _ member)).isName
  have final : Path.IsName stem := (clean stem (by simp)).isName
  rw [sourceBelow, Path.components_child _ (Path.isName_append_extension final known),
    Path.components_foldl_child _ names]
  simp

private theorem namesOf_sourceBelow (root : Path) (clean : ∀ part ∈ dirs ++ [stem], IsPart part)
    (known : ext ∈ Path.sourceExtensions) :
    Disk.namesOf (sourceBelow root dirs stem ext) =
      Disk.namesOf root ++ dirs ++ [stem ++ "." ++ ext] := by
  simp [Disk.namesOf, components_sourceBelow root clean known, List.filterMap_map]

private theorem sourceBelow_inj {root' : Path} {dirs' : List String} {stem' ext' : String}
    (clean : ∀ part ∈ dirs ++ [stem], IsPart part) (known : ext ∈ Path.sourceExtensions)
    (clean' : ∀ part ∈ dirs' ++ [stem'], IsPart part) (known' : ext' ∈ Path.sourceExtensions)
    (same : sourceBelow root dirs stem ext = sourceBelow root' dirs' stem' ext') :
    root.components ++ dirs.map .normal = root'.components ++ dirs'.map .normal ∧ stem = stem' := by
  have whole := congrArg Path.components same
  rw [components_sourceBelow root clean known, components_sourceBelow root' clean' known'] at whole
  simp only [List.map_append, List.map_singleton, ← List.append_assoc] at whole
  obtain ⟨front, last⟩ := List.append_singleton_inj.mp whole
  have stripped := congrArg stripSourceExtension (Component.normal.inj last)
  rw [stripSourceExtension_append _ known, stripSourceExtension_append _ known'] at stripped
  exact ⟨front, Option.some.inj stripped⟩

private theorem dropInit_concat (dirs : List String) (stem : String) :
    (dropInit (dirs ++ [stem]) = dirs ∧ stem = Path.packageInit) ∨
      (dropInit (dirs ++ [stem]) = dirs ++ [stem] ∧ stem ≠ Path.packageInit) := by
  simp only [dropInit, List.getLast?_concat, List.dropLast_concat, Option.some.injEq]
  split
  · rename_i init
    exact Or.inl ⟨rfl, init⟩
  · rename_i plain
    exact Or.inr ⟨rfl, plain⟩

private theorem exists_dirs_of_nameBelow {below : List Component} {base name : String}
    (last : below.getLast? = some (.normal base)) (stripped : stripSourceExtension base = some stem)
    (named : nameBelow below = some name) :
    ∃ dirs, below = (dirs ++ [base]).map .normal ∧ (∀ part ∈ dirs ++ [stem], isSegment part) ∧
      name = joinDots (dropInit (dirs ++ [stem])) := by
  obtain ⟨front, rfl⟩ := List.getLast?_eq_some_iff.mp last
  obtain ⟨names, ended, found, rfl⟩ := exists_segments_of_nameBelow named
  obtain ⟨dirs, -, rfl, -, -, -⟩ := segments_append (by simp) found
  have whole := segments_of_source stripped dirs
  rw [List.map_append, List.map_singleton, found] at whole
  split at whole
  · rename_i segment
    obtain ⟨rfl, -⟩ := Prod.mk.inj (Option.some.inj whole)
    exact ⟨dirs, by simp, List.all_eq_true.mp segment, rfl⟩
  · simp at whole

private theorem exists_sourceBelow_of_moduleName (normal : s.IsNormal) {file : Path}
    (own : file.IsNormal) (source : file.isSourceFile) {name : String} (nonempty : name ≠ "")
    (named : s.moduleName file = some name) :
    ∃ root ∈ s.roots, s.namingRoot file = some root ∧ ∃ dirs stem, ∃ ext ∈ Path.sourceExtensions,
      file = sourceBelow root dirs stem ext ∧ (∀ part ∈ dirs ++ [stem], IsPart part) ∧
        name = joinDots (dropInit (dirs ++ [stem])) := by
  simp only [moduleName, own.normalize_eq, Option.bind_eq_bind] at named
  obtain ⟨⟨i, root⟩, longest, rest⟩ := Option.bind_eq_some_iff.mp named
  obtain ⟨below, behind, inner⟩ := Option.bind_eq_some_iff.mp rest
  have whole : file.components = root.components ++ below := eq_append_of_componentsAfter behind
  have listed : root ∈ s.roots := List.mem_of_getElem? (mem_of_longestRoot longest).1
  have naming : s.namingRoot file = some root := by
    rw [namingRoot, own.normalize_eq, longest]
    rfl
  obtain ⟨base, stem, last, stripped, -⟩ := exists_stem_of_isSourceFile source
  have ending : below.getLast? = some (.normal base) := by
    have filled : below ≠ [] := by
      rintro rfl
      exact nonempty (Option.some.inj inner).symm
    have final := Path.getLast?_components last
    rwa [whole, List.getLast?_append_of_ne_nil _ filled] at final
  obtain ⟨dirs, rfl, segment, joined⟩ := exists_dirs_of_nameBelow ending stripped inner
  obtain ⟨ext, known, rfl⟩ := eq_append_of_stripSourceExtension stripped
  have clean : ∀ part ∈ dirs ++ [stem ++ "." ++ ext], '/' ∉ part.toList := by
    intro part member
    refine (Path.isName_of_mem_components (p := file) ?_).2.2.2
    rw [whole]
    exact List.mem_append_right _ (List.mem_map_of_mem member)
  have parts : ∀ part ∈ dirs ++ [stem], IsPart part := by
    intro part member
    rcases List.mem_append.mp member with inside | final
    · exact ⟨segment part member, clean part (List.mem_append_left _ inside)⟩
    · obtain rfl := List.mem_singleton.mp final
      exact isPart_of_stripped (clean _ (by simp)) stripped (segment part member)
  refine ⟨root, listed, naming, dirs, stem, ext, known, ?_, parts, joined⟩
  refine own.eq_of_same (isNormal_sourceBelow (normal.roots root listed) parts known) ?_
  rw [Path.same, beq_iff_eq, whole, components_sourceBelow root parts known]

private theorem length_le_of_namingRoot {p other : Path} (naming : s.namingRoot p = some root)
    (member : other ∈ s.roots) (below : (Path.normalize s.cwd p).startsWith other) :
    other.components.length ≤ root.components.length := by
  obtain ⟨⟨i, _⟩, longest, rfl⟩ := Option.map_eq_some_iff.mp naming
  exact length_le_of_longestRoot longest member below

private theorem ne_nil_of_joinDots {parts : List String} (h : joinDots parts ≠ "") :
    parts ≠ [] := by
  rintro rfl
  exact h rfl

theorem exists_place_of_moduleName (normal : s.IsNormal) {file : Path} (own : file.IsNormal)
    (source : file.isSourceFile) {name : String} (nonempty : name ≠ "")
    (named : s.moduleName file = some name) :
    ∃ root ∈ s.roots, s.namingRoot file = some root ∧
      file ∈ places root ((Text.split '.' name).foldl Path.child ⟨""⟩) := by
  obtain ⟨root, listed, naming, dirs, stem, ext, known, rfl, clean, rfl⟩ :=
    exists_sourceBelow_of_moduleName normal own source nonempty named
  have filled := ne_nil_of_joinDots nonempty
  have parts : ∀ part ∈ dropInit (dirs ++ [stem]), IsPart part := fun part member =>
    clean part ((dropInit_prefix_self _).subset member)
  refine ⟨root, listed, naming, ?_⟩
  rw [split_joinDots filled parts, mem_places_iff filled parts]
  refine ⟨dirs, stem, ext, known, rfl, ?_⟩
  rcases dropInit_concat dirs stem with ⟨whole, init⟩ | ⟨whole, -⟩
  · exact Or.inl ⟨whole.symm, init⟩
  · exact Or.inr whole.symm

private theorem eq_of_place {dirs' : List String}
    (place : (dirs = dropInit (dirs' ++ [stem]) ∧ stem = Path.packageInit) ∨
      dirs ++ [stem] = dropInit (dirs' ++ [stem]))
    (deep : dirs'.length ≤ dirs.length) : dirs = dirs' := by
  rcases dropInit_concat dirs' stem with ⟨whole, init⟩ | ⟨whole, plain⟩
  · rw [whole] at place
    rcases place with ⟨same, -⟩ | extended
    · exact same
    · have size := congrArg List.length extended
      rw [List.length_append, List.length_singleton] at size
      omega
  · rw [whole] at place
    rcases place with ⟨-, init⟩ | same
    · exact absurd init plain
    · exact List.append_cancel_right same

/-- A place for a name that has this name has it from the root it was made for: below a longer root
it would stand for fewer segments. -/
theorem namingRoot_of_mem_places (normal : s.IsNormal) (listed : root ∈ s.roots) {name : String}
    (nonempty : name ≠ "") {file : Path} (named : s.moduleName file = some name)
    (place : file ∈ places root ((Text.split '.' name).foldl Path.child ⟨""⟩)) :
    s.namingRoot file = some root := by
  have candidate : file ∈ s.candidates name := by
    rw [candidates, if_neg nonempty]
    exact List.mem_filter.mpr ⟨List.mem_flatMap.mpr ⟨root, listed, place⟩, decide_eq_true named⟩
  have own := normal.of_mem_candidates candidate
  obtain ⟨root', listed', naming, dirs', stem', ext', known', rfl, clean', rfl⟩ :=
    exists_sourceBelow_of_moduleName normal own (isSourceFile_of_mem_candidates candidate) nonempty
      named
  have filled := ne_nil_of_joinDots nonempty
  have parts : ∀ part ∈ dropInit (dirs' ++ [stem']), IsPart part := fun part member =>
    clean' part ((dropInit_prefix_self _).subset member)
  rw [split_joinDots filled parts, mem_places_iff filled parts] at place
  obtain ⟨dirs, stem, ext, known, same, shape⟩ := place
  have clean := isPart_of_place parts shape
  obtain ⟨front, rfl⟩ := sourceBelow_inj clean' known' clean known same
  have longest : root.components.length ≤ root'.components.length := by
    apply length_le_of_namingRoot naming listed
    rw [own.normalize_eq, Path.startsWith_iff, same, components_sourceBelow root clean known]
    exact List.prefix_append _ _
  have deep : dirs'.length ≤ dirs.length := by
    have lengths : root'.components.length + dirs'.length = root.components.length + dirs.length := by
      simpa using congrArg List.length front
    omega
  obtain rfl := eq_of_place shape deep
  have equal : root'.components = root.components := List.append_cancel_right front
  have spelled : root' = root := by
    refine (normal.roots root' listed').eq_of_same (normal.roots root listed) ?_
    rw [Path.same, equal, beq_self_eq_true]
  rw [naming, spelled]

private theorem before_sourceBelow (root : Path) (clean : ∀ part ∈ dirs ++ [stem], IsPart part) :
    (Path.sourceExtensions.map (sourceBelow root dirs stem)).Pairwise Path.Before := by
  have longer : stem ++ "." ++ "py" < stem ++ "." ++ "pyw" := by
    have split : stem ++ "." ++ "pyw" = (stem ++ "." ++ "py") ++ "w" := by
      simp only [String.append_assoc]
      rfl
    rw [split]
    exact Path.lt_append (by decide)
  have before : Path.Before (sourceBelow root dirs stem "py") (sourceBelow root dirs stem "pyw") := by
    rw [Path.Before, namesOf_sourceBelow root clean (by decide),
      namesOf_sourceBelow root clean (by decide)]
    exact List.append_left_lt (List.cons_lt_cons_iff.mpr (Or.inl longer))
  simp [Path.sourceExtensions, before]

private theorem pairwise_places (root : Path) {parts : List String} (filled : parts ≠ [])
    (h : ∀ part ∈ parts, IsPart part) :
    (places root (parts.foldl Path.child ⟨""⟩)).Pairwise Path.Before := by
  obtain ⟨front, last, rfl⟩ : ∃ front last, parts = front ++ [last] :=
    ⟨_, _, (List.dropLast_append_getLast filled).symm⟩
  have package : ∀ part ∈ (front ++ [last]) ++ [Path.packageInit], IsPart part :=
    isPart_of_place h (Or.inl ⟨rfl, rfl⟩)
  rw [places_eq root h, List.pairwise_append]
  refine ⟨before_sourceBelow root package, before_sourceBelow root h, ?_⟩
  -- The directory of a name stands before the files that extend it.
  intro a in_a b in_b
  obtain ⟨ext, known, rfl⟩ := List.mem_map.mp in_a
  obtain ⟨ext', known', rfl⟩ := List.mem_map.mp in_b
  rw [Path.Before, namesOf_sourceBelow root package known, namesOf_sourceBelow root h known']
  have longer : last < last ++ "." ++ ext' := by
    rw [String.append_assoc]
    exact Path.lt_append fun empty => by simp at empty
  simp only [List.append_assoc, List.singleton_append]
  exact List.append_left_lt (List.append_left_lt (List.cons_lt_cons_iff.mpr (Or.inl longer)))

def candidatesBelow (s : SearchPath) (name : String) (root : Path) : List Path :=
  (places root ((Text.split '.' name).foldl Path.child ⟨""⟩)).filter fun file =>
    s.moduleName file = some name

theorem candidates_eq (s : SearchPath) {name : String} (nonempty : name ≠ "") :
    s.candidates name = s.roots.flatMap (s.candidatesBelow name) := by
  rw [candidates, if_neg nonempty, List.filter_flatMap]
  rfl

private theorem moduleName_of_mem_candidatesBelow {name : String} {file : Path}
    (h : file ∈ s.candidatesBelow name root) : s.moduleName file = some name :=
  of_decide_eq_true (List.mem_filter.mp h).2

theorem pairwise_candidatesBelow (s : SearchPath) {name : String} (nonempty : name ≠ "")
    (root : Path) : (s.candidatesBelow name root).Pairwise Path.Before := by
  rcases List.eq_nil_or_concat (s.candidatesBelow name root) with none | ⟨before, file, listed⟩
  · rw [none]
    exact List.Pairwise.nil
  · -- A name that a file has is made of segments.
    have member : file ∈ s.candidatesBelow name root := by simp [listed, List.concat_eq_append]
    obtain ⟨parts, clean, rfl⟩ :=
      exists_parts_of_moduleName (moduleName_of_mem_candidatesBelow member)
    have filled := ne_nil_of_joinDots nonempty
    rw [candidatesBelow, split_joinDots filled clean]
    exact (pairwise_places root filled clean).filter _

private theorem namingRoot_of_mem_candidatesBelow (normal : s.IsNormal) (listed : root ∈ s.roots)
    {name : String} (nonempty : name ≠ "") {file : Path} (h : file ∈ s.candidatesBelow name root) :
    s.namingRoot file = some root :=
  namingRoot_of_mem_places normal listed nonempty (moduleName_of_mem_candidatesBelow h)
    (List.mem_of_mem_filter h)

private theorem mem_candidates_iff (normal : s.IsNormal) {name : String} (nonempty : name ≠ "")
    {file : Path} :
    file ∈ s.candidates name ↔ file.IsNormal ∧ file.isSourceFile ∧ s.moduleName file = some name := by
  constructor
  · intro member
    exact ⟨normal.of_mem_candidates member, isSourceFile_of_mem_candidates member,
      moduleName_of_mem_candidates member⟩
  · rintro ⟨own, source, named⟩
    obtain ⟨root, listed, -, place⟩ := exists_place_of_moduleName normal own source nonempty named
    rw [candidates, if_neg nonempty]
    exact List.mem_filter.mpr ⟨List.mem_flatMap.mpr ⟨root, listed, place⟩, decide_eq_true named⟩

theorem nodup_candidates (normal : s.IsNormal) (distinct : s.roots.Nodup) {name : String}
    (nonempty : name ≠ "") : (s.candidates name).Nodup := by
  rw [candidates_eq s nonempty, List.nodup_flatMap]
  constructor
  · intro root listed
    exact (pairwise_candidatesBelow s nonempty root).imp fun before => before.ne
  · refine distinct.imp_of_mem ?_
    intro a b in_a in_b different file first second
    have own := namingRoot_of_mem_candidatesBelow normal in_a nonempty first
    have other := namingRoot_of_mem_candidatesBelow normal in_b nonempty second
    exact different (Option.some.inj (own.symm.trans other))

private theorem nodup_addRoot {roots : List Path} (h : roots.Nodup) (root : Path) :
    (addRoot roots root).Nodup := by
  unfold addRoot
  split
  · exact h
  · rename_i other
    refine List.nodup_append.mpr ⟨h, List.nodup_singleton root, ?_⟩
    rintro listed member _ again rfl
    obtain rfl := List.mem_singleton.mp again
    exact other (List.any_eq_true.mpr ⟨listed, member, Path.same_self listed⟩)

theorem nodup_roots_ofRoots (cwd : Path) (dirs : List Path) : (ofRoots cwd dirs).roots.Nodup := by
  have every : ∀ (rest roots : List Path), roots.Nodup → (rest.foldl addRoot roots).Nodup := by
    intro rest
    induction rest with
    | nil => exact fun roots h => h
    | cons root rest ih => exact fun roots h => ih _ (nodup_addRoot h root)
  exact every _ [] List.nodup_nil

private theorem isNormal_ofRoots {cwd : Path} (home : cwd.isAbsolute) {dirs : List Path}
    (absolute : ∀ root ∈ (ofRoots cwd dirs).roots, root.isAbsolute) : (ofRoots cwd dirs).IsNormal := by
  refine ⟨home, ?_⟩
  intro root member
  rcases mem_foldl_addRoot member with impossible | listed
  · simp at impossible
  obtain ⟨dir, -, rfl⟩ := List.mem_map.mp listed
  refine Path.isNormal_normalize home ?_
  intro empty
  obtain ⟨text⟩ := dir
  obtain rfl : text = "" := empty
  have stays : Path.normalize cwd ⟨""⟩ = ⟨""⟩ := rfl
  have begins : (⟨""⟩ : Path).isAbsolute := stays ▸ absolute _ member
  exact absurd begins (by decide)

/-- The candidates for a name are, each once, the source files that have it. This holds for absolute
roots, which every text of a search path has; and so what a walk below the roots or a state of the
index has under a name is a candidate for it, as far as it is a source file. -/
theorem candidates_invert_moduleName {cwd : Path} (home : cwd.isAbsolute) :
    (∀ text, ∀ root ∈ (parse cwd text).roots, root.isAbsolute) ∧
    ∀ dirs, let s := ofRoots cwd dirs
      (∀ root ∈ s.roots, root.isAbsolute) → ∀ name, name ≠ "" →
        (s.candidates name).Nodup ∧
        (∀ file, file ∈ s.candidates name ↔
          Path.normalize cwd file = file ∧ file.isSourceFile ∧ s.moduleName file = some name) ∧
        (∀ d : Disk, ∀ file ∈ d.sourceFiles s.roots,
          s.moduleName file = some name → file ∈ s.candidates name) ∧
        ∀ i : Index, i.WellFormed → i.searchPath = s → ∀ file, i.fileOf? name = some file →
          (file ∈ s.candidates name ↔ file.isSourceFile) := by
  refine ⟨fun text root listed => ((isNormal_parse home text).roots root listed).isAbsolute, ?_⟩
  intro dirs s absolute name nonempty
  have normal : s.IsNormal := isNormal_ofRoots home absolute
  have exact_set : ∀ file, file ∈ s.candidates name ↔
      file.IsNormal ∧ file.isSourceFile ∧ s.moduleName file = some name :=
    fun file => mem_candidates_iff normal nonempty
  refine ⟨nodup_candidates normal (nodup_roots_ofRoots cwd dirs) nonempty, ?_, ?_, ?_⟩
  · intro file
    rw [exact_set]
    refine and_congr_left ?_
    rintro ⟨source, -⟩
    constructor
    · exact fun own => own.normalize_eq cwd
    · intro stays
      obtain ⟨base, -, last, -⟩ := exists_stem_of_isSourceFile source
      rw [← stays]
      exact Path.isNormal_normalize home (Path.text_ne_empty_of_fileName? last)
  · intro d file member own_name
    have own := d.isNormal_of_mem_sourceFiles normal.roots member
    exact (exact_set file).mpr ⟨own, Disk.isSourceFile_of_mem_sourceFiles member, own_name⟩
  · intro i well same file behind
    obtain ⟨-, -, own, own_name⟩ := well.of_fileOf? behind
    rw [same] at own_name
    rw [exact_set]
    exact ⟨fun h => h.2.1, fun source => ⟨own, source, own_name⟩⟩

theorem candidates_invert_moduleName_in_nested_roots :
    let disk : Disk :=
      .ofEntries ⟨"/"⟩ [(["a"], .dir), (["a", "x.py"], .file [])]
    let h : Host := ⟨disk, ⟨"/"⟩, ⟨0, 0⟩⟩
    let index := ((Engine.initial {} ⟨"/"⟩).rebuild "/a:/a/b" .never h).2.1.state.index
    let s := ofRoots ⟨"/"⟩ [⟨"/a"⟩, ⟨"a/b"⟩]
    s.roots = [⟨"/a"⟩, ⟨"/a/b"⟩] ∧
      s.candidates "x" = [⟨"/a/x/__init__.py"⟩, ⟨"/a/x/__init__.pyw"⟩, ⟨"/a/x.py"⟩, ⟨"/a/x.pyw"⟩,
        ⟨"/a/b/x/__init__.py"⟩, ⟨"/a/b/x/__init__.pyw"⟩, ⟨"/a/b/x.py"⟩, ⟨"/a/b/x.pyw"⟩] ∧
      (s.candidates "x").Nodup ∧
      (∀ file, file ∈ s.candidates "x" ↔
        Path.normalize ⟨"/"⟩ file = file ∧ file.isSourceFile ∧ s.moduleName file = some "x") ∧
      disk.sourceFiles s.roots = [⟨"/a/x.py"⟩] ∧ ⟨"/a/x.py"⟩ ∈ s.candidates "x" ∧
      index.fileOf? "x" = some ⟨"/a/x.py"⟩ ∧
      (⟨"/a/x.py"⟩ ∈ s.candidates "x" ↔ (⟨"/a/x.py"⟩ : Path).isSourceFile) := by
  intro disk h index s
  have home : (⟨"/"⟩ : Path).isAbsolute := by decide
  have absolute : ∀ root ∈ s.roots, root.isAbsolute := by decide +kernel
  have well : index.WellFormed :=
    (Engine.Reachable.rebuild (.initial {} home) "/a:/a/b" .never (h := h) home).wellFormed
  have files : disk.sourceFiles s.roots = [⟨"/a/x.py"⟩] := by decide +kernel
  have behind : index.fileOf? "x" = some ⟨"/a/x.py"⟩ := by decide +kernel
  obtain ⟨-, inverse⟩ := candidates_invert_moduleName home
  obtain ⟨once, same, walked, indexed⟩ := inverse [⟨"/a"⟩, ⟨"a/b"⟩] absolute "x" (by decide)
  have met := walked disk ⟨"/a/x.py"⟩ (files ▸ List.mem_singleton.mpr rfl) (by decide +kernel)
  exact ⟨by decide +kernel, by decide +kernel, once, same, files, met, behind,
    indexed index well (by decide +kernel) _ behind⟩

end SearchPath

end ImportAtlas
