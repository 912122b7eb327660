import ImportAtlas.Proofs.RelativeImports
import ImportAtlas.Proofs.RootOrder

/-!
The removal of a directory goes by names: what goes is what the index names like the directory or
below it, whichever root it comes from. A root has no name of its own, and goes by files. A file below
the directory is named below it unless a root that lies deeper names it.
-/

set_option autoImplicit false

namespace ImportAtlas

namespace Text

theorem stripStart_eq_some_iff {start cs rest : List Char} :
    stripStart start cs = some rest ↔ cs = start ++ rest := by
  induction start generalizing cs with
  | nil => simp [stripStart]
  | cons a start ih =>
    cases cs with
    | nil => simp [stripStart]
    | cons c cs =>
      simp only [stripStart, List.cons_append, List.cons.injEq]
      split
      · rename_i same
        rw [ih]
        exact (and_iff_right same.symm).symm
      · rename_i different
        simp [Ne.symm different]

theorem isSome_stripStart {start cs : List Char} : (stripStart start cs).isSome ↔ start <+: cs := by
  rw [Option.isSome_iff_exists]
  exact exists_congr fun rest => stripStart_eq_some_iff.trans eq_comm

private theorem splitChars_prefix_iff {sep : Char} {as bs : List Char} :
    splitChars sep as <+: splitChars sep bs ↔ bs = as ∨ as ++ [sep] <+: bs := by
  constructor
  · intro leads
    induction as generalizing bs with
    | nil =>
      cases bs with
      | nil => exact Or.inl rfl
      | cons b bs =>
        obtain ⟨piece, pieces, parts⟩ := List.exists_cons_of_ne_nil (splitChars_ne_nil sep bs)
        by_cases ends : b = sep
        · simp [ends]
        · simp [splitChars, ends, parts] at leads
    | cons a as ih =>
      obtain ⟨first, others, parts⟩ := List.exists_cons_of_ne_nil (splitChars_ne_nil sep as)
      cases bs with
      | nil => by_cases start : a = sep <;> simp [splitChars, start, parts] at leads
      | cons b bs =>
        obtain ⟨piece, pieces, parts'⟩ := List.exists_cons_of_ne_nil (splitChars_ne_nil sep bs)
        have both : a = b ∧ splitChars sep as <+: splitChars sep bs := by
          by_cases start : a = sep <;> by_cases start' : b = sep <;>
            simp_all [splitChars, List.cons_prefix_cons]
        obtain ⟨rfl, tail⟩ := both
        rcases ih tail with rfl | longer
        · exact Or.inl rfl
        · exact Or.inr (List.cons_prefix_cons.mpr ⟨rfl, longer⟩)
  · rintro (rfl | ⟨rest, rfl⟩)
    · exact List.prefix_refl _
    · rw [List.append_assoc, List.singleton_append, splitChars_append_sep]
      exact List.prefix_append _ _

end Text

/-- Whether a name is `above` or lies below it: its segments begin with those of `above`. -/
def IsBelow (above name : String) : Prop :=
  Text.split '.' above <+: Text.split '.' name

instance (above name : String) : Decidable (IsBelow above name) :=
  inferInstanceAs (Decidable (_ <+: _))

private theorem IsBelow.refl (name : String) : IsBelow name name :=
  List.prefix_refl _

namespace Index

private theorem isBelow_iff {above name : String} : isBelow above name = true ↔
    IsBelow above name := by
  have chars : IsBelow above name ↔
      Text.splitChars '.' above.toList <+: Text.splitChars '.' name.toList := by
    have injective : Function.Injective String.ofList := fun _ _ same => String.ofList_inj.mp same
    exact List.prefix_map_iff_of_injective injective
  rw [chars, Text.splitChars_prefix_iff, isBelow, Bool.or_eq_true, decide_eq_true_iff,
    Text.isSome_stripStart, String.toList_append, String.toList_inj]
  rfl

private theorem isRemoved_iff {dir : Path} {above name : String} {m : Module} :
    isRemoved dir above name m = true ↔
      ∃ file, m.file = some file ∧
        if above = "" then file.startsWith dir = true else IsBelow above name := by
  unfold isRemoved
  cases m.file with
  | none => simp
  | some file =>
    by_cases root : above = ""
    · simp [root]
    · simp [root, isBelow_iff]

end Index

namespace SearchPath

theorem isSegment_iff {s : String} : isSegment s ↔ s ≠ "" ∧ '.' ∉ s.toList := by
  simp [isSegment]

private theorem stripSourceExtension_of_isSegment {dir : String} (h : isSegment dir) :
    stripSourceExtension dir = none := by
  rw [stripSourceExtension, Text.splitLast?_of_not_mem (isSegment_iff.mp h).2]

private theorem segments_of_isSegment {dirs : List String} (h : ∀ dir ∈ dirs, isSegment dir) :
    segments (dirs.map .normal) = some (dirs, false) := by
  induction dirs with
  | nil => rfl
  | cons dir dirs ih =>
    have first : isSegment dir := h dir List.mem_cons_self
    have rest := ih fun other member => h other (List.mem_cons_of_mem _ member)
    cases dirs with
    | nil => simp [segments, stripSourceExtension_of_isSegment first, first]
    | cons next more =>
      rw [List.map_cons] at rest
      simp [segments, rest, first]

theorem segments_append {below rest : List Component} (more : rest ≠ []) {names : List String}
    {source : Bool} (h : segments (below ++ rest) = some (names, source)) :
    ∃ dirs inner, below = dirs.map .normal ∧ (∀ dir ∈ dirs, isSegment dir) ∧
      segments rest = some (inner, source) ∧ names = dirs ++ inner := by
  induction below generalizing names with
  | nil => exact ⟨[], names, rfl, by simp, h, rfl⟩
  | cons c below ih =>
    obtain ⟨next, others, shape⟩ : ∃ next others, below ++ rest = next :: others :=
      List.exists_cons_of_ne_nil (by simp [more])
    rw [List.cons_append, shape] at h
    cases c with
    | normal part =>
      simp only [segments] at h
      split at h
      · rename_i segment
        obtain ⟨⟨left, ended⟩, found, equal⟩ := Option.map_eq_some_iff.mp h
        obtain ⟨rfl, rfl⟩ := Prod.mk.inj equal
        rw [← shape] at found
        obtain ⟨dirs, inner, rfl, clean, last, rfl⟩ := ih found
        refine ⟨part :: dirs, inner, rfl, ?_, last, rfl⟩
        intro dir member
        rcases List.mem_cons.mp member with rfl | member
        · exact segment
        · exact clean dir member
      · simp at h
    | _ => simp [segments] at h

private theorem segments_ne_nil {below : List Component} (filled : below ≠ []) {names : List String}
    {source : Bool} (h : segments below = some (names, source)) : names ≠ [] := by
  rintro rfl
  fun_cases segments below with
  | case1 => exact filled rfl
  | _ => simp_all [segments]

def dropInit (names : List String) : List String :=
  if names.getLast? = some Path.packageInit then names.dropLast else names

theorem dropInit_prefix_self (names : List String) : dropInit names <+: names := by
  unfold dropInit
  split
  · exact List.dropLast_prefix names
  · exact List.prefix_refl names

theorem exists_segments_of_nameBelow {below : List Component} {name : String}
    (h : nameBelow below = some name) :
    ∃ names source, segments below = some (names, source) ∧ name = joinDots (dropInit names) := by
  obtain ⟨⟨names, source⟩, found, named⟩ := Option.bind_eq_some_iff.mp h
  have same : (if source && (dropInit names).isEmpty then none else some (joinDots (dropInit names))) =
      some name := named
  split at same
  · simp at same
  · exact ⟨names, source, found, (Option.some.inj same).symm⟩

private theorem isBelow_joinDots {front back : List String} (filled : front ≠ [])
    (leads : front <+: back) (clean : ∀ part ∈ back, IsPart part) : IsBelow (joinDots front)
    (joinDots back) := by
  have front_clean : ∀ part ∈ front, IsPart part := fun part member => clean part (leads.subset member)
  have back_filled : back ≠ [] := by
    rintro rfl
    exact filled (List.prefix_nil.mp leads)
  rw [IsBelow, split_joinDots filled front_clean, split_joinDots back_filled clean]
  exact leads

private theorem isBelow_of_nameBelow_append {below rest : List Component} {above name : String}
    (h : nameBelow below = some above) (h' : nameBelow (below ++ rest) = some name)
    (clean : ∀ part, .normal part ∈ below ++ rest → Path.IsName part) :
    above = "" ∨ IsBelow above name := by
  by_cases more : rest = []
  · rw [more, List.append_nil, h] at h'
    rw [Option.some.inj h']
    exact Or.inr (IsBelow.refl name)
  obtain ⟨names, source, whole, rfl⟩ := exists_segments_of_nameBelow h'
  obtain ⟨dirs, inner, rfl, segment, last, rfl⟩ := segments_append more whole
  obtain ⟨own, ended, found, rfl⟩ := exists_segments_of_nameBelow h
  obtain ⟨rfl, -⟩ := Prod.mk.inj (Option.some.inj ((segments_of_isSegment segment).symm.trans found))
  -- An initializer is the last segment, so that its loss leaves the directories whole.
  have kept : dirs <+: dropInit (dirs ++ inner) := by
    unfold dropInit
    split
    · rw [List.dropLast_append_of_ne_nil (segments_ne_nil more last)]
      exact List.prefix_append _ _
    · exact List.prefix_append _ _
  have parts : ∀ part ∈ dropInit (dirs ++ inner), IsPart part := fun part member =>
    isPart_of_mem_segments whole clean part ((dropInit_prefix_self _).subset member)
  by_cases unnamed : dropInit dirs = []
  · rw [unnamed]
    exact Or.inl rfl
  · exact Or.inr (isBelow_joinDots unnamed ((dropInit_prefix_self dirs).trans kept) parts)

private theorem le_of_foldl {α β : Type} {f : Option β → α → Option β} (value : α → β)
    (size : β → Nat) (grows : ∀ best a, ∃ r, f best a = some r ∧ size (value a) ≤ size r ∧
      ∀ b, best = some b → size b ≤ size r)
    {l : List α} {start : Option β} {r : β} (h : l.foldl f start = some r) :
    (∀ b, start = some b → size b ≤ size r) ∧ ∀ a ∈ l, size (value a) ≤ size r := by
  induction l generalizing start with
  | nil =>
    refine ⟨fun b begun => ?_, by simp⟩
    rw [Option.some.inj (begun.symm.trans h)]
  | cons a l ih =>
    obtain ⟨next, taken, larger, kept⟩ := grows start a
    obtain ⟨after, others⟩ := ih h
    have bound : size next ≤ size r := after next taken
    refine ⟨fun b begun => (kept b begun).trans bound, ?_⟩
    intro b member
    rcases List.mem_cons.mp member with rfl | member
    · exact larger.trans bound
    · exact others b member

variable {s : SearchPath}

theorem length_le_of_longestRoot {p : Path} {i : Nat} {root other : Path}
    (h : s.longestRoot p = some (i, root)) (member : other ∈ s.roots) (below : p.startsWith other) :
    other.components.length ≤ root.components.length := by
  obtain ⟨j, listed⟩ := List.mem_iff_getElem?.mp member
  have candidate : (other, j) ∈ s.roots.zipIdx.filter fun entry => p.startsWith entry.1 :=
    List.mem_filter.mpr ⟨List.mem_zipIdx_iff_getElem?.mpr listed, below⟩
  refine (le_of_foldl Prod.swap (fun best => best.2.components.length) ?_ h).2 _ candidate
  rintro (- | ⟨k, best⟩) ⟨root', k'⟩
  · exact ⟨_, rfl, Nat.le_refl _, by simp⟩
  · by_cases longer : best.components.length ≤ root'.components.length
    · exact ⟨(k', root'), by simp [longer], Nat.le_refl _, by simpa using longer⟩
    · exact ⟨(k, best), by simp [longer], by simp; omega, by simp⟩

/-- A file below a directory is named below it, unless a root that lies deeper than the directory
contains the file. -/
theorem isBelow_of_startsWith {dir file : Path} {above name : String} (normal : dir.IsNormal)
    (normal' : file.IsNormal) (h : s.moduleName dir = some above) (h' : s.moduleName file = some name)
    (under : file.startsWith dir)
    (direct : ∀ root ∈ s.roots, root.startsWith dir → file.startsWith root → root.same dir) :
    above = "" ∨ IsBelow above name := by
  simp only [moduleName, normal.normalize_eq, normal'.normalize_eq, Option.bind_eq_bind] at h h'
  obtain ⟨⟨i, root⟩, longest, named⟩ := Option.bind_eq_some_iff.mp h
  obtain ⟨⟨j, root'⟩, longest', named'⟩ := Option.bind_eq_some_iff.mp h'
  obtain ⟨listed, around⟩ := mem_of_longestRoot longest
  obtain ⟨listed', around'⟩ := mem_of_longestRoot longest'
  rw [Path.startsWith_iff] at under around around'
  have outer : root.components.length ≤ root'.components.length :=
    length_le_of_longestRoot longest' (List.mem_of_getElem? listed)
      (Path.startsWith_iff.mpr (around.trans under))
  have nested : root'.components <+: dir.components := by
    rcases List.prefix_or_prefix_of_prefix around' under with inside | deeper
    · exact inside
    · have same := direct root' (List.mem_of_getElem? listed') (Path.startsWith_iff.mpr deeper)
        (Path.startsWith_iff.mpr around')
      rw [Path.same, beq_iff_eq] at same
      exact same ▸ List.prefix_refl root'.components
  have inner : root'.components.length ≤ root.components.length :=
    length_le_of_longestRoot longest (List.mem_of_getElem? listed') (Path.startsWith_iff.mpr nested)
  have same : root.components = root'.components :=
    (List.prefix_of_prefix_length_le around nested outer).eq_of_length (Nat.le_antisymm outer inner)
  obtain ⟨below, dir_parts⟩ := around
  obtain ⟨rest, file_parts⟩ := under
  rw [← dir_parts, List.append_assoc] at file_parts
  simp only [← dir_parts, componentsAfter_append, Option.bind_some] at named
  simp only [← file_parts, ← same, componentsAfter_append, Option.bind_some] at named'
  refine isBelow_of_nameBelow_append named named' ?_
  intro part member
  refine Path.isName_of_mem_components (p := file) ?_
  rw [← file_parts]
  exact List.mem_append_right _ member

end SearchPath

namespace State

variable {s : State} {path : Path} {above : String}

private theorem removeDirectory_eq
    (named : s.index.searchPath.moduleName (s.fileOf path) = some above) :
    let left := s.index.modules.filter fun entry =>
      !Index.isRemoved (s.fileOf path) above entry.1 entry.2
    s.removeDirectory path =
      (.ok (s.index.modules.length - left.length), ⟨⟨s.index.searchPath, left⟩, s.accesses⟩) := by
  simp only [fileOf] at named
  simp only [removeDirectory, Index.removeTree, named]
  rfl

theorem removeDirectory_of_ok {count : Nat} (well : s.index.WellFormed)
    (ok : (s.removeDirectory path).1 = .ok count) :
    ∃ above, s.index.searchPath.moduleName (s.fileOf path) = some above ∧
      (s.removeDirectory path).2.index.searchPath = s.index.searchPath ∧
      ∀ name, (s.removeDirectory path).2.index.get? name =
        (s.index.get? name).filter fun m => !Index.isRemoved (s.fileOf path) above name m := by
  cases named : s.index.searchPath.moduleName (s.fileOf path) with
  | none =>
    simp only [fileOf] at named
    simp [removeDirectory, Index.removeTree, named] at ok
  | some above =>
    rw [removeDirectory_eq named]
    exact ⟨above, rfl, rfl, fun name => NameMap.get?_filter well.ordered _ name⟩

private theorem removeDirectory_again
    (named : s.index.searchPath.moduleName (s.fileOf path) = some above) :
    let after := (s.removeDirectory path).2
    after.removeDirectory path = (.ok 0, after) := by
  intro after
  have shape := congrArg Prod.snd (removeDirectory_eq named)
  have named' : after.index.searchPath.moduleName (after.fileOf path) = some above := by
    simp only [after, shape]
    exact named
  rw [removeDirectory_eq named']
  simp only [after, shape, List.filter_filter]
  simp only [fileOf, Bool.and_self, Nat.sub_self]

end State

namespace Engine

/-- The removal of a directory takes the modules with a file that are named like the directory or
below it, or, if the directory has the empty name of a root, those whose file lies in it; and nothing
else changes. So a file in the directory stays indexed only if it is named from a root that lies
deeper, and a file outside is lost only if its module is named like the directory or below it. -/
theorem removed_directory_goes_by_name {e : Engine} (run : Reachable e) {path : Path} {count : Nat}
    (ok : (e.state.removeDirectory path).1 = .ok count) :
    let i := e.state.index
    let dir := e.state.fileOf path
    let after := (e.state.removeDirectory path).2.index
    ∃ above, i.searchPath.moduleName dir = some above ∧ after.searchPath = i.searchPath ∧
      (∀ name m, after.get? name = some m ↔ i.get? name = some m ∧ ∀ file, m.file = some file →
        ¬if above = "" then file.startsWith dir = true else IsBelow above name) ∧
      (∀ name m file, after.get? name = some m → m.file = some file → file.startsWith dir →
        above ≠ "" ∧ ¬IsBelow above name ∧
          ∃ root ∈ i.searchPath.roots, root.startsWith dir ∧ ¬root.same dir ∧ file.startsWith root) ∧
      (∀ name m file, i.get? name = some m → m.file = some file → ¬file.startsWith dir →
        after.get? name = some m ∨ (above ≠ "" ∧ IsBelow above name)) := by
  intro i dir after
  have well : i.WellFormed := run.wellFormed
  obtain ⟨above, named, path_kept, filtered⟩ := State.removeDirectory_of_ok well ok
  have stays : ∀ name m, after.get? name = some m ↔ i.get? name = some m ∧ ∀ file, m.file = some file →
      ¬if above = "" then file.startsWith dir = true else IsBelow above name := by
    intro name m
    rw [filtered, Option.filter_eq_some_iff, Bool.not_eq_true', ← Bool.not_eq_true,
      Index.isRemoved_iff]
    simp only [not_exists, not_and]
    rfl
  refine ⟨above, named, path_kept, stays, ?_, ?_⟩
  · intro name m file found backed under
    obtain ⟨before, kept⟩ := (stays name m).mp found
    have spared := kept file backed
    have nonempty : above ≠ "" := by
      rintro rfl
      exact spared under
    rw [if_neg nonempty] at spared
    obtain ⟨-, normal, own⟩ := (well.placed name m before).of_file backed
    have again : dir.IsNormal := well.path.normalize_of_moduleName
      ((SearchPath.moduleName_normalize well.path.home path).symm.trans named)
    have deeper : ¬∀ root ∈ i.searchPath.roots, root.startsWith dir → file.startsWith root →
        root.same dir := by
      intro direct
      rcases SearchPath.isBelow_of_startsWith again normal named own under direct with empty | below
      · exact nonempty empty
      · exact spared below
    push Not at deeper
    obtain ⟨root, member, inside, around, different⟩ := deeper
    exact ⟨nonempty, spared, root, member, inside, different, around⟩
  · intro name m file found backed outside
    by_cases below : above ≠ "" ∧ IsBelow above name
    · exact Or.inr below
    · refine Or.inl ((stays name m).mpr ⟨found, ?_⟩)
      intro other same
      obtain rfl := Option.some.inj (backed.symm.trans same)
      split
      · exact outside
      · rename_i nonempty
        exact fun inside => below ⟨nonempty, inside⟩

theorem removed_directory_goes_by_name_nested :
    let disk : Disk :=
      .ofEntries ⟨"/"⟩ [(["a"], .dir), (["a", "pkg"], .dir), (["a", "pkg", "in"], .dir),
          (["a", "pkg", "in", "z.py"], .file [])]
    let h : Host := ⟨disk, ⟨"/"⟩, ⟨0, 0⟩⟩
    let lib : Library := ⟨⟨fun _ => .ok "", fun _ => true⟩, fun _ => .ok []⟩
    let fresh := ((initial {} ⟨"/"⟩).rebuild "/a:/a/pkg/in" .never h).2.1
    let e := fresh.withState (fresh.state.changeFile lib ⟨"/a/pkg/m.py"⟩ "").2
    let after := (e.state.removeDirectory ⟨"/a/./pkg/"⟩).2.index
    Reachable e ∧ (e.state.removeDirectory ⟨"/a/./pkg/"⟩).1 = .ok 1 ∧
      e.state.index.names = ["__builtin__", "pkg.m", "sys", "z"] ∧
      after.names = ["__builtin__", "sys", "z"] ∧
      ∃ root ∈ e.state.index.searchPath.roots, root.startsWith ⟨"/a/pkg"⟩ ∧ ¬root.same ⟨"/a/pkg"⟩ ∧
        (⟨"/a/pkg/in/z.py"⟩ : Path).startsWith root := by
  intro disk h lib fresh e after
  have home : (⟨"/"⟩ : Path).isAbsolute := by decide
  have run : Reachable e :=
    .changeFile (.rebuild (.initial {} home) "/a:/a/pkg/in" .never home) lib _ _
  have ok : (e.state.removeDirectory ⟨"/a/./pkg/"⟩).1 = .ok 1 := by decide +kernel
  have dir : e.state.fileOf ⟨"/a/./pkg/"⟩ = ⟨"/a/pkg"⟩ := by decide +kernel
  have left : after.fileOf? "z" = some ⟨"/a/pkg/in/z.py"⟩ := by decide +kernel
  obtain ⟨m, stands, backed⟩ := Option.bind_eq_some_iff.mp left
  obtain ⟨above, -, -, -, inside, -⟩ := removed_directory_goes_by_name run ok
  rw [dir] at inside
  obtain ⟨-, -, deeper⟩ := inside "z" m _ stands backed (by decide +kernel)
  exact ⟨run, ok, by decide +kernel, by decide +kernel, deeper⟩

/-- The removal of `/b/pkg` takes the package of the same name in the first root; and the removal of
`/a/pkg` leaves the module of a root that lies in it. -/
theorem removed_directory_takes_other_root :
    let disk : Disk :=
      .ofEntries ⟨"/"⟩ [(["a"], .dir), (["a", "pkg"], .dir),
          (["a", "pkg", "__init__.py"], .file []),
          (["b"], .dir), (["b", "pkg"], .dir), (["b", "pkg", "__init__.py"], .file []),
          (["c"], .dir), (["c", "pkg"], .dir), (["c", "pkg", "in"], .dir),
          (["c", "pkg", "in", "z.py"], .file [])]
    let h : Host := ⟨disk, ⟨"/"⟩, ⟨0, 0⟩⟩
    let two := ((initial {} ⟨"/"⟩).rebuild "/a:/b" .never h).2.1
    let nested := ((initial {} ⟨"/"⟩).rebuild "/c:/c/pkg/in" .never h).2.1
    let (taken, emptied) := two.state.removeDirectory ⟨"/b/pkg"⟩
    let (left, kept) := nested.state.removeDirectory ⟨"/c/pkg"⟩
    Reachable two ∧ Reachable nested ∧ two.state.index.fileOf? "pkg" = some ⟨"/a/pkg/__init__.py"⟩ ∧
      taken = .ok 1 ∧ emptied.index.fileOf? "pkg" = none ∧
      (⟨"/a/pkg/__init__.py"⟩ : Path).startsWith ⟨"/b/pkg"⟩ = false ∧
      left = .ok 0 ∧ kept.index.fileOf? "z" = some ⟨"/c/pkg/in/z.py"⟩ ∧
      (⟨"/c/pkg/in/z.py"⟩ : Path).startsWith ⟨"/c/pkg"⟩ = true := by
  intro disk h two nested
  have home : (⟨"/"⟩ : Path).isAbsolute := by decide
  exact ⟨.rebuild (.initial {} home) "/a:/b" .never home,
    .rebuild (.initial {} home) "/c:/c/pkg/in" .never home, by decide +kernel, by decide +kernel,
    by decide +kernel, by decide +kernel, by decide +kernel, by decide +kernel, by decide +kernel⟩

/-- A directory that has a name can be removed. Exactly those modules go that have a file and whose
names begin, segment by segment, with that of the directory; or, if it has the empty name of a root,
those whose file lies below it, component by component. All others stay as they are, the built-in
ones among them, and the answer is the number of those that went. To remove the directory once more
changes nothing. -/
theorem removed_directory_takes_subtree {e : Engine} (run : Reachable e) {path : Path}
    {above : String} (named : e.state.index.searchPath.moduleName path = some above) :
    let i := e.state.index
    let dir := e.state.fileOf path
    let after := (e.state.removeDirectory path).2
    let goes (name : String) (m : Module) : Prop := ∃ file, m.file = some file ∧
      if above = "" then dir.components <+: file.components
      else Text.split '.' above <+: Text.split '.' name
    (∀ name m, after.index.get? name = some m ↔ i.get? name = some m ∧ ¬goes name m) ∧
    (∀ name ∈ Builtin.names, after.index.contains name ∧ after.index.get? name = i.get? name) ∧
    after.index.searchPath = i.searchPath ∧
    (e.state.removeDirectory path).1 = .ok (NameMap.lost i.modules after.index.modules).length ∧
    after.removeDirectory path = (.ok 0, after) := by
  intro i dir after goes
  have well : i.WellFormed := run.wellFormed
  have found : i.searchPath.moduleName dir = some above :=
    (SearchPath.moduleName_normalize well.path.home path).trans named
  have result := State.removeDirectory_eq found
  have goes_iff : ∀ name m, Index.isRemoved dir above name m = true ↔ goes name m := by
    intro name m
    rw [Index.isRemoved_iff]
    simp only [Path.startsWith_iff]
    rfl
  have stays : ∀ name m,
      after.index.get? name = some m ↔ i.get? name = some m ∧ ¬goes name m := by
    intro name m
    have left : after.index.get? name =
        (i.get? name).filter fun m => !Index.isRemoved dir above name m := by
      simp only [after, result]
      exact NameMap.get?_filter well.ordered _ name
    rw [left, Option.filter_eq_some_iff, ← goes_iff, Bool.not_eq_true', Bool.not_eq_true]
  refine ⟨stays, ?_, ?_, ?_, State.removeDirectory_again found⟩
  · intro name listed
    have reserved : Builtin.isReserved name := List.contains_iff_mem.mpr listed
    obtain ⟨m, indexed⟩ := Option.isSome_iff_exists.mp (well.complete name reserved)
    have bare : m.file = none := (well.placed name m indexed).file_of_reserved reserved
    have kept : after.index.get? name = some m := by
      refine (stays name m).mpr ⟨indexed, ?_⟩
      rintro ⟨file, backed, -⟩
      exact Option.some_ne_none file (backed.symm.trans bare)
    exact ⟨Option.isSome_of_eq_some kept, kept.trans indexed.symm⟩
  · simp only [after, result]
    rfl
  · simp only [after, result]
    rw [NameMap.length_lost_filter well.ordered]

theorem removed_directory_takes_subtree_of_two_roots :
    let disk : Disk :=
      .ofEntries ⟨"/"⟩ [(["a"], .dir), (["a", "pkg"], .dir),
          (["a", "pkg", "__init__.py"], .file [])]
    let h : Host := ⟨disk, ⟨"/"⟩, ⟨0, 0⟩⟩
    let lib : Library := ⟨⟨fun _ => .ok "", fun _ => true⟩, fun _ => .ok []⟩
    let fresh := ((initial {} ⟨"/"⟩).rebuild "/a:/b" .never h).2.1
    let first := fresh.withState (fresh.state.changeFile lib ⟨"/a/pkgx.py"⟩ "").2
    let e := first.withState (first.state.changeFile lib ⟨"/b/pkg/sub.py"⟩ "").2
    let after := (e.state.removeDirectory ⟨"b/./pkg/"⟩).2
    Reachable e ∧ e.state.index.searchPath.moduleName ⟨"b/./pkg/"⟩ = some "pkg" ∧
      e.state.index.names = ["__builtin__", "pkg", "pkg.sub", "pkgx", "sys"] ∧
      after.index.names = ["__builtin__", "pkgx", "sys"] ∧
      (e.state.removeDirectory ⟨"b/./pkg/"⟩).1 = .ok 2 ∧
      after.removeDirectory ⟨"b/./pkg/"⟩ = (.ok 0, after) := by
  intro disk h lib fresh first e after
  have home : (⟨"/"⟩ : Path).isAbsolute := by decide
  have run : Reachable e :=
    .changeFile (.changeFile (.rebuild (.initial {} home) "/a:/b" .never home) lib _ _)
      lib _ _
  have named : e.state.index.searchPath.moduleName ⟨"b/./pkg/"⟩ = some "pkg" := by decide +kernel
  obtain ⟨-, -, -, count, again⟩ := removed_directory_takes_subtree run named
  have two : (NameMap.lost e.state.index.modules after.index.modules).length = 2 := by
    decide +kernel
  refine ⟨run, named, by decide +kernel, by decide +kernel, ?_, again⟩
  rw [count, two]

end Engine

end ImportAtlas
