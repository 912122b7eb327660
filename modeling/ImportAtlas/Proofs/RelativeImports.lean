import ImportAtlas.Module.Basic
import ImportAtlas.Proofs.Naming
import ImportAtlas.Proofs.SymbolSets
import ImportAtlas.Text.NameChar

/-!
Relative imports and the names of files. The dots of a relative import lead up from the package of a
module, the name of a file leads down from a root. The two agree: the import names the file that lies
where its dots and identifiers lead.
-/

set_option autoImplicit false

namespace ImportAtlas

namespace Text

private def crossed (n : Nat) (inside : Bool) (bound : Nat) : Bool :=
  if bound ≤ n then !inside else inside

private theorem withinBounds_eq_foldl (bounds : Array Nat) (n : Nat) :
    withinBounds bounds n = bounds.toList.foldl (crossed n) false := by
  unfold withinBounds
  rw [← Array.foldl_toList]
  rfl

private def blankCodes : List Nat :=
  List.range' 9 5 ++ [0x20, 0x85, 0xa0, 0x1680] ++ List.range' 0x2000 11 ++
    [0x2028, 0x2029, 0x202f, 0x205f, 0x3000]

theorem not_isNameChar_of_isBlank {c : Char} (h : isBlank c) : isNameChar c = false := by
  have listed : c.toNat ∈ blankCodes := by
    simp only [isBlank, Bool.or_eq_true, Bool.and_eq_true, decide_eq_true_eq, beq_iff_eq] at h
    simp only [blankCodes, List.mem_append, List.mem_range'_1, List.mem_cons, List.not_mem_nil,
      or_false]
    omega
  have plain : ∀ n ∈ blankCodes, ((Char.ofNat n).isAlpha || Char.ofNat n == '_' ||
      (Char.ofNat n).isDigit) = false := by
    decide +kernel
  have wide : ∀ n ∈ blankCodes, (startBounds.toList.foldl (crossed n) false ||
      laterBounds.toList.foldl (crossed n) false) = false := by
    decide +kernel
  have first := plain _ listed
  have later := wide _ listed
  rw [Char.ofNat_toNat] at first
  simp only [Bool.or_eq_false_iff] at first later
  simp [isNameChar, isNameStart, withinBounds_eq_foldl, first, later]

theorem splitLast?_append_cons {sep : Char} (before : List Char) {after : List Char}
    (h : sep ∉ after) : splitLast? sep (before ++ sep :: after) = some (before, after) := by
  induction before with
  | nil => simp [splitLast?, splitLast?_of_not_mem h]
  | cons c before ih => simp [splitLast?, ih]

end Text

namespace Python

def isIdentifier (s : String) : Bool :=
  match s.toList with
  | [] => false
  | c :: r => Text.isNameStart c && r.all Text.isNameChar

theorem isNameChar_of_isIdentifier {s : String} (h : isIdentifier s) :
    ∀ c ∈ s.toList, Text.isNameChar c := by
  unfold isIdentifier at h
  split at h
  · exact absurd h Bool.false_ne_true
  · rename_i first rest chars
    rw [Bool.and_eq_true] at h
    rw [chars]
    intro c member
    rcases List.mem_cons.mp member with rfl | member
    · simp [Text.isNameChar, h.1]
    · exact List.all_eq_true.mp h.2 c member

theorem ne_empty_of_isIdentifier {s : String} (h : isIdentifier s) : s ≠ "" := by
  rintro rfl
  exact absurd h Bool.false_ne_true

theorem not_mem_of_isIdentifier {s : String} (h : isIdentifier s) {c : Char}
    (other : Text.isNameChar c = false) : c ∉ s.toList := by
  intro inside
  rw [isNameChar_of_isIdentifier h c inside] at other
  exact Bool.noConfusion other

private theorem isPart_of_isIdentifier {s : String} (h : isIdentifier s) : SearchPath.IsPart s := by
  have dot : '.' ∉ s.toList := not_mem_of_isIdentifier h (by decide)
  have slash : '/' ∉ s.toList := not_mem_of_isIdentifier h (by decide)
  refine ⟨?_, slash⟩
  simp [SearchPath.isSegment, ne_empty_of_isIdentifier h, dot]

def relativeReference (dots : Nat) (names : List String) : String :=
  String.ofList (List.replicate dots '.') ++ SearchPath.joinDots names

end Python

namespace Path

theorem components_foldl_child (p : Path) {names : List String} (h : ∀ name ∈ names, IsName name) :
    (names.foldl child p).components = p.components ++ names.map .normal := by
  induction names generalizing p with
  | nil => simp
  | cons name rest ih =>
    have first := components_child p (h name List.mem_cons_self)
    have others := ih (p.child name) fun other member => h other (List.mem_cons_of_mem _ member)
    rw [List.foldl_cons, others, first]
    simp

private theorem resolveDots_append_normal (cs : List Component) (name : String) :
    resolveDots (cs ++ [.normal name]) = resolveDots cs ++ [.normal name] := by
  simp [resolveDots, List.foldl_append]

private theorem components_ofComponents {cs : List Component} (h : ∃ names : List String,
    (∀ name ∈ names, IsName name) ∧ cs = .root :: names.map .normal) :
    (ofComponents cs).components = cs := by
  obtain ⟨names, clean, rfl⟩ := h
  exact components_ofNames clean

theorem components_normalize {cwd p : Path} (home : cwd.isAbsolute) (nonempty : p.text ≠ "") :
    (normalize cwd p).components =
      resolveDots ((if p.isAbsolute then [] else cwd.components) ++ p.components) := by
  unfold normalize
  cases absolute : p.isAbsolute with
  | true =>
    obtain ⟨steps, parts, clean⟩ := components_of_absolute absolute
    have resolved := components_ofComponents (resolveDots_root clean)
    rw [← parts] at resolved
    simpa using resolved
  | false =>
    obtain ⟨steps, parts, clean⟩ := components_of_absolute home
    have all : ∀ c ∈ steps ++ p.components, IsStep c := by
      intro c member
      rcases List.mem_append.mp member with member | member
      · exact clean c member
      · exact isStep_of_mem_components absolute member
    have resolved := components_ofComponents (resolveDots_root all)
    rw [← List.cons_append, ← parts] at resolved
    simpa [nonempty] using resolved

theorem text_ne_empty_of_fileName? {p : Path} {base : String} (h : p.fileName? = some base) :
    p.text ≠ "" := by
  intro empty
  obtain ⟨text⟩ := p
  obtain rfl : text = "" := empty
  have unnamed : (⟨""⟩ : Path).fileName? = none := by decide
  simp [unnamed] at h

theorem getLast?_components {p : Path} {base : String} (h : p.fileName? = some base) :
    p.components.getLast? = some (.normal base) := by
  unfold fileName? at h
  split at h
  · rename_i last
    obtain rfl := Option.some.inj h
    exact last
  · simp at h

theorem fileName?_normalize {cwd p : Path} (home : cwd.isAbsolute) {base : String}
    (h : p.fileName? = some base) : (normalize cwd p).fileName? = some base := by
  obtain ⟨before, whole⟩ := List.getLast?_eq_some_iff.mp (getLast?_components h)
  have nonempty := text_ne_empty_of_fileName? h
  have ends : (normalize cwd p).components.getLast? = some (.normal base) := by
    rw [components_normalize home nonempty, whole, ← List.append_assoc, resolveDots_append_normal]
    simp
  simp [fileName?, ends]

theorem components_normalize_of_names (cwd : Path) {p : Path} (names : List String)
    (h : p.components = .root :: names.map .normal) :
    (normalize cwd p).components = p.components := by
  have absolute : p.isAbsolute := by
    by_contra relative
    have start : .root ∈ p.components := h ▸ List.mem_cons_self
    exact isStep_of_mem_components (Bool.eq_false_iff.mpr relative) start
  have clean : ∀ name ∈ names, IsName name := by
    intro name member
    refine isName_of_mem_components (p := p) ?_
    rw [h]
    exact List.mem_cons_of_mem _ (List.mem_map_of_mem member)
  rw [normalize, if_pos absolute, h, resolveDots_names]
  exact components_ofNames clean

end Path

namespace SearchPath

theorem joinDots_append {front back : List String} (h : front ≠ []) (h' : back ≠ []) :
    joinDots (front ++ back) = joinDots front ++ "." ++ joinDots back :=
  String.intercalate_append_of_ne_nil h h'

@[simp] theorem joinDots_singleton (name : String) : joinDots [name] = name :=
  String.intercalate_singleton

theorem joinDots_append_joinDots (front : List String) {back : List String} (h : back ≠ []) :
    joinDots (front ++ [joinDots back]) = joinDots (front ++ back) := by
  by_cases empty : front = []
  · simp [empty]
  · rw [joinDots_append empty (by simp), joinDots_append empty h, joinDots_singleton]

theorem joinDots_concat_ne_empty (front : List String) {last : String} (h : last ≠ "") :
    joinDots (front ++ [last]) ≠ "" := by
  by_cases empty : front = []
  · simpa [empty] using h
  · rw [joinDots_append empty (by simp), joinDots_singleton]
    exact fun whole => h (String.append_eq_empty_iff.mp whole).2

def namingRoot (s : SearchPath) (p : Path) : Option Path :=
  (s.longestRoot (Path.normalize s.cwd p)).map Prod.snd

def fileBelow (root : Path) (around : List String) (name : String) : Path :=
  (around.foldl Path.child root).child (name ++ ".py")

/-- Whether a file lies in the directories `dirs` below the root that names it. -/
structure LiesIn (s : SearchPath) (file root : Path) (dirs : List String) : Prop where
  naming : s.namingRoot file = some root
  below : ∃ base, (Path.normalize s.cwd file).components =
    root.components ++ (dirs ++ [base]).map .normal

private theorem LiesIn.exists_rootNames {s : SearchPath} (home : s.cwd.isAbsolute)
    {file root : Path} {dirs : List String} (nonempty : file.text ≠ "")
    (lies : s.LiesIn file root dirs) :
    ∃ names : List String, root.components = .root :: names.map .normal := by
  obtain ⟨base, whole⟩ := lies.below
  obtain ⟨names, clean, normal⟩ := Path.isNormal_normalize home nonempty
  rw [normal, Path.components_ofNames clean] at whole
  rcases List.cons_eq_append_iff.mp whole with ⟨-, impossible⟩ | ⟨steps, parts, rest⟩
  · cases dirs <;> simp at impossible
  · obtain ⟨rootNames, -, -, rfl, -⟩ := List.map_eq_append_iff.mp rest
    exact ⟨rootNames, parts⟩

theorem componentsAfter_append (base below : List Component) :
    Path.componentsAfter base (base ++ below) = some below := by
  induction base with
  | nil => rfl
  | cons c base ih => simp [Path.componentsAfter, ih]

theorem moduleName_eq_nameBelow {s : SearchPath} {p root : Path} {below : List Component}
    (naming : s.namingRoot p = some root)
    (whole : (Path.normalize s.cwd p).components = root.components ++ below) :
    s.moduleName p = nameBelow below := by
  obtain ⟨⟨i, _⟩, longest, rfl⟩ := Option.map_eq_some_iff.mp naming
  simp only [moduleName, longest, Option.bind_eq_bind, Option.bind_some, whole,
    componentsAfter_append]

theorem segments_of_source {base stem : String} (h : stripSourceExtension base = some stem)
    (dirs : List String) :
    segments ((dirs ++ [base]).map .normal) =
      if (dirs ++ [stem]).all isSegment then some (dirs ++ [stem], true) else none := by
  induction dirs with
  | nil => simp [segments, h]
  | cons dir dirs ih =>
    obtain ⟨next, others, shape⟩ : ∃ next others, dirs ++ [base] = next :: others :=
      List.exists_cons_of_ne_nil (by simp)
    rw [shape, List.map_cons] at ih
    simp only [List.cons_append, shape, List.map_cons, segments, ih, List.all_cons]
    by_cases first : isSegment dir <;> by_cases rest : (dirs ++ [stem]).all isSegment <;>
      simp [first, rest]

private theorem nameBelow_of_source {base stem : String} (h : stripSourceExtension base = some stem)
    (dirs : List String) :
    nameBelow ((dirs ++ [base]).map .normal) =
      if (dirs ++ [stem]).all isSegment then
        if stem = Path.packageInit then if dirs = [] then none else some (joinDots dirs)
        else some (joinDots (dirs ++ [stem]))
      else none := by
  rw [nameBelow, segments_of_source h]
  split
  · by_cases init : stem = Path.packageInit <;> simp [init]
  · rfl

theorem stripSourceExtension_append (stem : String) {ext : String}
    (known : ext ∈ Path.sourceExtensions) :
    stripSourceExtension (stem ++ "." ++ ext) = some stem := by
  have plain : '.' ∉ ext.toList := by
    rcases List.mem_cons.mp known with rfl | known
    · decide
    · obtain rfl := List.mem_singleton.mp known
      decide
  have chars : (stem ++ "." ++ ext).toList = stem.toList ++ '.' :: ext.toList := by simp
  rw [stripSourceExtension, chars, Text.splitLast?_append_cons _ plain]
  simp [known]

private theorem moduleName_fileBelow {s : SearchPath} {root : Path} {rootNames around : List String}
    {last : String} (rooted : root.components = .root :: rootNames.map .normal)
    (clean : ∀ part ∈ around ++ [last], IsPart part) (plain : last ≠ Path.packageInit)
    (naming : s.namingRoot (fileBelow root around last) = some root) :
    s.moduleName (fileBelow root around last) = some (joinDots (around ++ [last])) := by
  have final : Path.IsName (last ++ ".py") := by
    have extended := Path.isName_append_extension (clean last (by simp)).isName
      (List.mem_cons_self : "py" ∈ Path.sourceExtensions)
    rwa [String.append_assoc] at extended
  have names : ∀ part ∈ around, Path.IsName part :=
    fun part member => (clean part (List.mem_append_left _ member)).isName
  have parts : (fileBelow root around last).components =
      root.components ++ (around ++ [last ++ ".py"]).map .normal := by
    rw [fileBelow, Path.components_child _ final, Path.components_foldl_child _ names]
    simp
  have kept : (Path.normalize s.cwd (fileBelow root around last)).components =
      root.components ++ (around ++ [last ++ ".py"]).map .normal := by
    have whole : (fileBelow root around last).components =
        .root :: (rootNames ++ (around ++ [last ++ ".py"])).map .normal := by
      rw [parts, rooted]
      simp
    rw [Path.components_normalize_of_names s.cwd _ whole, parts]
  have stripped : stripSourceExtension (last ++ ".py") = some last := by
    have extended := stripSourceExtension_append last (List.mem_cons_self : "py" ∈ Path.sourceExtensions)
    rwa [String.append_assoc] at extended
  have segments_all : (around ++ [last]).all isSegment :=
    List.all_eq_true.mpr fun part member => (clean part member).1
  rw [moduleName_eq_nameBelow naming kept, nameBelow_of_source stripped, if_pos segments_all,
    if_neg plain]

theorem exists_stem_of_isSourceFile {file : Path} (h : file.isSourceFile) :
    ∃ base stem, file.fileName? = some base ∧ stripSourceExtension base = some stem ∧
      file.isPackageInit = decide (stem = Path.packageInit) := by
  have typed := h
  unfold Path.isSourceFile at typed
  split at typed
  · rename_i ext found
    obtain ⟨base, own, split⟩ := Option.bind_eq_some_iff.mp found
    unfold Path.splitExtension at split
    split at split
    · simp at split
    · rename_i stem after _ parts
      obtain rfl := Option.some.inj split
      have cut : Path.splitExtension base = (String.ofList stem, some (String.ofList after)) := by
        unfold Path.splitExtension
        split
        · simp_all
        · simp_all
        · simp_all
      refine ⟨base, String.ofList stem, own, ?_, ?_⟩
      · simp only [stripSourceExtension, parts, typed, if_true]
      · simp only [Path.isPackageInit, h, Path.stem?, own, cut, Option.map_some, Bool.true_and]
        rfl
    · simp at split
  · exact absurd typed Bool.false_ne_true

private theorem parentName_joinDots (dirs : List String) {stem : String} (h : '.' ∉ stem.toList) :
    Home.parentName (joinDots (dirs ++ [stem])) = joinDots dirs := by
  by_cases top : dirs = []
  · simp [top, Home.parentName, Text.splitLast?_of_not_mem h, joinDots]
  · have chars : (joinDots (dirs ++ [stem])).toList =
        (joinDots dirs).toList ++ '.' :: stem.toList := by
      rw [joinDots_append top (by simp), joinDots_singleton]
      simp
    simp [Home.parentName, chars, Text.splitLast?_append_cons _ h]

private theorem package_of_moduleName {s : SearchPath} (home : s.cwd.isAbsolute) {file root : Path}
    {name : String} {dirs : List String} (source : file.isSourceFile)
    (named : s.moduleName file = some name) (nonempty : name ≠ "") (lies : s.LiesIn file root dirs) :
    (∀ dir ∈ dirs, IsPart dir) ∧
      (Home.ofFile name (some file)).package = some (joinDots dirs) := by
  obtain ⟨base, stem, own, stripped, initializer⟩ := exists_stem_of_isSourceFile source
  obtain ⟨base', whole⟩ := lies.below
  have same : base' = base := by
    have kept := Path.fileName?_normalize home own
    simp only [Path.fileName?, whole, List.map_append, List.map_cons, List.map_nil,
      ← List.append_assoc, List.getLast?_concat] at kept
    exact Option.some.inj kept
  subst same
  rw [moduleName_eq_nameBelow lies.naming whole, nameBelow_of_source stripped] at named
  split at named
  · rename_i clean
    have segment : ∀ part ∈ dirs ++ [stem], isSegment part := List.all_eq_true.mp clean
    have parts : ∀ dir ∈ dirs, IsPart dir := by
      intro dir member
      refine ⟨segment dir (List.mem_append_left _ member), ?_⟩
      have inside : .normal dir ∈ (Path.normalize s.cwd file).components := by
        rw [whole]
        simp [member]
      exact (Path.isName_of_mem_components inside).2.2.2
    refine ⟨parts, ?_⟩
    -- An initializer has the name of its package, any other file has a name in it.
    by_cases init : stem = Path.packageInit
    · rw [if_pos init] at named
      split at named
      · simp at named
      · obtain rfl := Option.some.inj named
        simp [Home.ofFile, nonempty, initializer, init]
    · rw [if_neg init] at named
      obtain rfl := Option.some.inj named
      have dot : '.' ∉ stem.toList := by
        have last := segment stem (by simp)
        simp only [isSegment, Bool.and_eq_true, Bool.not_eq_true', List.contains_eq_mem,
          decide_eq_false_iff_not] at last
        exact last.2
      simp [Home.ofFile, nonempty, initializer, init, parentName_joinDots dirs dot]
  · simp at named

private theorem filter_split_joinDots {dirs : List String} (h : ∀ dir ∈ dirs, IsPart dir) :
    (Text.split '.' (joinDots dirs)).filter (· ≠ "") = dirs := by
  by_cases top : dirs = []
  · rw [top]
    decide
  · rw [split_joinDots top h]
    exact List.filter_eq_self.mpr fun dir member => by simp [(h dir member).ne_empty]

private theorem mem_joinDots {names : List String} {c : Char} (h : c ∈ (joinDots names).toList) :
    c = '.' ∨ ∃ name ∈ names, c ∈ name.toList := by
  induction names with
  | nil => simp [joinDots] at h
  | cons name rest ih =>
    by_cases alone : rest = []
    · rw [alone, joinDots_singleton] at h
      exact Or.inr ⟨name, List.mem_cons_self, h⟩
    · rw [← List.singleton_append, joinDots_append (by simp) alone, joinDots_singleton] at h
      simp only [String.toList_append, List.mem_append] at h
      rcases h with (first | dot) | later
      · exact Or.inr ⟨name, List.mem_cons_self, first⟩
      · exact Or.inl (List.mem_singleton.mp dot)
      · rcases ih later with dot | ⟨other, member, inside⟩
        · exact Or.inl dot
        · exact Or.inr ⟨other, List.mem_cons_of_mem _ member, inside⟩

private theorem exists_cons_joinDots {names : List String} (filled : names ≠ [])
    (idents : ∀ name ∈ names, Python.isIdentifier name) :
    ∃ c r, (joinDots names).toList = c :: r ∧ c ≠ '.' := by
  obtain ⟨first, rest, rfl⟩ := List.exists_cons_of_ne_nil filled
  have ident := idents first List.mem_cons_self
  have letters : first.toList ≠ [] :=
    fun empty => Python.ne_empty_of_isIdentifier ident (String.toList_inj.mp empty)
  obtain ⟨c, r, chars⟩ := List.exists_cons_of_ne_nil letters
  have dot : '.' ∉ first.toList := (Python.isPart_of_isIdentifier ident).not_mem_dot
  have different : c ≠ '.' := fun equal => dot (by rw [chars, equal]; exact List.mem_cons_self)
  by_cases alone : rest = []
  · exact ⟨c, r, by rw [alone, joinDots_singleton, chars], different⟩
  · rw [← List.singleton_append, joinDots_append (by simp) alone, joinDots_singleton]
    simp only [String.toList_append, chars, List.cons_append]
    exact ⟨c, _, rfl, different⟩

theorem filter_relativeReference (dots : Nat) {names : List String}
    (idents : ∀ name ∈ names, Python.isIdentifier name) :
    (Python.relativeReference dots names).toList.filter (fun c => !Text.isBlank c) =
      List.replicate dots '.' ++ (joinDots names).toList := by
  simp only [Python.relativeReference, String.toList_append, String.toList_ofList]
  refine List.filter_eq_self.mpr fun x member => ?_
  have readable : x = '.' ∨ Text.isNameChar x := by
    rcases List.mem_append.mp member with lead | later
    · exact Or.inl (List.mem_replicate.mp lead).2
    · rcases mem_joinDots later with dot | ⟨name, among, inside⟩
      · exact Or.inl dot
      · exact Or.inr (Python.isNameChar_of_isIdentifier (idents name among) x inside)
  rcases readable with rfl | letter
  · decide
  · rw [Bool.not_eq_true']
    by_contra blank
    rw [Bool.not_eq_false] at blank
    rw [Text.not_isNameChar_of_isBlank blank] at letter
    exact Bool.noConfusion letter

theorem length_takeWhile_dots (dots : Nat) {names : List String}
    (idents : ∀ name ∈ names, Python.isIdentifier name) :
    ((List.replicate dots '.' ++ (joinDots names).toList).takeWhile (· == '.')).length = dots := by
  rw [List.takeWhile_append_of_pos (by simp)]
  by_cases filled : names = []
  · simp [filled, joinDots]
  · obtain ⟨c, r, chars, different⟩ := exists_cons_joinDots filled idents
    simp [chars, different]

/-- A relative import climbs from the directories around the file and goes down by its names. -/
theorem absolute_relativeReference {home : Home} {dirs names : List String} {dots : Nat}
    (package : home.package = some (joinDots dirs)) (clean : ∀ dir ∈ dirs, IsPart dir)
    (filled : names ≠ []) (idents : ∀ name ∈ names, Python.isIdentifier name) (up : 1 ≤ dots) :
    home.absolute (Python.relativeReference dots names) =
      joinDots (dirs.take (dirs.length - (dots - 1)) ++ names) := by
  obtain ⟨c, r, chars, -⟩ := exists_cons_joinDots filled idents
  have nonempty : joinDots names ≠ "" := by
    intro empty
    simp [empty] at chars
  simp only [Home.absolute, filter_relativeReference dots idents, length_takeWhile_dots dots idents,
    package, Option.getD_some, filter_split_joinDots clean]
  rw [if_neg (by omega), List.drop_left' (by simp), String.ofList_toList, if_neg nonempty,
    joinDots_append_joinDots _ filled]

end SearchPath

namespace Tables

open Python

def Plain (t : Tables) : Prop :=
  ∀ x ∈ t.wildcards.toList, x.target = some x.name

/-- Whether tables keep the imports of everything in earlier ones, and add none that leads
elsewhere. -/
structure Extends (t' t : Tables) : Prop where
  kept : ∀ x ∈ t.wildcards.toList, x ∈ t'.wildcards.toList
  plain : t.Plain → t'.Plain

variable (home : Home)

private theorem Extends.trans {t t' t'' : Tables} (h : t''.Extends t') (h' : t'.Extends t) :
    t''.Extends t :=
  ⟨fun x member => h.kept x (h'.kept x member), fun plain => h.plain (h'.plain plain)⟩

private theorem Extends.of_wildcards_eq {t t' : Tables} (h : t'.wildcards = t.wildcards) :
    t'.Extends t :=
  ⟨fun _ member => h ▸ member, fun plain x member => plain x (h ▸ member)⟩

private theorem topStatement_importAll_extends (t : Tables) (source : SpelledName) :
    (topStatement home t (.importAll source)).Extends t := by
  refine ⟨fun x member => SymbolSet.mem_insertAll_of_mem _ member, fun plain x member => ?_⟩
  rcases SymbolSet.mem_insertAll member with old | new
  · exact plain x old
  · unfold wildcardSymbols at new
    split at new
    · simp at new
    · obtain rfl := List.mem_singleton.mp new
      rfl

mutual
private theorem topStatement_extends (t : Tables) :
    (statement : Statement) → (topStatement home t statement).Extends t
  | .comment _ | .text _ | .cases _ | .plain => .of_wildcards_eq (by simp only [topStatement])
  | .assign _ | .importNames _ | .importFrom _ _ | .classDef _ _ _ | .functionDef _ _ _ _ =>
    .of_wildcards_eq (by simp only [topStatement])
  | .importAll source => topStatement_importAll_extends home t source
  | .compound clauses => by
    rw [topStatement]
    exact topClauses_extends t clauses

private theorem topBlock_extends (t : Tables) :
    (block : List Statement) → (topBlock home t block).Extends t
  | [] => .of_wildcards_eq (by rw [topBlock])
  | statement :: rest => by
    rw [topBlock]
    exact (topBlock_extends _ rest).trans (topStatement_extends t statement)

private theorem topClauses_extends (t : Tables) :
    (clauses : List Clause) → (topClauses home t clauses).Extends t
  | [] => .of_wildcards_eq (by rw [topClauses])
  | .mk _ body :: rest => by
    rw [topClauses]
    exact (topClauses_extends _ rest).trans (topBlock_extends t body)
end

private theorem topBlock_append (t : Tables) (front back : List Statement) :
    topBlock home t (front ++ back) = topBlock home (topBlock home t front) back := by
  induction front generalizing t with
  | nil => rw [List.nil_append, topBlock]
  | cons statement front ih => rw [List.cons_append, topBlock, topBlock, ih]

variable {home}

private theorem exists_mem_wildcards {tree : List Statement} {source : SpelledName}
    (member : .importAll source ∈ tree) (nonempty : home.absolute source.text ≠ "") :
    ∃ x ∈ (ofTree home tree).wildcards.toList, x.path = home.absolute source.text := by
  obtain ⟨front, back, rfl⟩ := List.append_of_mem member
  have added : (home.importSymbol (home.absolute source.text) (home.absolute source.text)).id ∈
      (topStatement home (topBlock home {} front) (.importAll source)).wildcards.ids := by
    simp only [topStatement]
    refine SymbolSet.mem_ids_insertAll.mpr (Or.inr ?_)
    simp [wildcardSymbols, nonempty]
  obtain ⟨x, inside, same⟩ := List.mem_map.mp added
  -- What stands behind keeps the import, and nothing in front of it makes it lead elsewhere.
  have whole : ofTree home (front ++ .importAll source :: back) =
      topBlock home (topStatement home (topBlock home {} front) (.importAll source)) back := by
    rw [ofTree, topBlock_append, topBlock]
  have later := topBlock_extends home
    (topStatement home (topBlock home {} front) (.importAll source)) back
  have earlier := (topStatement_extends home (topBlock home {} front)
    (.importAll source)).trans (topBlock_extends home {} front)
  have empty : ({} : Tables).Plain := fun x member => absurd member List.not_mem_nil
  have target := later.plain (earlier.plain empty) x (later.kept x inside)
  have name : x.name = home.absolute source.text := congrArg SymbolId.name same
  refine ⟨x, whole ▸ later.kept x inside, ?_⟩
  rw [Symbol.path, target, Option.getD_some, name]

end Tables

namespace SearchPath

/-- A relative import names the file to which its dots and identifiers lead: each dot but the first
goes up one directory from the file that imports, the identifiers go down from there. At the root
further dots lead nowhere. -/
theorem relative_import_names_file {s : SearchPath} (home : s.cwd.isAbsolute) {file root : Path}
    {name last : String} {dirs inner : List String} {dots : Nat} (source : file.isSourceFile)
    (named : s.moduleName file = some name) (nonempty : name ≠ "") (lies : s.LiesIn file root dirs)
    (up : 1 ≤ dots) (idents : ∀ part ∈ inner ++ [last], Python.isIdentifier part)
    (plain : last ≠ Path.packageInit)
    (naming : s.namingRoot
      (fileBelow root (dirs.take (dirs.length + 1 - dots) ++ inner) last) = some root) :
    ∃ found, s.moduleName
        (fileBelow root (dirs.take (dirs.length + 1 - dots) ++ inner) last) = some found ∧
      (Home.ofFile name (some file)).absolute (Python.relativeReference dots (inner ++ [last])) =
        found ∧
      ∀ (tree : List Python.Statement) (spelled : Python.SpelledName),
        .importAll spelled ∈ tree → spelled.text = Python.relativeReference dots (inner ++ [last]) →
          ∃ x ∈ (SourceModule.ofTree name (some file) tree).wildcards, x.path = found := by
  obtain ⟨clean, package⟩ := package_of_moduleName home source named nonempty lies
  obtain ⟨base, -, own, -⟩ := exists_stem_of_isSourceFile source
  obtain ⟨rootNames, rooted⟩ := lies.exists_rootNames home (Path.text_ne_empty_of_fileName? own)
  have parts : ∀ part ∈ dirs.take (dirs.length + 1 - dots) ++ inner ++ [last], IsPart part := by
    intro part member
    rw [List.append_assoc] at member
    rcases List.mem_append.mp member with above | below
    · exact clean part (List.mem_of_mem_take above)
    · exact Python.isPart_of_isIdentifier (idents part below)
  have climbed := absolute_relativeReference package clean (by simp) idents up
  have levels : dirs.length - (dots - 1) = dirs.length + 1 - dots := by omega
  rw [levels, ← List.append_assoc] at climbed
  refine ⟨_, moduleName_fileBelow rooted parts plain naming, climbed, ?_⟩
  intro tree spelled member text
  have filled : joinDots (dirs.take (dirs.length + 1 - dots) ++ inner ++ [last]) ≠ "" :=
    joinDots_concat_ne_empty _ (parts last (by simp)).ne_empty
  rw [← text] at climbed
  obtain ⟨x, inside, path⟩ := Tables.exists_mem_wildcards member (climbed ▸ filled)
  exact ⟨x, inside, path.trans climbed⟩

theorem relative_import_names_file_of_package :
    (parse ⟨"/"⟩ "/r").moduleName ⟨"/r/q/m/x.py"⟩ = some "q.m.x" ∧
      (Home.ofFile "q.p" (some ⟨"/r/q/p/__init__.py"⟩)).absolute "..m.x" = "q.m.x" := by
  have place : fileBelow ⟨"/r"⟩ (["q", "p"].take (["q", "p"].length + 1 - 2) ++ ["m"]) "x" =
      ⟨"/r/q/m/x.py"⟩ := by
    decide
  have spelled : Python.relativeReference 2 (["m"] ++ ["x"]) = "..m.x" := by decide
  have value : (parse ⟨"/"⟩ "/r").moduleName ⟨"/r/q/m/x.py"⟩ = some "q.m.x" := by decide
  obtain ⟨found, named, absolute, -⟩ := @relative_import_names_file (parse ⟨"/"⟩ "/r")
    (by decide) ⟨"/r/q/p/__init__.py"⟩ ⟨"/r"⟩ "q.p" "x" ["q", "p"] ["m"] 2 (by decide) (by decide)
    (by decide) ⟨by decide, "__init__.py", by decide⟩ (by decide) (by decide) (by decide)
    (by decide)
  rw [place, value] at named
  obtain rfl := Option.some.inj named
  exact ⟨value, spelled ▸ absolute⟩

end SearchPath

end ImportAtlas
