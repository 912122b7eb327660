import ImportAtlas.Proofs.NormalPath
import ImportAtlas.SearchPath

/-!
Module names and the files they come from: a name is made of segments without dots and slashes, and
the files that would provide it are normal paths.
-/

set_option autoImplicit false

namespace ImportAtlas

namespace Text

private theorem eq_append_of_splitLast? {sep : Char} {cs before after : List Char}
    (h : splitLast? sep cs = some (before, after)) : cs = before ++ sep :: after := by
  induction cs generalizing before with
  | nil => simp [splitLast?] at h
  | cons c cs ih =>
    simp only [splitLast?] at h
    cases tail : splitLast? sep cs with
    | some parts =>
      obtain ⟨left, right⟩ := parts
      rw [tail] at h
      obtain ⟨rfl, rfl⟩ := Prod.mk.inj (Option.some.inj h)
      rw [ih tail]
      rfl
    | none =>
      rw [tail] at h
      simp only at h
      split at h
      · rename_i same
        obtain ⟨rfl, rfl⟩ := Prod.mk.inj (Option.some.inj h)
        rw [same]
        rfl
      · simp at h

end Text

namespace Path

private theorem text_child_ne_empty (q : Path) {name : String} (h : IsName name) :
    (q.child name).text ≠ "" := by
  rw [child_of_isName q h]
  exact fun empty => h.1 (String.append_eq_empty_iff.mp empty).2

private theorem join_child {p q : Path} (relative : q.isAbsolute = false) (nonempty : q.text ≠ "")
    {name : String} (h : IsName name) : p.join (q.child name) = (p.join q).child name := by
  have below := (isAbsolute_child_eq q h).trans relative
  have ending : ∀ before : String, (before ++ q.text).toList.getLast? = q.text.toList.getLast? := by
    intro before
    have chars : q.text.toList ≠ [] := fun empty => nonempty (String.toList_inj.mp empty)
    rw [String.toList_append, List.getLast?_append_of_ne_nil _ chars]
  have lead_append : ∀ before : String, (⟨before ++ q.text⟩ : Path).lead = before ++ q.lead := by
    intro before
    have filled : before ++ q.text ≠ "" := fun empty => nonempty (String.append_eq_empty_iff.mp empty).2
    simp only [lead, ending, filled, nonempty, decide_false, Bool.false_or]
    split
    · rfl
    · rw [String.append_assoc]
  rw [child_of_isName _ h, child_of_isName _ h]
  rw [child_of_isName q h] at below
  simp only [join, below, relative, Bool.false_eq_true, if_false]
  split
  · rw [lead_append, String.append_assoc]
  · rw [lead_append]
    simp only [String.append_assoc]

theorem isName_append_extension {name : String} (h : IsName name) {ext : String}
    (known : ext ∈ sourceExtensions) : IsName (name ++ "." ++ ext) := by
  have slash : '/' ∉ ext.toList ∧ ext ≠ "" ∧ ext ≠ "." := by
    rcases List.mem_cons.mp known with rfl | known
    · decide
    · obtain rfl := List.mem_singleton.mp known
      decide
  have long : 3 ≤ (name ++ "." ++ ext).toList.length := by
    have front := List.length_pos_iff.mpr h.toList_ne_nil
    have back := List.length_pos_iff.mpr fun empty => slash.2.1 (String.toList_inj.mp empty)
    simp only [String.toList_append, List.length_append]
    have dot : ".".toList.length = 1 := rfl
    omega
  have differs : ∀ text : String, text.toList.length ≤ 2 → name ++ "." ++ ext ≠ text := by
    intro text short equal
    rw [equal] at long
    omega
  refine ⟨differs "" (by decide), differs "." (by decide), differs ".." (by decide), ?_⟩
  simp only [String.toList_append, List.mem_append, not_or]
  exact ⟨⟨h.2.2.2, by decide⟩, slash.1⟩

theorem withExtension_child_stem (p : Path) {name ext : String} (h : IsName name)
    (last : name.toList.getLast? ≠ some '.')
    (h' : IsName ((splitExtension name).1 ++ "." ++ ext)) :
    (p.child name).withExtension ext = p.child ((splitExtension name).1 ++ "." ++ ext) := by
  have found : (p.child name).fileName? = some name := by
    simp [fileName?, components_child p h]
  have whole : (p.child name).withoutTail = (p.child name).text.toList := by
    obtain ⟨before, c, chars⟩ : ∃ before c, name.toList = before ++ [c] := by
      rcases List.eq_nil_or_concat name.toList with empty | ⟨before, c, chars⟩
      · exact absurd empty h.toList_ne_nil
      · exact ⟨before, c, by rw [chars, List.concat_eq_append]⟩
    have dot : c ≠ '.' := fun equal => last (by rw [chars, equal]; simp)
    have slash : c ≠ '/' := fun equal => h.2.2.2 (by rw [chars, equal]; simp)
    have backwards : ((p.child name).text.toList).reverse =
        c :: (p.lead.toList ++ before).reverse := by
      rw [child_of_isName p h, String.toList_append, chars, ← List.append_assoc,
        List.reverse_append]
      rfl
    have stays : withoutTail.go (c :: (p.lead.toList ++ before).reverse) =
        c :: (p.lead.toList ++ before).reverse := by
      unfold withoutTail.go
      split
      · rename_i equal
        exact absurd (List.cons.inj equal).1 slash
      · rename_i equal
        exact absurd (List.cons.inj equal).1 dot
      · rfl
    rw [withoutTail, backwards, stays, ← backwards, List.reverse_reverse]
  have front : (p.child name).withoutTail.take
      ((p.child name).withoutTail.length - name.length) = p.lead.toList := by
    rw [whole, child_of_isName p h]
    simp only [String.toList_append, List.length_append, String.length_toList,
      Nat.add_sub_cancel, List.take_left']
  rw [withExtension, found]
  simp only [front, String.ofList_toList]
  rw [child_of_isName p h']
  simp only [String.append_assoc]

private theorem withExtension_child (p : Path) {name : String} (h : IsName name)
    (plain : '.' ∉ name.toList) {ext : String} (known : ext ∈ sourceExtensions) :
    (p.child name).withExtension ext = p.child (name ++ "." ++ ext) := by
  have stem : (splitExtension name).1 = name := by
    simp [splitExtension, Text.splitLast?_of_not_mem plain]
  have last : name.toList.getLast? ≠ some '.' := fun ends => plain (List.mem_of_getLast? ends)
  have extended := withExtension_child_stem p h last
    (by rw [stem]; exact isName_append_extension h known)
  rw [stem] at extended
  exact extended

end Path

namespace SearchPath

/-- Whether a text can be a segment in the name of a file's module. -/
def IsPart (part : String) : Prop :=
  isSegment part ∧ '/' ∉ part.toList

theorem IsPart.ne_empty {part : String} (h : IsPart part) : part ≠ "" := by
  have segment := h.1
  simp only [isSegment, Bool.and_eq_true, decide_eq_true_eq] at segment
  exact segment.1

theorem IsPart.not_mem_dot {part : String} (h : IsPart part) : '.' ∉ part.toList := by
  have segment := h.1
  simp only [isSegment, Bool.and_eq_true, Bool.not_eq_true', List.contains_eq_mem,
    decide_eq_false_iff_not] at segment
  exact segment.2

theorem IsPart.isName {part : String} (h : IsPart part) : Path.IsName part := by
  have dotted : ∀ text : String, '.' ∈ text.toList → part ≠ text := by
    rintro text inside rfl
    exact h.not_mem_dot inside
  exact ⟨h.ne_empty, dotted "." (by decide), dotted ".." (by decide), h.2⟩

theorem split_joinDots {parts : List String} (filled : parts ≠ [])
    (h : ∀ part ∈ parts, IsPart part) :
    Text.split '.' (joinDots parts) = parts := by
  have single : ∀ part, IsPart part → Text.splitChars '.' part.toList = [part.toList] :=
    fun part clean => Text.splitChars_of_not_mem clean.not_mem_dot
  induction parts with
  | nil => exact absurd rfl filled
  | cons part rest ih =>
    have first := single part (h part List.mem_cons_self)
    cases rest with
    | nil => simp [Text.split, joinDots, String.intercalate_singleton, first]
    | cons next more =>
      have later := ih (by simp) fun other member => h other (List.mem_cons_of_mem _ member)
      have chars : (joinDots (part :: next :: more)).toList =
          part.toList ++ '.' :: (joinDots (next :: more)).toList := by
        simp [joinDots, String.intercalate_cons_cons]
      unfold Text.split at later ⊢
      rw [chars, Text.splitChars_append_sep, first, List.singleton_append, List.map_cons, later,
        String.ofList_toList]

private theorem joinDots_splitChars (cs : List Char) :
    joinDots ((Text.splitChars '.' cs).map String.ofList) = String.ofList cs := by
  induction cs with
  | nil => simp [Text.splitChars, joinDots, String.intercalate_singleton]
  | cons c cs ih =>
    obtain ⟨piece, pieces, parts⟩ := List.exists_cons_of_ne_nil (Text.splitChars_ne_nil '.' cs)
    simp only [parts, List.map_cons] at ih
    simp only [Text.splitChars, parts]
    split
    · rename_i dot
      have front : joinDots (String.ofList [] :: String.ofList piece :: pieces.map String.ofList) =
          "." ++ joinDots (String.ofList piece :: pieces.map String.ofList) := by
        simp [joinDots, String.intercalate_cons_cons]
      rw [List.map_cons, List.map_cons, front, ih, dot, ← String.toList_inj]
      simp
    · have front : ∀ rest, joinDots (String.ofList (c :: piece) :: rest) =
          String.ofList [c] ++ joinDots (String.ofList piece :: rest) := by
        intro rest
        rw [← String.toList_inj]
        cases rest <;> simp [joinDots, String.intercalate_cons_cons]
      rw [List.map_cons, front, ih, ← String.toList_inj]
      simp

theorem joinDots_split (text : String) : joinDots (Text.split '.' text) = text := by
  rw [Text.split, joinDots_splitChars, String.ofList_toList]

theorem eq_append_of_stripSourceExtension {base stem : String}
    (h : stripSourceExtension base = some stem) :
    ∃ ext ∈ Path.sourceExtensions, base = stem ++ "." ++ ext := by
  unfold stripSourceExtension at h
  split at h
  · rename_i before after cut
    split at h
    · rename_i known
      obtain rfl := Option.some.inj h
      refine ⟨String.ofList after, List.contains_iff_mem.mp known, ?_⟩
      rw [← String.toList_inj, Text.eq_append_of_splitLast? cut]
      simp
    · simp at h
  · simp at h

theorem isPart_of_stripped {part stem : String} (slash : '/' ∉ part.toList)
    (h : stripSourceExtension part = some stem) (segment : isSegment stem) : IsPart stem := by
  refine ⟨segment, ?_⟩
  obtain ⟨ext, -, rfl⟩ := eq_append_of_stripSourceExtension h
  intro inside
  exact slash (by simp [inside])

theorem isPart_of_mem_segments {below : List Component} {parts : List String} {source : Bool}
    (h : segments below = some (parts, source))
    (clean : ∀ name, .normal name ∈ below → Path.IsName name) : ∀ part ∈ parts, IsPart part := by
  fun_induction segments below generalizing parts source with
  | case1 =>
    obtain ⟨rfl, -⟩ := Prod.mk.inj (Option.some.inj h)
    simp
  | case2 part stem stripped segment =>
    obtain ⟨rfl, -⟩ := Prod.mk.inj (Option.some.inj h)
    intro other member
    obtain rfl := List.mem_singleton.mp member
    exact isPart_of_stripped (clean part List.mem_cons_self).2.2.2 stripped segment
  | case3 => simp at h
  | case4 part stripped segment =>
    obtain ⟨rfl, -⟩ := Prod.mk.inj (Option.some.inj h)
    intro other member
    obtain rfl := List.mem_singleton.mp member
    exact ⟨segment, (clean other List.mem_cons_self).2.2.2⟩
  | case5 => simp at h
  | case6 part rest _ segment ih =>
    obtain ⟨⟨names, inner⟩, found, equal⟩ := Option.map_eq_some_iff.mp h
    obtain ⟨rfl, -⟩ := Prod.mk.inj equal
    intro other member
    rcases List.mem_cons.mp member with rfl | member
    · exact ⟨segment, (clean other List.mem_cons_self).2.2.2⟩
    · exact ih found (fun name inside => clean name (List.mem_cons_of_mem _ inside)) other member
  | case7 => simp at h
  | case8 => simp at h

private theorem exists_parts_of_nameBelow {below : List Component} {name : String}
    (h : nameBelow below = some name) (clean : ∀ part, .normal part ∈ below → Path.IsName part) :
    ∃ parts, (∀ part ∈ parts, IsPart part) ∧ name = joinDots parts := by
  obtain ⟨⟨names, source⟩, found, named⟩ := Option.bind_eq_some_iff.mp h
  have parts := isPart_of_mem_segments found clean
  have kept : ∀ part ∈ if names.getLast? = some Path.packageInit then names.dropLast else names,
      IsPart part := by
    split
    · exact fun part member => parts part (List.dropLast_subset _ member)
    · exact parts
  simp only at named
  generalize (if names.getLast? = some Path.packageInit then names.dropLast else names) = left
    at kept named
  split at named
  · simp at named
  · obtain rfl := Option.some.inj named
    exact ⟨left, kept, rfl⟩

theorem eq_append_of_componentsAfter {base cs below : List Component}
    (h : Path.componentsAfter base cs = some below) : cs = base ++ below := by
  induction base generalizing cs with
  | nil => exact Option.some.inj h
  | cons b base ih =>
    cases cs with
    | nil => simp [Path.componentsAfter] at h
    | cons c cs =>
      simp only [Path.componentsAfter] at h
      split at h
      · rename_i same
        rw [same, ih h, List.cons_append]
      · simp at h

theorem exists_parts_of_moduleName {s : SearchPath} {p : Path} {name : String}
    (h : s.moduleName p = some name) :
    ∃ parts, (∀ part ∈ parts, IsPart part) ∧ name = joinDots parts := by
  obtain ⟨⟨i, root⟩, -, rest⟩ := Option.bind_eq_some_iff.mp h
  obtain ⟨below, behind, named⟩ := Option.bind_eq_some_iff.mp rest
  refine exists_parts_of_nameBelow named ?_
  intro part inside
  have whole : .normal part ∈ (Path.normalize s.cwd p).components := by
    rw [eq_append_of_componentsAfter behind]
    exact List.mem_append_right _ inside
  exact Path.isName_of_mem_components whole

private theorem join_foldl_child (root : Path) (parts : List String) (filled : parts ≠ [])
    (h : ∀ part ∈ parts, Path.IsName part) :
    root.join (parts.foldl Path.child ⟨""⟩) = parts.foldl Path.child root ∧
      (parts.foldl Path.child ⟨""⟩).isAbsolute = false ∧
      (parts.foldl Path.child ⟨""⟩).text ≠ "" := by
  induction parts using List.reverseRecOn with
  | nil => exact absurd rfl filled
  | append_singleton parts part ih =>
    have last : Path.IsName part := h part (List.mem_append_right _ List.mem_cons_self)
    simp only [List.foldl_append, List.foldl_cons, List.foldl_nil]
    cases parts with
    | nil =>
      have first : (⟨""⟩ : Path).child part = ⟨part⟩ := by
        rw [Path.child_of_isName _ last]
        simp [Path.lead]
      simp only [List.foldl_nil, first]
      exact ⟨rfl, last.not_isAbsolute, last.1⟩
    | cons first others =>
      obtain ⟨joined, relative, nonempty⟩ :=
        ih (by simp) fun other member => h other (List.mem_append_left _ member)
      refine ⟨?_, (Path.isAbsolute_child_eq _ last).trans relative,
        Path.text_child_ne_empty _ last⟩
      rw [Path.join_child relative nonempty last, joined]

private theorem isNormal_foldl_child {root : Path} (normal : root.IsNormal) {parts : List String}
    (h : ∀ part ∈ parts, Path.IsName part) : (parts.foldl Path.child root).IsNormal := by
  induction parts generalizing root with
  | nil => exact normal
  | cons part rest ih =>
    exact ih (normal.child (h part List.mem_cons_self))
      fun other member => h other (List.mem_cons_of_mem _ member)

def sourceBelow (root : Path) (dirs : List String) (stem ext : String) : Path :=
  (dirs.foldl Path.child root).child (stem ++ "." ++ ext)

theorem places_eq (root : Path) {dirs : List String} {last : String}
    (h : ∀ part ∈ dirs ++ [last], IsPart part) :
    places root ((dirs ++ [last]).foldl Path.child ⟨""⟩) =
      Path.sourceExtensions.map (sourceBelow root (dirs ++ [last]) Path.packageInit) ++
        Path.sourceExtensions.map (sourceBelow root dirs last) := by
  have names : ∀ part ∈ dirs ++ [last], Path.IsName part := fun part inside => (h part inside).isName
  have final : IsPart last := h last (List.mem_append_right _ List.mem_cons_self)
  simp only [places, (join_foldl_child root (dirs ++ [last]) (by simp) names).1]
  congr 1
  apply List.map_congr_left
  intro ext known
  rw [List.foldl_append, List.foldl_cons, List.foldl_nil,
    Path.withExtension_child _ final.isName final.not_mem_dot known]
  rfl

theorem mem_places_iff {root : Path} {parts : List String} (filled : parts ≠ [])
    (h : ∀ part ∈ parts, IsPart part)
    {file : Path} :
    file ∈ places root (parts.foldl Path.child ⟨""⟩) ↔
      ∃ dirs stem, ∃ ext ∈ Path.sourceExtensions, file = sourceBelow root dirs stem ext ∧
        ((dirs = parts ∧ stem = Path.packageInit) ∨ dirs ++ [stem] = parts) := by
  obtain ⟨front, last, rfl⟩ : ∃ front last, parts = front ++ [last] :=
    ⟨_, _, (List.dropLast_append_getLast filled).symm⟩
  rw [places_eq root h, List.mem_append, List.mem_map, List.mem_map]
  constructor
  · rintro (⟨ext, known, rfl⟩ | ⟨ext, known, rfl⟩)
    · exact ⟨front ++ [last], Path.packageInit, ext, known, rfl, Or.inl ⟨rfl, rfl⟩⟩
    · exact ⟨front, last, ext, known, rfl, Or.inr rfl⟩
  · rintro ⟨dirs, stem, ext, known, rfl, ⟨rfl, rfl⟩ | same⟩
    · exact Or.inl ⟨ext, known, rfl⟩
    · obtain ⟨rfl, rfl⟩ := List.append_singleton_inj.mp same
      exact Or.inr ⟨ext, known, rfl⟩

theorem isPart_of_place {dirs parts : List String} {stem : String} (h : ∀ part ∈ parts, IsPart part)
    (place : (dirs = parts ∧ stem = Path.packageInit) ∨ dirs ++ [stem] = parts) :
    ∀ part ∈ dirs ++ [stem], IsPart part := by
  rcases place with ⟨rfl, rfl⟩ | rfl
  · intro part member
    rcases List.mem_append.mp member with member | member
    · exact h part member
    · rw [List.mem_singleton.mp member]
      exact ⟨by decide, by decide⟩
  · exact h

theorem isNormal_sourceBelow {root : Path} (normal : root.IsNormal) {dirs : List String}
    {stem ext : String} (clean : ∀ part ∈ dirs ++ [stem], IsPart part)
    (known : ext ∈ Path.sourceExtensions) : (sourceBelow root dirs stem ext).IsNormal := by
  have names : ∀ dir ∈ dirs, Path.IsName dir := fun dir inside =>
    (clean dir (List.mem_append_left _ inside)).isName
  have final : Path.IsName stem := (clean stem (by simp)).isName
  exact (isNormal_foldl_child normal names).child (Path.isName_append_extension final known)

private theorem isNormal_of_mem_places {root : Path} (normal : root.IsNormal) {parts : List String}
    (filled : parts ≠ []) (h : ∀ part ∈ parts, IsPart part) {file : Path}
    (member : file ∈ places root (parts.foldl Path.child ⟨""⟩)) : file.IsNormal := by
  obtain ⟨dirs, stem, ext, known, rfl, place⟩ := (mem_places_iff filled h).mp member
  exact isNormal_sourceBelow normal (isPart_of_place h place) known

/-- Whether the working directory is absolute and the roots are normal. -/
structure IsNormal (s : SearchPath) : Prop where
  home : s.cwd.isAbsolute
  roots : ∀ root ∈ s.roots, root.IsNormal

theorem moduleName_of_mem_candidates {s : SearchPath} {name : String} {file : Path}
    (h : file ∈ s.candidates name) : s.moduleName file = some name := by
  unfold candidates at h
  split at h
  · simp at h
  · exact of_decide_eq_true (List.mem_filter.mp h).2

theorem exists_place_of_mem_candidates {s : SearchPath} {name : String} {file : Path}
    (h : file ∈ s.candidates name) :
    ∃ root ∈ s.roots, ∃ parts, parts ≠ [] ∧ (∀ part ∈ parts, IsPart part) ∧
      file ∈ places root (parts.foldl Path.child ⟨""⟩) := by
  obtain ⟨parts, clean, rfl⟩ := exists_parts_of_moduleName (moduleName_of_mem_candidates h)
  have filled : parts ≠ [] := by
    rintro rfl
    simp [candidates, joinDots] at h
  unfold candidates at h
  split at h
  · simp at h
  · rw [split_joinDots filled clean] at h
    obtain ⟨root, member, place⟩ := List.mem_flatMap.mp (List.mem_filter.mp h).1
    exact ⟨root, member, parts, filled, clean, place⟩

theorem IsNormal.of_mem_candidates {s : SearchPath} (normal : s.IsNormal) {name : String}
    {file : Path} (h : file ∈ s.candidates name) : file.IsNormal := by
  obtain ⟨root, member, parts, filled, clean, place⟩ := exists_place_of_mem_candidates h
  exact isNormal_of_mem_places (normal.roots root member) filled clean place

private theorem mem_addRoot {roots : List Path} {root other : Path}
    (h : other ∈ addRoot roots root) : other ∈ roots ∨ other = root := by
  unfold addRoot at h
  split at h
  · exact Or.inl h
  · simpa using h

theorem mem_foldl_addRoot {dirs roots : List Path} {root : Path}
    (h : root ∈ dirs.foldl addRoot roots) : root ∈ roots ∨ root ∈ dirs := by
  induction dirs generalizing roots with
  | nil => exact Or.inl h
  | cons dir dirs ih =>
    rcases ih h with added | later
    · rcases mem_addRoot added with before | rfl
      · exact Or.inl before
      · exact Or.inr List.mem_cons_self
    · exact Or.inr (List.mem_cons_of_mem _ later)

theorem isNormal_empty {cwd : Path} (home : cwd.isAbsolute) : (empty cwd).IsNormal :=
  ⟨home, by simp [empty]⟩

theorem isNormal_parse {cwd : Path} (home : cwd.isAbsolute) (text : String) :
    (parse cwd text).IsNormal := by
  refine ⟨home, ?_⟩
  intro root member
  rcases mem_foldl_addRoot member with impossible | member
  · simp at impossible
  obtain ⟨dir, listed, rfl⟩ := List.mem_map.mp member
  obtain ⟨entry, kept, rfl⟩ := List.mem_map.mp listed
  refine Path.isNormal_normalize home ?_
  rintro rfl
  exact absurd (List.mem_filter.mp kept).2 (by decide)

theorem IsNormal.normalize_of_moduleName {s : SearchPath} (normal : s.IsNormal) {p : Path}
    {name : String} (h : s.moduleName p = some name) : (Path.normalize s.cwd p).IsNormal := by
  by_cases nonempty : p.text = ""
  · -- The empty path has no component, so that it lies below no root.
    obtain ⟨text⟩ := p
    obtain rfl : text = "" := nonempty
    have stays : Path.normalize s.cwd ⟨""⟩ = ⟨""⟩ := rfl
    have outside : s.roots.zipIdx.filter (fun entry => Path.startsWith ⟨""⟩ entry.1) = [] := by
      apply List.filter_eq_nil_iff.mpr
      rintro ⟨root, i⟩ member
      obtain ⟨names, clean, rfl⟩ := normal.roots root (List.fst_mem_of_mem_zipIdx member)
      have none_behind : Path.componentsAfter (Path.ofNames names).components
          (⟨""⟩ : Path).components = none := by
        rw [Path.components_ofNames clean]
        rfl
      simp only [Path.startsWith, none_behind]
      exact Bool.false_ne_true
    have no_root : s.longestRoot ⟨""⟩ = none := by
      unfold longestRoot
      rw [outside]
      rfl
    simp [moduleName, stays, no_root] at h
  · exact Path.isNormal_normalize normal.home nonempty

/-- Normalizing a path does not change its name. -/
theorem IsNormal.moduleName_normalize {s : SearchPath} (normal : s.IsNormal) {p : Path}
    {name : String} (h : s.moduleName p = some name) :
    s.moduleName (Path.normalize s.cwd p) = some name := by
  have again := (normal.normalize_of_moduleName h).normalize_eq s.cwd
  unfold moduleName at h ⊢
  rw [again]
  exact h

end SearchPath

end ImportAtlas
