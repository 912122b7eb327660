import ImportAtlas.Path
import Mathlib.Data.List.Basic
import Mathlib.Data.List.Induction

/-!
Normal paths: absolute, without `.`, `..` and needless slashes. Such a path is known by the names on
the way from the root, and normalizing leaves it alone.
-/

set_option autoImplicit false

namespace ImportAtlas

namespace Text

theorem splitChars_ne_nil (sep : Char) (cs : List Char) : splitChars sep cs ≠ [] := by
  cases cs with
  | nil => simp [splitChars]
  | cons c cs =>
    simp only [splitChars]
    split
    · simp
    · split <;> simp

theorem splitChars_append_sep (sep : Char) (a b : List Char) :
    splitChars sep (a ++ sep :: b) = splitChars sep a ++ splitChars sep b := by
  induction a with
  | nil => simp [splitChars]
  | cons c a ih =>
    simp only [List.cons_append, splitChars, ih]
    by_cases h : c = sep
    · simp [h]
    · obtain ⟨piece, pieces, parts⟩ := List.exists_cons_of_ne_nil (splitChars_ne_nil sep a)
      simp [h, parts]

theorem splitChars_of_not_mem {sep : Char} {cs : List Char} (h : sep ∉ cs) :
    splitChars sep cs = [cs] := by
  induction cs with
  | nil => rfl
  | cons c cs ih =>
    obtain ⟨head, tail⟩ := not_or.mp (mt List.mem_cons.mpr h)
    simp [splitChars, Ne.symm head, ih tail]

private theorem not_mem_of_mem_splitChars {sep : Char} {cs piece : List Char}
    (h : piece ∈ splitChars sep cs) : sep ∉ piece := by
  induction cs generalizing piece with
  | nil =>
    obtain rfl := List.mem_singleton.mp h
    exact List.not_mem_nil
  | cons c cs ih =>
    obtain ⟨first, others, parts⟩ := List.exists_cons_of_ne_nil (splitChars_ne_nil sep cs)
    have clean : ∀ p ∈ first :: others, sep ∉ p := fun p member => ih (parts ▸ member)
    simp only [splitChars, parts] at h
    split at h
    · rcases List.mem_cons.mp h with rfl | member
      · exact List.not_mem_nil
      · exact clean piece member
    · rename_i different
      rcases List.mem_cons.mp h with rfl | member
      · intro inside
        rcases List.mem_cons.mp inside with rfl | inside
        · exact different rfl
        · exact clean first List.mem_cons_self inside
      · exact clean piece (List.mem_cons_of_mem _ member)

theorem splitLast?_of_not_mem {sep : Char} {cs : List Char} (h : sep ∉ cs) :
    splitLast? sep cs = none := by
  induction cs with
  | nil => rfl
  | cons c cs ih =>
    obtain ⟨head, tail⟩ := not_or.mp (mt List.mem_cons.mpr h)
    simp [splitLast?, ih tail, Ne.symm head]

end Text

namespace Path

def ofNames (names : List String) : Path :=
  ofComponents (.root :: names.map .normal)

/-- Whether a path is absolute and spelled without `.`, `..` and needless slashes. -/
def IsNormal (p : Path) : Prop :=
  ∃ names, (∀ name ∈ names, IsName name) ∧ p = ofNames names

def lead (p : Path) : String :=
  if p.text = "" || p.text.toList.getLast? = some '/' then p.text else p.text ++ "/"

theorem IsName.toList_ne_nil {name : String} (h : IsName name) : name.toList ≠ [] :=
  fun empty => h.1 (String.toList_inj.mp empty)

theorem IsName.not_isAbsolute {name : String} (h : IsName name) :
    (⟨name⟩ : Path).isAbsolute = false := by
  obtain ⟨c, cs, chars⟩ := List.exists_cons_of_ne_nil h.toList_ne_nil
  have slash := h.2.2.2
  rw [chars] at slash
  have different : c ≠ '/' := fun equal => slash (equal ▸ List.mem_cons_self)
  simp [isAbsolute, chars, different]

private theorem componentOf_of_isName {name : String} (h : IsName name) :
    componentOf name = some (.normal name) := by
  simp [componentOf, h.1, h.2.1, h.2.2.1]

theorem join_of_relative (p : Path) {q : Path} (relative : q.isAbsolute = false) :
    p.join q = ⟨p.lead ++ q.text⟩ := by
  simp only [join, relative, lead, Bool.false_eq_true, if_false]
  by_cases ending : (p.text = "" || p.text.toList.getLast? = some '/') = true
  · rw [if_pos ending, if_pos ending]
  · rw [if_neg ending, if_neg ending]

theorem isAbsolute_join (p : Path) {q : Path} (relative : q.isAbsolute = false) :
    (p.join q).isAbsolute = p.isAbsolute := by
  rw [join_of_relative p relative]
  by_cases nonempty : p.text = ""
  · simp only [isAbsolute] at relative ⊢
    simp [lead, nonempty, relative]
  · have chars : p.text.toList ≠ [] := fun empty => nonempty (String.toList_inj.mp empty)
    obtain ⟨c, cs, chars⟩ := List.exists_cons_of_ne_nil chars
    unfold lead
    split <;> simp [isAbsolute, chars]

theorem child_of_isName (p : Path) {name : String} (h : IsName name) :
    p.child name = ⟨p.lead ++ name⟩ :=
  join_of_relative p h.not_isAbsolute

theorem isAbsolute_child_eq (p : Path) {name : String} (h : IsName name) :
    (p.child name).isAbsolute = p.isAbsolute :=
  isAbsolute_join p h.not_isAbsolute

private theorem isAbsolute_child {p : Path} (absolute : p.isAbsolute) {name : String}
    (h : IsName name) :
    (p.child name).isAbsolute :=
  (isAbsolute_child_eq p h).trans absolute

private theorem components_of_isAbsolute {p : Path} (absolute : p.isAbsolute) :
    p.components = .root :: (Text.split '/' p.text).filterMap componentOf := by
  simp [components, absolute]

private theorem exists_pieces_join {p q : Path} (nonempty : p.text ≠ "")
    (relative : q.isAbsolute = false) :
    ∃ front, front ≠ [] ∧ Text.split '/' (p.join q).text = front ++ Text.split '/' q.text ∧
      front.filterMap componentOf = (Text.split '/' p.text).filterMap componentOf ∧
      front.head? = (Text.split '/' p.text).head? := by
  rw [join_of_relative p relative]
  by_cases slash : p.text.toList.getLast? = some '/'
  · -- The path ends with a slash, behind which there is no piece yet.
    obtain ⟨before, chars⟩ := List.getLast?_eq_some_iff.mp slash
    have pieces : Text.splitChars '/' p.text.toList = Text.splitChars '/' before ++ [[]] := by
      rw [chars, Text.splitChars_append_sep]
      rfl
    have none_behind : componentOf (String.ofList []) = none := by decide
    obtain ⟨first, others, parts⟩ := List.exists_cons_of_ne_nil (Text.splitChars_ne_nil '/' before)
    refine ⟨(Text.splitChars '/' before).map String.ofList, ?_, ?_, ?_, ?_⟩
    · simp [parts]
    · simp [lead, Text.split, chars, Text.splitChars_append_sep]
    · simp [Text.split, pieces, none_behind]
    · simp [Text.split, pieces, parts]
  · obtain ⟨first, others, parts⟩ :=
      List.exists_cons_of_ne_nil (Text.splitChars_ne_nil '/' p.text.toList)
    refine ⟨Text.split '/' p.text, ?_, ?_, rfl, rfl⟩
    · simp [Text.split, parts]
    · simp [lead, nonempty, slash, Text.split, Text.splitChars_append_sep]

/-- A relative path below another one that is not empty leads on by its own steps. A dot at its
start does not count there. -/
theorem components_join {p q : Path} (nonempty : p.text ≠ "") (relative : q.isAbsolute = false) :
    (p.join q).components =
      p.components ++ (Text.split '/' q.text).filterMap componentOf := by
  obtain ⟨front, filled, pieces, named, first⟩ := exists_pieces_join nonempty relative
  simp only [components, isAbsolute_join p relative, pieces, List.filterMap_append, named,
    List.head?_append_of_ne_nil _ filled, first]
  split
  · rfl
  · split <;> rfl

theorem components_child (p : Path) {name : String} (h : IsName name) :
    (p.child name).components = p.components ++ [.normal name] := by
  have pieces : Text.split '/' name = [name] := by
    simp [Text.split, Text.splitChars_of_not_mem h.2.2.2]
  have last : [name].filterMap componentOf = [.normal name] := by
    simp [componentOf_of_isName h]
  by_cases nonempty : p.text = ""
  · obtain ⟨text⟩ := p
    obtain rfl : text = "" := nonempty
    have alone : (⟨""⟩ : Path).child name = ⟨name⟩ := by simp [child_of_isName _ h, lead]
    have nothing : (⟨""⟩ : Path).components = [] := by decide
    rw [alone, nothing]
    simp [components, h.not_isAbsolute, pieces, last, h.2.1]
  · rw [child, components_join nonempty h.not_isAbsolute, pieces, last]

private theorem ofNames_append (names : List String) (name : String) :
    ofNames (names ++ [name]) = (ofNames names).child name := by
  simp [ofNames, ofComponents, List.foldl_append, Component.text]

private theorem isAbsolute_ofNames {names : List String} (h : ∀ name ∈ names, IsName name) :
    (ofNames names).isAbsolute := by
  induction names using List.reverseRecOn with
  | nil => decide
  | append_singleton names name ih =>
    rw [ofNames_append]
    exact isAbsolute_child (ih fun other member => h other (List.mem_append_left _ member))
      (h name (List.mem_append_right _ List.mem_cons_self))

theorem components_ofNames {names : List String} (h : ∀ name ∈ names, IsName name) :
    (ofNames names).components = .root :: names.map .normal := by
  induction names using List.reverseRecOn with
  | nil => decide
  | append_singleton names name ih =>
    have before : ∀ other ∈ names, IsName other :=
      fun other member => h other (List.mem_append_left _ member)
    rw [ofNames_append, components_child _
      (h name (List.mem_append_right _ List.mem_cons_self)), ih before]
    simp

theorem IsNormal.child {p : Path} (normal : IsNormal p) {name : String} (h : IsName name) :
    IsNormal (p.child name) := by
  obtain ⟨names, clean, rfl⟩ := normal
  refine ⟨names ++ [name], ?_, (ofNames_append names name).symm⟩
  intro other member
  rcases List.mem_append.mp member with member | member
  · exact clean other member
  · obtain rfl := List.mem_singleton.mp member
    exact h

theorem IsNormal.isAbsolute {p : Path} (normal : IsNormal p) : p.isAbsolute := by
  obtain ⟨names, clean, rfl⟩ := normal
  exact isAbsolute_ofNames clean

theorem same_self (p : Path) : p.same p = true := by
  simp [same]

theorem IsNormal.eq_of_same {p q : Path} (hp : IsNormal p) (hq : IsNormal q) (h : p.same q) :
    p = q := by
  obtain ⟨names, clean, rfl⟩ := hp
  obtain ⟨others, clean', rfl⟩ := hq
  have equal : Component.root :: names.map .normal = .root :: others.map .normal := by
    rw [← components_ofNames clean, ← components_ofNames clean']
    exact eq_of_beq h
  have injective : Function.Injective Component.normal := fun _ _ h => Component.normal.inj h
  rw [List.map_injective_iff.mpr injective (List.cons.inj equal).2]

/-- Whether a component leads on from a place: it is not the root, and a name is a possible one. -/
def IsStep : Component → Prop
  | .root => False
  | .current => True
  | .parent => True
  | .normal name => IsName name

private theorem isStep_of_mem_pieces {text : String} {c : Component}
    (h : c ∈ (Text.split '/' text).filterMap componentOf) : IsStep c := by
  obtain ⟨piece, member, found⟩ := List.mem_filterMap.mp h
  obtain ⟨chars, inside, rfl⟩ := List.mem_map.mp member
  have slash : '/' ∉ chars := Text.not_mem_of_mem_splitChars inside
  unfold componentOf at found
  split at found
  · exact absurd found (by simp)
  · rename_i named
    split at found
    · obtain rfl := Option.some.inj found
      trivial
    · rename_i parent
      obtain rfl := Option.some.inj found
      simp only [Bool.or_eq_true, decide_eq_true_eq, not_or] at named
      exact ⟨named.1, named.2, parent, by simpa using slash⟩

theorem components_of_absolute {p : Path} (absolute : p.isAbsolute) :
    ∃ steps, p.components = .root :: steps ∧ ∀ c ∈ steps, IsStep c :=
  ⟨_, components_of_isAbsolute absolute, fun _ member => isStep_of_mem_pieces member⟩

theorem isStep_of_mem_components {p : Path} (relative : p.isAbsolute = false) {c : Component}
    (h : c ∈ p.components) : IsStep c := by
  simp only [components, relative, Bool.false_eq_true, if_false] at h
  split at h
  · rcases List.mem_cons.mp h with rfl | member
    · trivial
    · exact isStep_of_mem_pieces member
  · exact isStep_of_mem_pieces h

theorem isName_of_mem_components {p : Path} {name : String} (h : .normal name ∈ p.components) :
    IsName name := by
  cases absolute : p.isAbsolute with
  | false => exact isStep_of_mem_components absolute h
  | true =>
    obtain ⟨steps, parts, clean⟩ := components_of_absolute absolute
    rw [parts] at h
    rcases List.mem_cons.mp h with equal | member
    · exact absurd equal (by simp)
    · exact clean _ member

theorem resolveDots_root {steps : List Component} (h : ∀ c ∈ steps, IsStep c) :
    ∃ names : List String, (∀ name ∈ names, IsName name) ∧
      resolveDots (.root :: steps) = .root :: names.map .normal := by
  induction steps using List.reverseRecOn with
  | nil => exact ⟨[], by simp, rfl⟩
  | append_singleton steps c ih =>
    obtain ⟨names, clean, resolved⟩ :=
      ih fun other member => h other (List.mem_append_left _ member)
    have last : IsStep c := h c (List.mem_append_right _ List.mem_cons_self)
    rw [← List.cons_append]
    simp only [resolveDots, List.foldl_append, List.foldl_cons, List.foldl_nil] at resolved ⊢
    rw [List.reverse_eq_iff] at resolved
    rw [resolved]
    cases c with
    | root => exact last.elim
    | current => exact ⟨names, clean, List.reverse_reverse _⟩
    | parent =>
      rcases List.eq_nil_or_concat names with rfl | ⟨before, name, rfl⟩
      · exact ⟨[], by simp, rfl⟩
      · refine ⟨before, fun other member => clean other (by simp [List.concat_eq_append, member]), ?_⟩
        simp [List.concat_eq_append]
    | normal name =>
      refine ⟨names ++ [name], ?_, by simp⟩
      intro other member
      rcases List.mem_append.mp member with member | member
      · exact clean other member
      · obtain rfl := List.mem_singleton.mp member
        exact last

theorem resolveDots_names (names : List String) :
    resolveDots (.root :: names.map .normal) = .root :: names.map .normal := by
  induction names using List.reverseRecOn with
  | nil => rfl
  | append_singleton names name ih =>
    rw [List.map_append, ← List.cons_append]
    simp only [resolveDots, List.foldl_append, List.map_cons, List.map_nil, List.foldl_cons,
      List.foldl_nil] at ih ⊢
    rw [List.reverse_eq_iff] at ih
    rw [ih]
    simp

theorem isNormal_normalize {cwd p : Path} (home : cwd.isAbsolute) (nonempty : p.text ≠ "") :
    IsNormal (normalize cwd p) := by
  unfold normalize
  split
  · rename_i absolute
    obtain ⟨steps, parts, clean⟩ := components_of_absolute absolute
    obtain ⟨names, names_clean, resolved⟩ := resolveDots_root clean
    exact ⟨names, names_clean, by rw [parts, resolved]; rfl⟩
  · rename_i relative
    obtain ⟨steps, parts, clean⟩ := components_of_absolute home
    have all : ∀ c ∈ steps ++ p.components, IsStep c := by
      intro c member
      rcases List.mem_append.mp member with member | member
      · exact clean c member
      · exact isStep_of_mem_components (Bool.eq_false_iff.mpr relative) member
    obtain ⟨names, names_clean, resolved⟩ := resolveDots_root all
    exact ⟨names, names_clean, by rw [parts, List.cons_append, resolved]; rfl⟩

theorem IsNormal.normalize_eq {p : Path} (normal : IsNormal p) (cwd : Path) :
    normalize cwd p = p := by
  have absolute := normal.isAbsolute
  obtain ⟨names, clean, rfl⟩ := normal
  rw [normalize, if_pos absolute, components_ofNames clean, resolveDots_names]
  rfl

theorem normalize_of_empty (cwd : Path) {p : Path} (empty : p.text = "") : normalize cwd p = p := by
  obtain ⟨text⟩ := p
  obtain rfl : text = "" := empty
  rfl

theorem normalize_normalize {cwd : Path} (home : cwd.isAbsolute) (p : Path) :
    normalize cwd (normalize cwd p) = normalize cwd p := by
  by_cases empty : p.text = ""
  · rw [normalize_of_empty cwd empty, normalize_of_empty cwd empty]
  · exact (isNormal_normalize home empty).normalize_eq cwd

end Path

end ImportAtlas
