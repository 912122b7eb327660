import ImportAtlas.Proofs.Candidates
import ImportAtlas.Proofs.Fallback
import ImportAtlas.Proofs.RelativeImports
import Mathlib.Data.Set.List

/-!
The normal form of a path. Every spelling of a path has the same one, it can be taken before or after
a step down, and whatever the index does with a path depends on it alone.
-/

set_option autoImplicit false

namespace ImportAtlas

namespace Path

/-- Whether each step of the path leads to a place below the one before. -/
def IsDotless (p : Path) : Prop :=
  .current ∉ p.components ∧ .parent ∉ p.components

instance (p : Path) : Decidable p.IsDotless :=
  inferInstanceAs (Decidable (_ ∧ _))

private theorem IsNormal.isDotless {p : Path} (normal : p.IsNormal) : p.IsDotless := by
  obtain ⟨names, clean, rfl⟩ := normal
  simp [IsDotless, components_ofNames clean]

private theorem isDotless_normalize {cwd : Path} (home : cwd.isAbsolute) (p : Path) :
    (normalize cwd p).IsDotless := by
  by_cases empty : p.text = ""
  · obtain ⟨text⟩ := p
    obtain rfl : text = "" := empty
    rw [normalize_of_empty cwd rfl]
    decide
  · exact (isNormal_normalize home empty).isDotless

private theorem isAbsolute_normalize_iff {cwd : Path} (home : cwd.isAbsolute) (p : Path) :
    (normalize cwd p).isAbsolute ↔ p.text ≠ "" := by
  constructor
  · rintro absolute empty
    rw [normalize_of_empty cwd empty, isAbsolute, empty] at absolute
    exact absurd absolute (by decide)
  · exact fun nonempty => (isNormal_normalize home nonempty).isAbsolute

private theorem same_normalize_of_isDotless (cwd : Path) {p : Path} (absolute : p.isAbsolute)
    (dotless : p.IsDotless) : (normalize cwd p).same p := by
  obtain ⟨steps, parts, clean⟩ := components_of_absolute absolute
  obtain ⟨no_current, no_parent⟩ := dotless
  have named : ∀ c ∈ steps, ∃ name, Component.normal name = c := by
    intro c member
    have inside : c ∈ p.components := parts ▸ List.mem_cons_of_mem _ member
    cases c with
    | root => exact (clean _ member).elim
    | current => exact absurd inside no_current
    | parent => exact absurd inside no_parent
    | normal name => exact ⟨name, rfl⟩
  obtain ⟨names, rfl⟩ : ∃ names : List String, names.map .normal = steps := by
    have range := Set.range_list_map Component.normal
    exact (Set.ext_iff.mp range steps).mpr named
  exact beq_iff_eq.mpr (components_normalize_of_names cwd names parts)

private theorem resolveDots_append {start : List Component} {names : List String}
    (resolved : resolveDots start = .root :: names.map .normal) (steps : List Component) :
    resolveDots (resolveDots start ++ steps) = resolveDots (start ++ steps) := by
  have again : resolveDots (resolveDots start) = resolveDots start := by
    rw [resolved, resolveDots_names]
  -- What is left without the dots is the stack itself, upside down.
  simp only [resolveDots, List.foldl_append] at again ⊢
  rw [List.reverse_injective again]

/-- Going down from a path is going down from its normal form. -/
theorem normalize_join {cwd : Path} (home : cwd.isAbsolute) (a b : Path) :
    normalize cwd (a.join b) = normalize cwd ((normalize cwd a).join b) := by
  by_cases empty : a.text = ""
  · rw [normalize_of_empty cwd empty]
  cases absolute : b.isAbsolute with
  | true => simp only [join, absolute, if_true]
  | false =>
    have normal := isNormal_normalize home empty
    have filled : (normalize cwd a).text ≠ "" :=
      (isAbsolute_normalize_iff home (normalize cwd a)).mp
        (by rw [normalize_normalize home]; exact normal.isAbsolute)
    have filled_join : ∀ p : Path, p.text ≠ "" → (p.join b).text ≠ "" := by
      intro p nonempty
      rw [join_of_relative p absolute, lead]
      split <;> simp [nonempty]
    refine (isNormal_normalize home (filled_join a empty)).eq_of_same
      (isNormal_normalize home (filled_join _ filled)) (beq_iff_eq.mpr ?_)
    obtain ⟨names, clean, spelled⟩ := normal
    have resolved : resolveDots ((if a.isAbsolute then [] else cwd.components) ++ a.components) =
        .root :: names.map .normal := by
      rw [← components_normalize home empty, spelled, components_ofNames clean]
    rw [components_normalize home (filled_join a empty),
      components_normalize home (filled_join _ filled), isAbsolute_join _ absolute,
      isAbsolute_join _ absolute, components_join empty absolute, components_join filled absolute,
      components_normalize home empty, (isNormal_normalize home empty).isAbsolute, if_pos rfl,
      List.nil_append, resolveDots_append resolved, List.append_assoc]

theorem normalize_eq_of_same_normalize {cwd p q : Path} (home : cwd.isAbsolute)
    (same : (normalize cwd p).same (normalize cwd q)) : normalize cwd p = normalize cwd q := by
  by_cases empty : q.text = ""
  · by_cases empty' : p.text = ""
    · obtain ⟨text⟩ := p
      obtain ⟨text'⟩ := q
      obtain rfl : text = text' := empty'.trans empty.symm
      rfl
    · have mirrored : (normalize cwd q).same (normalize cwd p) := by
        rw [Path.same] at same ⊢
        exact BEq.symm same
      exact (normalize_eq_of_same home (isNormal_normalize home empty') mirrored).symm
  · exact normalize_eq_of_same home (isNormal_normalize home empty) same

end Path

namespace SearchPath

private theorem pairwise_roots_parse {cwd : Path} (home : cwd.isAbsolute) (text : String) :
    (parse cwd text).roots.Pairwise fun root other => ¬ root.same other := by
  have normal := (isNormal_parse home text).roots
  refine (nodup_roots_ofRoots cwd _).imp_of_mem ?_
  intro root other listed listed' different same
  exact different ((normal root listed).eq_of_same (normal other listed') same)

end SearchPath

namespace Path

/-- The normal form of a path is a canonical one: it is free of dots, absolute and its own normal
form, and it has the components of the path if that is absolute and free of dots itself; a step down
leads to the same place from a path and from its normal form; names and the index do not tell two
spellings of one place apart; and the roots of a search path are different normal forms. Only the
empty path has none that is absolute. -/
theorem normalize_is_canonical {cwd : Path} (home : cwd.isAbsolute) :
    (∀ a, normalize cwd (normalize cwd a) = normalize cwd a ∧ (normalize cwd a).IsDotless ∧
      ((normalize cwd a).isAbsolute ↔ a.text ≠ "") ∧
      (a.isAbsolute → a.IsDotless → (normalize cwd a).same a)) ∧
    (∀ a b, normalize cwd (a.join b) = normalize cwd ((normalize cwd a).join b)) ∧
    (∀ p q, (normalize cwd p).same (normalize cwd q) →
      (∀ s : SearchPath, s.cwd = cwd →
        s.moduleName p = s.moduleName q ∧ s.rootIndex p = s.rootIndex q) ∧
      ∀ i : Index, i.searchPath.cwd = cwd → ∀ exists? : Path → Bool,
        (∀ name tree, i.upsert exists? name (some p) tree = i.upsert exists? name (some q) tree) ∧
        i.remove exists? p = i.remove exists? q ∧ i.removeTree p = i.removeTree q) ∧
    ∀ text, let roots := (SearchPath.parse cwd text).roots
      (∀ root ∈ roots, normalize cwd root = root ∧ root.IsDotless ∧ root.isAbsolute) ∧
      roots.Pairwise fun root other => ¬ root.same other := by
  refine ⟨?_, normalize_join home, ?_, ?_⟩
  · exact fun a => ⟨normalize_normalize home a, isDotless_normalize home a,
      isAbsolute_normalize_iff home a, same_normalize_of_isDotless cwd⟩
  · intro p q same
    have equal := normalize_eq_of_same_normalize home same
    constructor
    · rintro s rfl
      simp only [SearchPath.moduleName, SearchPath.rootIndex, equal, true_and]
    · rintro i rfl exists?
      refine ⟨fun name tree => ?_, ?_, ?_⟩
      · simp only [Index.upsert, Option.map_some, equal]
      · simp only [Index.remove, equal]
      · simp only [Index.removeTree, equal]
  · intro text roots
    refine ⟨?_, SearchPath.pairwise_roots_parse home text⟩
    intro root listed
    have normal := (SearchPath.isNormal_parse home text).roots root listed
    exact ⟨normal.normalize_eq cwd, normal.isDotless, normal.isAbsolute⟩

theorem normalize_is_canonical_of_detours :
    let cwd : Path := ⟨"/w"⟩
    let s := SearchPath.parse cwd "lib:./lib/.:/w/src/../lib/:src"
    cwd.isAbsolute ∧
    normalize cwd (Path.join ⟨"lib//x/.."⟩ ⟨"../../../a.py"⟩) =
      normalize cwd (Path.join ⟨"/w/lib"⟩ ⟨"../../../a.py"⟩) ∧
    s.moduleName ⟨"lib/x/../a.py"⟩ = some "a" ∧
    s.moduleName ⟨"/w/./lib//a.py"⟩ = s.moduleName ⟨"lib/x/../a.py"⟩ ∧
    s.roots = [⟨"/w/lib"⟩, ⟨"/w/src"⟩] := by
  intro cwd s
  have home : cwd.isAbsolute := by decide
  obtain ⟨-, join, same, -⟩ := normalize_is_canonical home
  have spelled : normalize cwd ⟨"lib//x/.."⟩ = ⟨"/w/lib"⟩ := by decide +kernel
  have alike : (normalize cwd ⟨"/w/./lib//a.py"⟩).same (normalize cwd ⟨"lib/x/../a.py"⟩) := by
    decide +kernel
  refine ⟨home, ?_, by decide +kernel, ((same _ _ alike).1 s rfl).1, by decide +kernel⟩
  rw [join, spelled]

end Path

end ImportAtlas
