import ImportAtlas.Proofs.Collected
import ImportAtlas.Proofs.ImportSpelling
import Mathlib.Algebra.GroupWithZero.Nat

/-!
What imports lead to, whatever their layout. The identifiers, dots and local names that an import
says determine the symbols it should bind. It binds exactly those if its names are spelled without
layout and the layout of its source is white space: a name that is imported is taken as it is
spelled, and of the layout of a source only white space is left out.
-/

set_option autoImplicit false

namespace ImportAtlas

open Python
open SearchPath (joinDots joinDots_append joinDots_singleton)

namespace Python

def SpelledName.isTight (n : SpelledName) : Bool :=
  n.all fun p => !p.isGap

def NamePart.isSpaced : NamePart → Bool
  | .gap text => text.toList.all Text.isBlank
  | _ => true

def SpelledName.isSpaced (n : SpelledName) : Bool :=
  n.all NamePart.isSpaced

def ImportItem.isTight : ImportItem → Bool
  | .name path => path.isTight
  | .aliased path _ => path.isTight
  | .comment _ => true

/-- Whether an import has layout only where it does not count. -/
def Statement.isPlain : Statement → Bool
  | .importNames items => items.all ImportItem.isTight
  | .importFrom source items => source.isSpaced && items.all ImportItem.isTight
  | .importAll source => source.isSpaced
  | _ => true

end Python

namespace Home

/-- The segments of the package that relative imports start from. -/
def packageSegments (home : Home) : List String :=
  (Text.split '.' (home.package.getD "")).filter (· ≠ "")

def resolved (home : Home) (dots : Nat) (words : List String) : List String :=
  if dots = 0 then words
  else home.packageSegments.take (home.packageSegments.length - (dots - 1)) ++ words

/-- The symbol that an entry of an import from the module with some segments should bind. -/
def entrySymbol (home : Home) (base : List String) (e : Entry) : Symbol :=
  home.importSymbol (e.localName.getD (joinDots e.words)) (joinDots (base ++ e.words))

def bound (home : Home) : Import → List Symbol
  | .modules entries => entries.map (home.entrySymbol [])
  | .members dots words entries => entries.map (home.entrySymbol (home.resolved dots words))
  | .everything .. => []

def spread (home : Home) : Import → List Symbol
  | .everything dots words =>
    let base := home.resolved dots words
    if base = [] then [] else [home.importSymbol (joinDots base) (joinDots base)]
  | _ => []

end Home

/-! ### Texts of names -/

namespace Python

namespace SpelledName

private theorem text_nil : text [] = "" :=
  rfl

private theorem text_cons (p : NamePart) (n : SpelledName) : text (p :: n) = p.text ++ text n := by
  simp [text, String.join_cons]

private theorem text_append (a b : SpelledName) : text (a ++ b) = text a ++ text b := by
  induction a with
  | nil => simp [text_nil]
  | cons p a ih => rw [List.cons_append, text_cons, ih, text_cons, String.append_assoc]

private theorem path_append (a b : SpelledName) : path (a ++ b) = path a ++ path b := by
  rw [path, List.filter_append, text_append, path, path]

private theorem path_of_isTight {n : SpelledName} (h : n.isTight) : n.path = n.text := by
  rw [path, List.filter_eq_self.mpr (List.all_eq_true.mp h)]

private theorem path_word (w : String) : path [.word w] = w := by
  rw [path_of_isTight rfl, text_cons, text_nil, String.append_empty, NamePart.text]

private theorem path_sublist (n : SpelledName) : n.path.toList.Sublist n.text.toList := by
  induction n with
  | nil => exact List.Sublist.refl _
  | cons p n ih =>
    rw [← List.singleton_append, path_append, text_append, String.toList_append,
      String.toList_append]
    refine List.Sublist.append ?_ ih
    cases p with
    | gap text => exact List.nil_sublist _
    | word text => exact List.Sublist.refl _
    | dot => exact List.Sublist.refl _

private theorem length_path_le (n : SpelledName) : n.path.length ≤ n.text.length := by
  rw [← String.length_toList, ← String.length_toList]
  exact n.path_sublist.length_le

private theorem isTight_of_length_le {n : SpelledName} (gaps : ∀ text, .gap text ∈ n → text ≠ "")
    (h : n.text.length ≤ n.path.length) : n.isTight := by
  induction n with
  | nil => rfl
  | cons p n ih =>
    have rest := fun text member => gaps text (List.mem_cons_of_mem _ member)
    rw [← List.singleton_append, path_append, text_append, String.length_append,
      String.length_append] at h
    have shorter := length_path_le n
    cases p with
    | gap text =>
      have empty : path [.gap text] = "" := rfl
      have filled : 0 < text.length := by
        rw [Nat.pos_iff_ne_zero, ne_eq, String.length_eq_zero_iff]
        exact gaps text List.mem_cons_self
      rw [empty, text_cons, NamePart.text, text_nil, String.append_empty] at h
      simp only [String.length_empty] at h
      omega
    | word text =>
      have same : path [.word text] = SpelledName.text [.word text] := rfl
      exact ih rest (by rw [same] at h; omega)
    | dot =>
      have same : path [.dot] = SpelledName.text [.dot] := rfl
      exact ih rest (by rw [same] at h; omega)

end SpelledName

/-! ### What names spell -/

def NamePart.IsRead : NamePart → Prop
  | .word w => isIdentifier w
  | .dot => True
  | .gap text => text ≠ "" ∧ IsLayout text.toList

section

variable {k : Nat} {words : List String} {n : SpelledName}

private theorem Gap.isRead (h : Gap n) : ∀ p ∈ n, p.IsRead := by
  cases h with
  | none => exact List.forall_mem_nil _
  | layout filled layout => exact List.forall_mem_singleton.mpr ⟨filled, layout⟩

private theorem Gap.path_eq (h : Gap n) : n.path = "" := by
  cases h <;> rfl

private theorem Dotted.isRead (h : Dotted words n) : ∀ p ∈ n, p.IsRead := by
  induction h with
  | word identifier => exact List.forall_mem_singleton.mpr identifier
  | more _ before behind identifier ih =>
    simp only [List.forall_mem_append, List.forall_mem_singleton]
    exact ⟨ih, ⟨⟨before.isRead, trivial⟩, behind.isRead⟩, identifier⟩

private theorem Dotted.identifiers (h : Dotted words n) : ∀ w ∈ words, isIdentifier w := by
  induction h with
  | word identifier => exact List.forall_mem_singleton.mpr identifier
  | more _ _ _ identifier ih =>
    exact List.forall_mem_append.mpr ⟨ih, List.forall_mem_singleton.mpr identifier⟩

private theorem Dotted.words_ne_nil (h : Dotted words n) : words ≠ [] := by
  cases h <;> simp

private theorem Dotted.path_eq (h : Dotted words n) : n.path = joinDots words := by
  induction h with
  | word _ => rw [joinDots_singleton, SpelledName.path_word]
  | @more words n before behind w dotted first second identifier ih =>
    have dot : SpelledName.path [.dot] = "." := rfl
    rw [joinDots_append dotted.words_ne_nil (by simp), joinDots_singleton]
    simp only [SpelledName.path_append, ih, first.path_eq, second.path_eq, dot,
      SpelledName.path_word, String.empty_append, String.append_empty, String.append_assoc]

private theorem Dots.isRead (h : Dots k n) : ∀ p ∈ n, p.IsRead := by
  induction h with
  | nil => exact List.forall_mem_nil _
  | more _ gap _ ih =>
    simp only [List.forall_mem_append, List.forall_mem_singleton]
    exact ⟨⟨ih, gap.isRead⟩, trivial⟩

private theorem Dots.path_eq (h : Dots k n) : n.path = String.ofList (List.replicate k '.') := by
  induction h with
  | nil => rfl
  | more _ gap _ ih =>
    have dot : SpelledName.path [.dot] = String.ofList ['.'] := rfl
    rw [SpelledName.path_append, SpelledName.path_append, ih, gap.path_eq, dot, String.append_empty,
      ← String.ofList_append, List.replicate_succ']

private theorem Source.isRead (h : Source k words n) : ∀ p ∈ n, p.IsRead := by
  cases h with
  | dots dots => exact dots.isRead
  | names dots gap _ dotted =>
    simp only [List.forall_mem_append]
    exact ⟨⟨dots.isRead, gap.isRead⟩, dotted.isRead⟩

private theorem Source.identifiers (h : Source k words n) : ∀ w ∈ words, isIdentifier w := by
  cases h with
  | dots _ => exact List.forall_mem_nil _
  | names _ _ _ dotted => exact dotted.identifiers

private theorem Source.path_eq (h : Source k words n) : n.path = relativeReference k words := by
  cases h with
  | dots dots =>
    rw [dots.path_eq, relativeReference]
    exact String.append_empty.symm
  | names dots gap _ dotted =>
    rw [SpelledName.path_append, SpelledName.path_append, dots.path_eq, gap.path_eq,
      dotted.path_eq, String.append_empty, relativeReference]

def SpelledName.BeginsWithCode (n : SpelledName) : Prop :=
  ∀ p ∈ n.head?, p.isGap = false

private theorem Dotted.beginsWithCode (h : Dotted words n) (rest : SpelledName) :
    SpelledName.BeginsWithCode (n ++ rest) := by
  induction h generalizing rest with
  | word _ => exact fun p first => Option.some.inj first ▸ rfl
  | more _ _ _ _ ih =>
    rw [List.append_assoc]
    exact ih _

private theorem Dots.beginsWithCode (h : Dots k n) {rest : SpelledName}
    (alone : n = [] → rest.BeginsWithCode) : SpelledName.BeginsWithCode (n ++ rest) := by
  induction h generalizing rest with
  | nil => exact alone rfl
  | more dots gap first ih =>
    rw [List.append_assoc, List.append_assoc]
    refine ih fun empty => ?_
    rw [first empty]
    exact fun p head => Option.some.inj head ▸ rfl

private theorem Source.beginsWithCode (h : Source k words n) : n.BeginsWithCode := by
  cases h with
  | dots dots =>
    have whole : SpelledName.BeginsWithCode (n ++ []) := dots.beginsWithCode fun _ => nofun
    rwa [List.append_nil] at whole
  | names dots gap first dotted =>
    rw [List.append_assoc]
    refine dots.beginsWithCode fun empty => ?_
    rw [first empty]
    simpa using dotted.beginsWithCode []

/-! ### White space in a source -/

end

def solid (s : String) : List Char :=
  s.toList.filter fun c => !Text.isBlank c

private theorem solid_append (s s' : String) : solid (s ++ s') = solid s ++ solid s' := by
  rw [solid, String.toList_append, List.filter_append, solid, solid]

private theorem solid_eq_nil {s : String} (h : s.toList.all Text.isBlank) : solid s = [] := by
  refine List.filter_eq_nil_iff.mpr fun c member => ?_
  simp [List.all_eq_true.mp h c member]

private theorem IsLayout.head_ne_dot {cs r : List Char} {x : Char} (h : IsLayout cs)
    (shape : cs.filter (fun c => !Text.isBlank c) = x :: r) : x ≠ '.' := by
  induction h with
  | nil => exact absurd shape (by simp)
  | @filler c _ filler _ ih =>
    cases blank : Text.isBlank c with
    | true => exact ih (by simpa [blank] using shape)
    | false =>
      obtain ⟨rfl, -⟩ : c = x ∧ _ := by simpa [blank] using shape
      rintro rfl
      exact absurd filler (by decide)
  | comment _ _ _ =>
    obtain ⟨rfl, -⟩ := List.cons.inj shape
    decide
  | joined _ _ =>
    obtain ⟨rfl, -⟩ := List.cons.inj shape
    decide
  | joinedReturn _ _ =>
    obtain ⟨rfl, -⟩ := List.cons.inj shape
    decide

namespace SpelledName

private theorem solid_text_of_isSpaced {n : SpelledName} (h : n.isSpaced) :
    solid n.text = solid n.path := by
  induction n with
  | nil => rfl
  | cons p n ih =>
    obtain ⟨own, rest⟩ := Bool.and_eq_true_iff.mp h
    rw [text_cons, ← List.singleton_append, path_append, solid_append, solid_append, ih rest]
    cases p with
    | gap text => rw [NamePart.text, solid_eq_nil own]; rfl
    | word text => rw [path_word, NamePart.text]
    | dot => rfl

private theorem length_solid_path_le (n : SpelledName) :
    (solid n.path).length ≤ (solid n.text).length :=
  (n.path_sublist.filter _).length_le

private theorem exists_gap_of_not_isSpaced {n : SpelledName} (h : n.isSpaced = false) :
    ∃ (front : SpelledName) (text : String) (back : SpelledName),
      n = front ++ .gap text :: back ∧ front.isSpaced ∧ solid text ≠ [] := by
  induction n with
  | nil => exact Bool.noConfusion h
  | cons p n ih =>
    cases own : p.isSpaced with
    | true =>
      have later : isSpaced n = false := by
        simpa [isSpaced, own] using h
      obtain ⟨front, text, back, rfl, spaced, counts⟩ := ih later
      refine ⟨p :: front, text, back, rfl, ?_, counts⟩
      rw [isSpaced, List.all_cons, own, Bool.true_and]
      exact spaced
    | false =>
      cases p with
      | gap text =>
        refine ⟨[], text, n, rfl, rfl, fun empty => ?_⟩
        have blank : text.toList.all Text.isBlank := List.all_eq_true.mpr fun c member => by
          simpa using List.filter_eq_nil_iff.mp empty c member
        exact Bool.noConfusion (own.symm.trans blank)
      | word text => exact Bool.noConfusion own
      | dot => exact Bool.noConfusion own

private theorem solid_text_ne_nil {n : SpelledName} (read : ∀ p ∈ n, p.IsRead)
    (begins : n.BeginsWithCode) (filled : n ≠ []) : solid n.text ≠ [] := by
  obtain ⟨p, rest, rfl⟩ := List.exists_cons_of_ne_nil filled
  have first : solid p.text ≠ [] := by
    cases p with
    | gap text => exact Bool.noConfusion (begins _ rfl)
    | dot => decide
    | word w =>
      have identifier : isIdentifier w := read _ List.mem_cons_self
      intro empty
      have letters : w.toList ≠ [] := fun none =>
        ne_empty_of_isIdentifier identifier (String.toList_inj.mp none)
      obtain ⟨c, r, chars⟩ := List.exists_cons_of_ne_nil letters
      have member : c ∈ w.toList := chars ▸ List.mem_cons_self
      have blank : Text.isBlank c := by
        simpa using List.filter_eq_nil_iff.mp empty c member
      exact absurd (isNameChar_of_isIdentifier identifier c member)
        (by rw [Text.not_isNameChar_of_isBlank blank]; decide)
  rw [text_cons, solid_append]
  exact fun none => first (List.append_eq_nil_iff.mp none).1

end SpelledName

end Python

/-! ### Where sources lead -/

private theorem length_joinDots_concat (names : List String) (last : String) :
    (joinDots (names ++ [last])).length =
      (names.map String.length).sum + names.length + last.length := by
  induction names with
  | nil => simp
  | cons name names ih =>
    rw [List.cons_append, ← List.singleton_append, joinDots_append (by simp) (by simp),
      joinDots_singleton, String.length_append, String.length_append, ih]
    have dot : ".".length = 1 := rfl
    simp only [List.map_cons, List.sum_cons, List.length_cons, dot]
    omega

private theorem length_joinDots_le (names : List String) :
    (joinDots names).length ≤ (names.map String.length).sum + names.length := by
  rcases List.eq_nil_or_concat names with rfl | ⟨before, last, rfl⟩
  · simp [joinDots]
  · rw [List.concat_eq_append, length_joinDots_concat]
    simp
    omega

namespace Home

private theorem absolute_eq (home : Home) (s : String) : home.absolute s =
    let dots := ((solid s).takeWhile (· == '.')).length
    let rest := String.ofList ((solid s).drop dots)
    if dots = 0 then rest
    else joinDots (home.packageSegments.take (home.packageSegments.length - (dots - 1)) ++
      if rest = "" then [] else [rest]) :=
  rfl

private theorem absolute_congr (home : Home) {s s' : String} (h : solid s = solid s') :
    home.absolute s = home.absolute s' := by
  rw [absolute_eq, absolute_eq, h]

section

variable {front back rest : List Char} {x : Char}

private theorem dots_le (different : x ≠ '.') :
    ((front ++ x :: rest).takeWhile (· == '.')).length ≤
      ((front ++ back).takeWhile (· == '.')).length := by
  induction front with
  | nil => simp [different]
  | cons c front ih =>
    by_cases dot : c = '.'
    · simpa [dot] using ih
    · simp [dot]

private theorem dots_eq_zero (filled : front ≠ [])
    (none : ((front ++ x :: rest).takeWhile (· == '.')).length = 0) :
    ((front ++ back).takeWhile (· == '.')).length = 0 := by
  obtain ⟨c, front, rfl⟩ := List.exists_cons_of_ne_nil filled
  by_cases dot : c = '.'
  · simp [dot] at none
  · simp [dot]

/-- What stands in a source and is neither white space nor a dot makes what it leads to longer:
fewer dots are counted, and more is left behind them. -/
theorem length_absolute_lt (home : Home) {s s' : String} (whole : solid s = front ++ x :: rest)
    (less : solid s' = front ++ back) (filled : front ≠ []) (different : x ≠ '.')
    (shorter : back.length ≤ rest.length) :
    (home.absolute s').length < (home.absolute s).length := by
  have fewer : ((solid s).takeWhile (· == '.')).length ≤
      ((solid s').takeWhile (· == '.')).length := by
    rw [whole, less]
    exact dots_le different
  have none : ((solid s).takeWhile (· == '.')).length = 0 →
      ((solid s').takeWhile (· == '.')).length = 0 := by
    rw [whole, less]
    exact dots_eq_zero filled
  have within : ((solid s').takeWhile (· == '.')).length ≤ (solid s').length :=
    (List.takeWhile_sublist _).length_le
  have lengths : (solid s').length < (solid s).length := by
    rw [whole, less, List.length_append, List.length_append, List.length_cons]
    omega
  rw [absolute_eq, absolute_eq]
  generalize ((solid s).takeWhile (· == '.')).length = e at fewer none
  generalize ((solid s').takeWhile (· == '.')).length = d at fewer none within
  dsimp only
  have rests : (String.ofList ((solid s').drop d)).length <
      (String.ofList ((solid s).drop e)).length := by
    rw [String.length_ofList, String.length_ofList, List.length_drop, List.length_drop]
    omega
  generalize String.ofList ((solid s').drop d) = r' at rests
  generalize String.ofList ((solid s).drop e) = r at rests
  by_cases top : e = 0
  · rw [if_pos (none top), if_pos top]
    exact rests
  · have nonempty : r ≠ "" := by
      rintro rfl
      exact absurd rests (by simp)
    obtain ⟨more, kept⟩ : home.packageSegments.take (home.packageSegments.length - (d - 1)) <+:
        home.packageSegments.take (home.packageSegments.length - (e - 1)) :=
      List.take_prefix_take_left (by omega)
    rw [if_neg (by omega), if_neg top, if_neg nonempty, ← kept, length_joinDots_concat]
    simp only [List.map_append, List.sum_append, List.length_append]
    split
    · have bound := length_joinDots_le
        (home.packageSegments.take (home.packageSegments.length - (d - 1)))
      rw [List.append_nil]
      omega
    · rw [length_joinDots_concat]
      omega

end

private theorem joinDots_eq_empty {names : List String} (segments : ∀ name ∈ names, name ≠ "") :
    joinDots names = "" ↔ names = [] := by
  constructor
  · intro empty
    rcases List.eq_nil_or_concat names with rfl | ⟨before, last, rfl⟩
    · rfl
    · rw [List.concat_eq_append] at empty segments
      exact absurd empty (SearchPath.joinDots_concat_ne_empty before (segments last (by simp)))
  · rintro rfl
    rfl

private theorem ne_empty_of_mem_resolved (home : Home) (dots : Nat) {words : List String}
    (identifiers : ∀ w ∈ words, isIdentifier w) :
    ∀ name ∈ home.resolved dots words, name ≠ "" := by
  have word : ∀ w ∈ words, w ≠ "" := fun w member => ne_empty_of_isIdentifier (identifiers w member)
  unfold resolved
  split
  · exact word
  · refine List.forall_mem_append.mpr ⟨fun name member => ?_, word⟩
    have segment : name ∈ home.packageSegments := List.mem_of_mem_take member
    simpa using (List.mem_filter.mp segment).2

private theorem absolute_reference (home : Home) (dots : Nat) {words : List String}
    (identifiers : ∀ w ∈ words, isIdentifier w) :
    home.absolute (relativeReference dots words) = joinDots (home.resolved dots words) := by
  have chars : solid (relativeReference dots words) =
      List.replicate dots '.' ++ (joinDots words).toList :=
    SearchPath.filter_relativeReference dots identifiers
  have word : ∀ w ∈ words, w ≠ "" := fun w member => ne_empty_of_isIdentifier (identifiers w member)
  rw [absolute_eq, chars, SearchPath.length_takeWhile_dots dots identifiers]
  dsimp only
  rw [List.drop_left' List.length_replicate, String.ofList_toList]
  unfold resolved
  split
  · rfl
  · by_cases filled : words = []
    · rw [if_pos ((joinDots_eq_empty word).mpr filled), filled]
    · rw [if_neg fun empty => filled ((joinDots_eq_empty word).mp empty),
        SearchPath.joinDots_append_joinDots _ filled]

section

variable {home : Home} {dots : Nat} {words : List String} {n : SpelledName}

private theorem absolute_path (spelled : Source dots words n) :
    home.absolute n.path = joinDots (home.resolved dots words) := by
  rw [spelled.path_eq, absolute_reference home dots spelled.identifiers]

/-- Layout that counts leads elsewhere. -/
theorem length_absolute_lt_of_not_isSpaced (spelled : Source dots words n)
    (layout : n.isSpaced = false) :
    (joinDots (home.resolved dots words)).length < (home.absolute n.text).length := by
  obtain ⟨front, text, back, rfl, spaced, counts⟩ := SpelledName.exists_gap_of_not_isSpaced layout
  have read := spelled.isRead
  have begins := spelled.beginsWithCode
  rw [List.forall_mem_append] at read
  obtain ⟨-, laid⟩ := read.2 (.gap text) List.mem_cons_self
  obtain ⟨x, rest, chars⟩ := List.exists_cons_of_ne_nil counts
  have filled : front ≠ [] := by
    rintro rfl
    exact Bool.noConfusion (begins _ rfl)
  have nonempty : solid front.text ≠ [] := by
    refine SpelledName.solid_text_ne_nil read.1 (fun p first => begins p ?_) filled
    rw [List.head?_append, first, Option.some_or]
    rfl
  have hidden : SpelledName.path (.gap text :: back) = SpelledName.path back := rfl
  have whole : solid (SpelledName.text (front ++ .gap text :: back)) =
      solid front.text ++ x :: (rest ++ solid (SpelledName.text back)) := by
    rw [SpelledName.text_append, SpelledName.text_cons, solid_append, solid_append, NamePart.text,
      chars, List.cons_append]
  have less : solid (SpelledName.path (front ++ .gap text :: back)) =
      solid front.text ++ solid (SpelledName.path back) := by
    rw [SpelledName.path_append, solid_append, hidden, SpelledName.solid_text_of_isSpaced spaced]
  have shorter : (solid (SpelledName.path back)).length ≤
      (rest ++ solid (SpelledName.text back)).length := by
    rw [List.length_append]
    exact Nat.le_add_left_of_le (SpelledName.length_solid_path_le back)
  rw [← absolute_path spelled]
  exact home.length_absolute_lt whole less nonempty (laid.head_ne_dot chars) shorter

private theorem absolute_text_of_isSpaced (spelled : Source dots words n) (spaced : n.isSpaced) :
    home.absolute n.text = joinDots (home.resolved dots words) := by
  rw [home.absolute_congr (SpelledName.solid_text_of_isSpaced spaced), absolute_path spelled]

private theorem absolute_text_or (spelled : Source dots words n) :
    home.absolute n.text = joinDots (home.resolved dots words) ∨
      (joinDots (home.resolved dots words)).length < (home.absolute n.text).length := by
  cases spaced : n.isSpaced with
  | true => exact Or.inl (absolute_text_of_isSpaced spelled spaced)
  | false => exact Or.inr (length_absolute_lt_of_not_isSpaced spelled spaced)

private theorem absolute_text_iff (spelled : Source dots words n) :
    home.absolute n.text = joinDots (home.resolved dots words) ↔ n.isSpaced := by
  refine ⟨fun same => ?_, absolute_text_of_isSpaced spelled⟩
  by_contra layout
  have longer : (joinDots (home.resolved dots words)).length < (home.absolute n.text).length :=
    length_absolute_lt_of_not_isSpaced spelled (Bool.eq_false_iff.mpr layout)
  exact absurd (same ▸ longer) (Nat.lt_irrefl _)

end

/-! ### Symbols -/

section

variable {home : Home} {base : List String} {source : String}

private theorem qualify_joinDots (segments : ∀ name ∈ base, name ≠ "") {words : List String}
    (filled : words ≠ []) :
    qualify (joinDots base) (joinDots words) = joinDots (base ++ words) := by
  unfold qualify
  split
  · rename_i empty
    rw [(joinDots_eq_empty segments).mp empty, List.nil_append]
  · rename_i nonempty
    have inside : base ≠ [] := fun empty => nonempty ((joinDots_eq_empty segments).mpr empty)
    rw [joinDots_append inside filled]

private theorem length_qualify (base name : String) : (qualify base name).length =
    (if base = "" then 0 else base.length + 1) + name.length := by
  unfold qualify
  split
  · rw [Nat.zero_add]
  · rw [String.length_append, String.length_append]
    rfl

private theorem length_le_of_qualify_eq {base base' name name' : String}
    (le : base'.length ≤ base.length) (le' : name'.length ≤ name.length)
    (same : qualify base name = qualify base' name') :
    base.length ≤ base'.length ∧ name.length ≤ name'.length := by
  have lengths := congrArg String.length same
  rw [length_qualify, length_qualify] at lengths
  by_cases top : base = ""
  · rw [top, String.length_empty] at le ⊢
    have top' : base' = "" := String.length_eq_zero_iff.mp (Nat.le_zero.mp le)
    rw [if_pos top, if_pos top'] at lengths
    omega
  · have filled : 0 < base.length := by
      rwa [Nat.pos_iff_ne_zero, ne_eq, String.length_eq_zero_iff]
    rw [if_neg top] at lengths
    split at lengths <;> omega

private theorem importSymbol_inj {name name' target target' : String} :
    home.importSymbol name target = home.importSymbol name' target' ↔
      name = name' ∧ target = target' := by
  simp [importSymbol]

variable (segments : ∀ name ∈ base, name ≠ "")
  (own : source = joinDots base ∨ (joinDots base).length < source.length)

include segments own

private theorem qualify_text_iff {words : List String} {n : SpelledName} (dotted : Dotted words n) :
    qualify source n.text = joinDots (base ++ words) ↔ source = joinDots base ∧ n.isTight := by
  rw [← qualify_joinDots segments dotted.words_ne_nil, ← dotted.path_eq]
  constructor
  · intro same
    have le : (joinDots base).length ≤ source.length := by
      rcases own with rfl | longer
      · exact Nat.le_refl _
      · exact Nat.le_of_lt longer
    obtain ⟨short, tight⟩ := length_le_of_qualify_eq le n.length_path_le same
    refine ⟨own.resolve_right (Nat.not_lt.mpr short), SpelledName.isTight_of_length_le ?_ tight⟩
    exact fun text member => (dotted.isRead _ member).1
  · rintro ⟨rfl, tight⟩
    rw [SpelledName.path_of_isTight tight]

private theorem importedFromSymbol_iff {e : Entry} {item : ImportItem}
    (spelled : SpellsEntry e item) :
    importedFromSymbol home source item = some (home.entrySymbol base e) ↔
      source = joinDots base ∧ item.isTight := by
  cases spelled with
  | name dotted =>
    rw [importedFromSymbol, entrySymbol, Option.some.injEq, importSymbol_inj,
      qualify_text_iff segments own dotted]
    refine and_iff_right_of_imp fun right => ?_
    rw [Option.getD_none, ← dotted.path_eq, SpelledName.path_of_isTight right.2]
  | aliased localName dotted =>
    rw [importedFromSymbol, entrySymbol, Option.some.injEq, importSymbol_inj,
      qualify_text_iff segments own dotted]
    exact and_iff_right rfl

private theorem filterMap_importedFromSymbol_iff {entries : List Entry} {items : List ImportItem}
    (spelled : SpellsEntries entries items) :
    items.filterMap (importedFromSymbol home source) = entries.map (home.entrySymbol base) ↔
      (entries ≠ [] → source = joinDots base) ∧ items.all ImportItem.isTight := by
  induction spelled with
  | nil => simp
  | comment text _ ih =>
    rw [List.filterMap_cons_none rfl, ih, List.all_cons, ImportItem.isTight, Bool.true_and]
  | @item e item entries items first _ ih =>
    have symbol : importedFromSymbol home source item = some (home.entrySymbol base e) ↔ _ :=
      importedFromSymbol_iff segments own first
    obtain ⟨s, bound⟩ : ∃ s, importedFromSymbol home source item = some s := by
      cases first <;> exact ⟨_, rfl⟩
    rw [bound, Option.some.injEq] at symbol
    rw [List.filterMap_cons_some bound, List.map_cons, List.cons.injEq, symbol, ih, List.all_cons,
      Bool.and_eq_true]
    constructor
    · exact fun ⟨⟨leads, tight⟩, _, rest⟩ => ⟨fun _ => leads, tight, rest⟩
    · exact fun ⟨leads, tight, rest⟩ => ⟨⟨leads (by simp), tight⟩, fun _ => leads (by simp), rest⟩

end

end Home

variable {home : Home}

private theorem importedSymbol_eq (home : Home) : importedSymbol home =
    importedFromSymbol home "" := by
  funext item
  cases item <;> rfl

private theorem wildcardSymbols_inj {base base' : String} :
    wildcardSymbols home base = wildcardSymbols home base' ↔ base = base' := by
  refine ⟨fun same => ?_, congrArg _⟩
  unfold wildcardSymbols at same
  split at same <;> split at same
  · rename_i top top'
    exact top.trans top'.symm
  · exact nomatch same
  · exact nomatch same
  · exact (Home.importSymbol_inj.mp (List.cons.inj same).1).1

private theorem spread_everything {dots : Nat} {words : List String}
    (identifiers : ∀ w ∈ words, isIdentifier w) : home.spread (.everything dots words) =
      wildcardSymbols home (joinDots (home.resolved dots words)) := by
  have empty := Home.joinDots_eq_empty (Home.ne_empty_of_mem_resolved home dots identifiers)
  simp only [Home.spread, wildcardSymbols, empty]

variable (home) {i : Import} {s : Statement}

/-- An import binds what it should if it is plain. -/
theorem binds_iff_isPlain (spelled : Spells i s) :
    boundSymbols home s = home.bound i ∧ spreadSymbols home s = home.spread i ↔ s.isPlain := by
  cases spelled with
  | @modules entries items filled list =>
    have bound : items.filterMap (importedFromSymbol home "") = entries.map (home.entrySymbol []) ↔
        (entries ≠ [] → "" = joinDots []) ∧ items.all ImportItem.isTight :=
      Home.filterMap_importedFromSymbol_iff (List.forall_mem_nil _) (Or.inl rfl) list
    have top : (entries ≠ [] → "" = joinDots []) := fun _ => rfl
    rw [and_iff_right top] at bound
    rw [boundSymbols, importedSymbol_eq, Home.bound, bound]
    exact and_iff_left rfl
  | @members dots words entries source items leads filled list =>
    have bound : items.filterMap (importedFromSymbol home (home.absolute source.text)) =
          entries.map (home.entrySymbol (home.resolved dots words)) ↔
        (entries ≠ [] → home.absolute source.text = joinDots (home.resolved dots words)) ∧
          items.all ImportItem.isTight :=
      Home.filterMap_importedFromSymbol_iff
        (Home.ne_empty_of_mem_resolved home dots leads.identifiers)
        (Home.absolute_text_or leads) list
    rw [forall_prop_of_true filled, Home.absolute_text_iff leads, ← Bool.and_eq_true] at bound
    rw [boundSymbols, Home.bound, bound]
    exact and_iff_left rfl
  | @everything dots words source leads =>
    rw [spread_everything leads.identifiers, spreadSymbols, wildcardSymbols_inj,
      Home.absolute_text_iff leads]
    exact and_iff_right rfl

private theorem symbols_of_not_isImport (other : s.isImport = false) :
    boundSymbols home s = [] ∧ spreadSymbols home s = [] := by
  cases s with
  | importNames items => exact Bool.noConfusion other
  | importFrom source items => exact Bool.noConfusion other
  | importAll source => exact Bool.noConfusion other
  | _ => exact ⟨rfl, rfl⟩

private theorem exists_spelled {statements : List Statement}
    (h : ∀ s ∈ statements, s.IsSpelled) :
    ∃ imports, List.Forall₂ Spells imports (statements.filter Statement.isImport) := by
  induction statements with
  | nil => exact ⟨[], .nil⟩
  | cons s rest ih =>
    obtain ⟨imports, spelled⟩ := ih fun other member => h other (List.mem_cons_of_mem _ member)
    cases own : s.isImport with
    | false => exact ⟨imports, by rwa [List.filter_cons_of_neg (by simp [own])]⟩
    | true =>
      obtain ⟨i, first⟩ := h s List.mem_cons_self own
      exact ⟨i :: imports, by
        rw [List.filter_cons_of_pos own]
        exact .cons first spelled⟩

private theorem flatMap_symbols {imports : List Import} {statements : List Statement}
    (spelled : List.Forall₂ Spells imports (statements.filter Statement.isImport))
    (plain : ∀ s ∈ statements, s.isPlain) :
    statements.flatMap (boundSymbols home) = imports.flatMap home.bound ∧
      statements.flatMap (spreadSymbols home) = imports.flatMap home.spread := by
  induction statements generalizing imports with
  | nil =>
    cases spelled
    exact ⟨rfl, rfl⟩
  | cons s rest ih =>
    have later := fun other member => plain other (List.mem_cons_of_mem _ member)
    rw [List.flatMap_cons, List.flatMap_cons]
    cases own : s.isImport with
    | false =>
      rw [List.filter_cons_of_neg (by simp [own])] at spelled
      obtain ⟨bound, spread⟩ := symbols_of_not_isImport home own
      rw [bound, spread]
      exact ih spelled later
    | true =>
      rw [List.filter_cons_of_pos own] at spelled
      cases spelled with
      | cons first spelled =>
        obtain ⟨bound, spread⟩ := (binds_iff_isPlain home first).mpr
          (plain s List.mem_cons_self)
        obtain ⟨bounds, spreads⟩ := ih spelled later
        rw [bound, spread, bounds, spreads, List.flatMap_cons, List.flatMap_cons]
        exact ⟨rfl, rfl⟩

/-- An import binds the symbols that its identifiers, dots and local names determine if and only if
the names it imports are spelled without layout and the layout of its source is white space; so plain
imports that say the same bind the same. The imports of a text that can be read are all spelled in one
of these ways; and where the imports of a tree are, and are plain, what they say makes the tables of
imports. -/
theorem imports_bind_what_they_say (name : String) (file : Option Path) :
    let home := Home.ofFile name file
    (∀ i s, Spells i s →
      (boundSymbols home s = home.bound i ∧ spreadSymbols home s = home.spread i ↔ s.isPlain) ∧
        ∀ s', Spells i s' → s.isPlain → s'.isPlain →
          boundSymbols home s = boundSymbols home s' ∧
            spreadSymbols home s = spreadSymbols home s') ∧
    (∀ text tree, parse text = some tree → Spelled tree) ∧
    ∀ tree, Spelled tree →
      ∃ imports, List.Forall₂ Spells imports ((inlined tree).filter Statement.isImport) ∧
        ((∀ s ∈ inlined tree, s.isPlain) →
          (SourceModule.ofTree name file tree).imports =
              SymbolSet.firsts (imports.flatMap home.bound) ∧
            (SourceModule.ofTree name file tree).wildcards =
              SymbolSet.firsts (imports.flatMap home.spread)) := by
  intro home
  refine ⟨?_, fun _ _ read => spelled_of_parse read, ?_⟩
  · intro i s spelled
    refine ⟨binds_iff_isPlain home spelled, fun s' spelled' plain plain' => ?_⟩
    obtain ⟨bound, spread⟩ := (binds_iff_isPlain home spelled).mpr plain
    obtain ⟨bound', spread'⟩ := (binds_iff_isPlain home spelled').mpr plain'
    exact ⟨bound.trans bound'.symm, spread.trans spread'.symm⟩
  · intro tree all
    obtain ⟨imports, spelled⟩ := exists_spelled all
    refine ⟨imports, spelled, fun plain => ?_⟩
    obtain ⟨bounds, spreads⟩ := flatMap_symbols home spelled plain
    rw [SourceModule.imports_ofTree, SourceModule.wildcards_ofTree, bounds, spreads]
    exact ⟨rfl, rfl⟩

theorem imports_bind_what_they_say_behind_spaces :
    let home := Home.ofFile "a.b" none
    let spaced : Statement := .importFrom [.dot, .gap " ", .word "p"] [.name [.word "q"]]
    let commented : Statement :=
      .importFrom [.dot, .word "p"] [.comment "# c", .name [.word "q"]]
    boundSymbols home spaced = [⟨"q", .imported, "a.b", none, some "a.p.q"⟩] ∧
      boundSymbols home spaced = boundSymbols home commented ∧
      ∃ tree imports, parse "from . p import q\n" = some tree ∧
        List.Forall₂ Spells imports ((inlined tree).filter Statement.isImport) ∧
        (SourceModule.ofTree "a.b" none tree).imports =
          SymbolSet.firsts (imports.flatMap home.bound) := by
  intro home spaced commented
  obtain ⟨tree, read, plain⟩ := exists_of_any
    (P := fun tree => ∀ s ∈ inlined tree, s.isPlain) (r := parse "from . p import q\n")
    (by decide +kernel)
  obtain ⟨statements, readable, trees⟩ := imports_bind_what_they_say "a.b" none
  obtain ⟨imports, spelled, tables⟩ := trees tree (readable _ tree read)
  have layout : Gap [.gap " "] := .layout (by decide) (.filler (by decide) .nil)
  have dot : Dots 1 [.dot] := .more .nil .none fun _ => rfl
  have entries : SpellsEntries [⟨["q"], none⟩] [.name [.word "q"]] :=
    .item (.name (.word (by decide))) .nil
  have first : Spells (.members 1 ["p"] [⟨["q"], none⟩]) spaced :=
    .members (.names dot layout (by simp) (.word (by decide))) (by simp) entries
  have second : Spells (.members 1 ["p"] [⟨["q"], none⟩]) commented :=
    .members (.names dot .none (fun _ => rfl) (.word (by decide))) (by simp)
      (.comment "# c" entries)
  obtain ⟨binds, same⟩ := statements _ spaced first
  refine ⟨?_, (same commented second rfl rfl).1, tree, imports, read, spelled, (tables plain).1⟩
  rw [(binds.mpr rfl).1]
  decide +kernel

/-- White space in a name that is imported, and a line that is joined in a source, come into the
paths. -/
theorem layout_comes_into_paths :
    (∃ tree, parse "import os . path\n" = some tree ∧ (SourceModule.ofTree "m" none tree).imports =
      [⟨"os . path", .imported, "m", none, some "os . path"⟩]) ∧
    ∃ tree, parse "from a.\\\nb import c\n" = some tree ∧
      (SourceModule.ofTree "m" none tree).imports =
        [⟨"c", .imported, "m", none, some "a.\\b.c"⟩] :=
  ⟨exists_of_any (by decide +kernel), exists_of_any (by decide +kernel)⟩

end ImportAtlas
