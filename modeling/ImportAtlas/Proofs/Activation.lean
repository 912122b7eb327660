import ImportAtlas.Proofs.Gathering
import ImportAtlas.Proofs.RelativeImports
import Mathlib.Order.Bounds.Basic

/-!
Completion behind a name. The target of an import is tried as a whole, then without its last segment,
and so on; the longest beginning that resolves gives the module, and the segments behind it the scope.
Attempts that fail take entries out of the index, but none that a shorter beginning could resolve to;
so the beginning that is found is the longest one that resolves before the query.
-/

set_option autoImplicit false

namespace ImportAtlas.Completion

def beginning (path : List String) (k : Nat) : String :=
  SearchPath.joinDots (path.take k)

/-- The course of the attempts: `Tries lib path s k t` says that, from state `s` on, the beginnings
with more than `k` segments are asked for one after the other, the longest first, that all of them fail
and that the state is then `t`. -/
inductive Tries (lib : Library) (path : List String) (s : State) : Nat → State → Prop
  | start : Tries lib path s path.length s
  | failed {k : Nat} {t t' : State} {cause : Failure} (earlier : Tries lib path s (k + 1) t)
      (answer : t.resolve lib (beginning path (k + 1)) = (.error cause, t')) : Tries lib path s k t'

def Resolves (lib : Library) (path : List String) (s : State) (k : Nat) : Prop :=
  0 < k ∧ k ≤ path.length ∧ ∃ n, (s.resolve lib (beginning path k)).1 = .ok n

variable {lib : Library} {path : List String} {s t t' : State} {k : Nat}

private theorem descend_take (bound : k < path.length) (rest : List String) :
    descend lib (path.take (k + 1)).reverse rest t =
      match t.resolve lib (beginning path (k + 1)) with
      | (.ok n, t') =>
        if rest.isEmpty then ((reachable lib n t').1.toList, (reachable lib n t').2)
        else (n.members (SearchPath.joinDots rest), t')
      | (.error _, t') => descend lib (path.take k).reverse (path[k] :: rest) t' := by
  have last : (path.take (k + 1)).reverse = path[k] :: (path.take k).reverse := by
    rw [List.take_succ_eq_append_getElem bound, List.reverse_append, List.reverse_singleton,
      List.singleton_append]
  rw [last, descend, ← last, List.reverse_reverse]
  rfl

namespace Tries

private theorem le_length (h : Tries lib path s k t) : k ≤ path.length := by
  induction h with
  | start => exact Nat.le_refl _
  | failed _ _ ih => omega

private theorem descend_eq (h : Tries lib path s k t) :
    descend lib path.reverse [] s = descend lib (path.take k).reverse (path.drop k) t := by
  induction h with
  | start => rw [List.take_length, List.drop_length]
  | @failed k t t' cause earlier answer ih =>
    have bound : k < path.length := earlier.le_length
    rw [ih, descend_take bound, answer, List.drop_eq_getElem_cons bound]

private theorem settles (h : Tries lib path s k t) :
    (∃ k t n t', Tries lib path s k t ∧ 0 < k ∧
      t.resolve lib (beginning path k) = (.ok n, t')) ∨ ∃ t, Tries lib path s 0 t := by
  induction k generalizing t with
  | zero => exact Or.inr ⟨t, h⟩
  | succ k ih =>
    rcases answer : t.resolve lib (beginning path (k + 1)) with ⟨cause | n, t'⟩
    · exact ih (.failed h answer)
    · exact Or.inl ⟨k + 1, t, n, t', h, Nat.succ_pos k, answer⟩

private theorem descend_of_ok (h : Tries lib path s k t) (some_left : 0 < k) {n : Module}
    (answer : t.resolve lib (beginning path k) = (.ok n, t')) :
    (descend lib path.reverse [] s).1 =
      if k = path.length then (reachable lib n t').1.toList
      else n.members (SearchPath.joinDots (path.drop k)) := by
  obtain ⟨j, rfl⟩ : ∃ j, k = j + 1 := ⟨k - 1, by omega⟩
  have bound : j < path.length := h.le_length
  rw [h.descend_eq, descend_take bound, answer]
  simp only [List.isEmpty_iff, List.drop_eq_nil_iff]
  by_cases whole : j + 1 = path.length
  · rw [if_pos whole, if_pos (by omega)]
  · rw [if_neg whole, if_neg (by omega)]

private theorem descend_of_zero (h : Tries lib path s 0 t) : (descend lib path.reverse [] s).1 =
    [] := by
  rw [h.descend_eq, List.take_zero, List.reverse_nil, descend]

private theorem eq_of_length (h : Tries lib path s path.length t) : t = s := by
  generalize whole : path.length = n at h
  cases h with
  | start => rfl
  | failed earlier _ =>
    have bound := earlier.le_length
    omega

private theorem longer (h : Tries lib path s k t) {j : Nat} (more : k < j)
    (bound : j ≤ path.length) :
    ∃ t cause t', Tries lib path s j t ∧ t.resolve lib (beginning path j) = (.error cause, t') := by
  induction h with
  | start => omega
  | @failed k t t' cause earlier answer ih =>
    by_cases next : j = k + 1
    · rw [next]
      exact ⟨t, cause, t', earlier, answer⟩
    · exact ih (by omega)

end Tries

private theorem beginning_succ (some_left : 0 < k) (bound : k < path.length) :
    beginning path (k + 1) = beginning path k ++ "." ++ path[k] := by
  have filled : path.take k ≠ [] := by
    apply List.ne_nil_of_length_pos
    rw [List.length_take]
    omega
  rw [beginning, List.take_succ_eq_append_getElem bound,
    SearchPath.joinDots_append filled (List.cons_ne_nil _ _), SearchPath.joinDots_singleton, beginning]

/-- What failed attempts keep: every entry makes what it made before, and none is lost that the
beginning next in turn, or a shorter one, has as its own. -/
theorem Tries.kept (h : Tries lib path s k t) (well : s.index.WellFormed) (some_left : 0 < k) :
    t.index.WellFormed ∧ Index.Later lib s.index t.index ∧
      ∀ name, name.length ≤ (beginning path k).length → s.index.contains name →
        t.index.contains name := by
  induction h with
  | start => exact ⟨well, Index.Later.refl _, fun _ _ => id⟩
  | @failed k t t' cause earlier answer ih =>
    obtain ⟨well', later, spared⟩ := ih (Nat.succ_pos k)
    have after : t' = (t.resolve lib (beginning path (k + 1))).2 := by rw [answer]
    have shorter : (beginning path k).length < (beginning path (k + 1)).length := by
      have dot : ".".length = 1 := rfl
      rw [beginning_succ some_left earlier.le_length, String.length_append, String.length_append]
      omega
    refine ⟨after ▸ well'.resolve _, after ▸ later.trans (well'.later_resolve _), ?_⟩
    intro name short present
    have before := spared name (by omega) present
    -- The entry that may be lost has the name that was asked for, or a longer one.
    have other : name ≠ t.index.keyFor (beginning path (k + 1)) := by
      rintro rfl
      cases own : t.index.contains (beginning path (k + 1)) with
      | true =>
        rw [Index.keyFor_of_contains own] at short
        omega
      | false =>
        rw [Index.keyFor_of_not_contains own, Index.initializer, String.length_append,
          String.length_append] at short
        omega
    rw [after, Index.contains, NameMap.contains, ← Index.get?, well'.get?_resolve, if_neg other]
    exact before

private theorem Tries.answer_iff (h : Tries lib path s k t) (well : s.index.WellFormed)
    (some_left : 0 < k) {n : Module} : (t.resolve lib (beginning path k)).1 = .ok n ↔
      (s.resolve lib (beginning path k)).1 = .ok n := by
  obtain ⟨-, later, spared⟩ := h.kept well some_left
  have same : t.index.contains (beginning path k) = s.index.contains (beginning path k) :=
    Bool.eq_iff_iff.mpr ⟨later.names _, spared _ (Nat.le_refl _)⟩
  rw [State.resolve_fst, State.resolve_fst, Index.answer_eq_ok_iff, Index.answer_eq_ok_iff,
    later.loads, Index.keyFor, Index.keyFor, same]

private theorem exists_tries_of_isGreatest (well : s.index.WellFormed)
    (greatest : IsGreatest {j | Resolves lib path s j} k) : ∃ t, Tries lib path s k t := by
  obtain ⟨⟨some_left, bound, n, found⟩, longest⟩ := greatest
  have begun : Tries lib path s path.length s := .start
  -- The attempts do not end before, since what they end with resolves in the state before.
  obtain ⟨j, t, tries, shorter⟩ : ∃ j t, Tries lib path s j t ∧ j ≤ k := by
    rcases begun.settles with
      ⟨j, t, n', t', tries, positive, answer⟩ | ⟨t, tries⟩
    · refine ⟨j, t, tries, longest ⟨positive, tries.le_length, n', ?_⟩⟩
      exact (tries.answer_iff well positive).mp (congrArg Prod.fst answer)
    · exact ⟨0, t, tries, Nat.zero_le k⟩
  rcases Nat.lt_or_eq_of_le shorter with before | same
  · obtain ⟨t, -, -, tries, -⟩ := tries.longer before bound
    exact ⟨t, tries⟩
  · exact ⟨t, same ▸ tries⟩

private theorem exists_tries_zero (well : s.index.WellFormed)
    (none_resolves : ∀ j, ¬Resolves lib path s j) :
    ∃ t, Tries lib path s 0 t := by
  have begun : Tries lib path s path.length s := .start
  rcases begun.settles with ⟨j, t, n, t', tries, positive, answer⟩ | all_failed
  · refine absurd ⟨positive, tries.le_length, n, ?_⟩ (none_resolves j)
    exact (tries.answer_iff well positive).mp (congrArg Prod.fst answer)
  · exact all_failed

private theorem beginning_length (text : String) :
    beginning (Text.split '.' text) (Text.split '.' text).length = text := by
  rw [beginning, List.take_length, SearchPath.joinDots_split]

/-- Behind a name that no import has, completion answers the members of the scope of that name in the
module itself. Behind the name of an import it asks for the beginnings of the target, the longest
first, up to the first that resolves: it answers what a walk from that module gathers if this is the
whole target, and else the members of the scope that the other segments name; and nothing if none
resolves. In an index that a run leads to, the beginning found is the longest one that resolves in the
state before, and what a walk gathers lacks only the symbols that are visible everywhere. -/
theorem activation_resolves_longest_beginning (lib : Library) (m : Module) {activation : String}
    (typed : cursorName activation ≠ "") (s : State) :
    let name := cursorName activation
    let answer := (atCursor lib m activation s).1
    ((∀ i ∈ m.imports, i.name ≠ name) → answer = m.members name) ∧
    ∀ i, m.imports.find? (fun i => i.name = name) = some i →
      let path := Text.split '.' i.path
      ((∃ k t n t', Tries lib path s k t ∧ 0 < k ∧ t.resolve lib (beginning path k) = (.ok n, t') ∧
          answer = if k = path.length then (reachable lib n t').1.toList
            else n.members (SearchPath.joinDots (path.drop k))) ∨
        (∃ t, Tries lib path s 0 t) ∧ answer = []) ∧
      (s.index.WellFormed →
        (∀ k n, IsGreatest {j | Resolves lib path s j} k →
          (s.resolve lib (beginning path k)).1 = .ok n →
          (k = path.length → let t := (s.resolve lib i.path).2
            answer = (reachable lib n t).1.toList ∧ (atCursor lib n "" t).1 =
              ((SymbolSet.ofList answer).insertAll Builtin.ambient.globals).toList) ∧
          (k < path.length → answer = n.members (SearchPath.joinDots (path.drop k)))) ∧
        ((∀ j, ¬Resolves lib path s j) → answer = [])) := by
  intro name answer
  have asked : answer = (behind lib m name s).1 := by
    simp only [answer, atCursor]
    rw [if_neg typed]
  constructor
  · intro unbound
    have missing : m.imports.find? (fun i => i.name = name) = none :=
      List.find?_eq_none.mpr fun i member => by simpa using unbound i member
    rw [asked, behind, missing]
  intro i first path
  have descends : answer = (descend lib path.reverse [] s).1 := by
    rw [asked, behind, first]
  constructor
  · have begun : Tries lib path s path.length s := .start
    rcases begun.settles with ⟨k, t, n, t', tries, some_left, resolved⟩ | ⟨t, tries⟩
    · exact Or.inl ⟨k, t, n, t', tries, some_left, resolved,
        descends.trans (tries.descend_of_ok some_left resolved)⟩
    · exact Or.inr ⟨⟨t, tries⟩, descends.trans tries.descend_of_zero⟩
  intro well
  constructor
  · intro k n greatest found
    have some_left : 0 < k := greatest.1.1
    obtain ⟨t, tries⟩ := exists_tries_of_isGreatest well greatest
    obtain ⟨t', resolved⟩ : ∃ t', t.resolve lib (beginning path k) = (.ok n, t') :=
      ⟨_, Prod.ext ((tries.answer_iff well some_left).mpr found) rfl⟩
    have value := descends.trans (tries.descend_of_ok some_left resolved)
    constructor
    · intro whole after
      subst whole
      obtain rfl := tries.eq_of_length
      have settled : t' = after := by
        rw [beginning_length] at resolved
        exact (congrArg Prod.snd resolved).symm
      rw [if_pos rfl, settled] at value
      refine ⟨value, ?_⟩
      rw [value, SymbolSet.ofList_toList]
      exact atCursor_blank (well.resolve i.path) n (by decide)
    · intro part
      rw [value, if_neg (Nat.ne_of_lt part)]
  · intro none_resolves
    obtain ⟨t, tries⟩ := exists_tries_zero well none_resolves
    exact descends.trans tries.descend_of_zero

theorem activation_resolves_longest_beginning_of_class :
    let h : Host := ⟨.ofEntries ⟨"/"⟩ [], ⟨"/"⟩, ⟨0, 0⟩⟩
    let lib : Library := ⟨⟨fun _ => .error ⟨.notFound, "gone"⟩, fun _ => true⟩,
      fun _ => .ok [.classDef [] "C" [.assign [.name "inner"]]]⟩
    let fresh := ((Engine.initial {} ⟨"/"⟩).rebuild "/a" .never h).2.1
    let e := fresh.withState (fresh.state.changeFile lib ⟨"/a/x.py"⟩ "class C: inner = 1").2
    let m : Module := .source (.ofTree "" none [.importFrom [.word "x"] [.name [.word "C"]]])
    let answer := (atCursor lib m " C." e.state).1
    e.Reachable ∧ cursorName " C." ≠ "" ∧ answer.map Symbol.name = ["inner"] ∧
      IsGreatest {j | Resolves lib ["x", "C"] e.state j} 1 ∧
      (∃ n, (e.state.resolve lib "x").1 = .ok n ∧ answer = n.members "C") ∧
      (atCursor lib m "c" e.state).1 = m.members "c" := by
  intro h lib fresh e m answer
  have home : (⟨"/"⟩ : Path).isAbsolute := by decide
  have run : e.Reachable :=
    .changeFile (.rebuild (.initial {} home) _ .never home) lib _ _
  have typed : cursorName " C." ≠ "" := by decide
  have bound : m.imports.find? (fun i => i.name = cursorName " C.") =
      some ⟨"C", .imported, "", none, some "x.C"⟩ := by decide +kernel
  have path : Text.split '.' "x.C" = ["x", "C"] := by decide
  obtain ⟨whole, first⟩ : (e.state.resolve lib "x.C").1.toOption.isSome = false ∧
      (e.state.resolve lib "x").1.toOption.isSome = true := by decide +kernel
  obtain ⟨n, found⟩ : ∃ n, (e.state.resolve lib "x").1 = .ok n := by
    cases resolved : (e.state.resolve lib "x").1 with
    | error cause => simp [resolved, Except.toOption] at first
    | ok n => exact ⟨n, rfl⟩
  have greatest : IsGreatest {j | Resolves lib ["x", "C"] e.state j} 1 := by
    refine ⟨⟨Nat.one_pos, by decide, n, found⟩, ?_⟩
    rintro j ⟨-, bounded, n', resolved⟩
    by_contra more
    obtain rfl : j = 2 := by
      have two : j ≤ 2 := bounded
      omega
    have failed : (e.state.resolve lib "x.C").1 = .ok n' := resolved
    rw [failed] at whole
    exact absurd whole (by simp [Except.toOption])
  obtain ⟨-, behind_import⟩ := activation_resolves_longest_beginning lib m typed e.state
  obtain ⟨-, settled⟩ := behind_import _ bound
  obtain ⟨longest, -⟩ := settled run.wellFormed
  have part := (longest 1 n (path ▸ greatest) found).2 (by decide)
  obtain ⟨unbound, -⟩ := activation_resolves_longest_beginning lib m
    (show cursorName "c" ≠ "" by decide) e.state
  refine ⟨run, typed, by decide +kernel, greatest, ⟨n, found, part⟩, ?_⟩
  exact unbound (by decide +kernel)

end ImportAtlas.Completion
