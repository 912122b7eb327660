import ImportAtlas.Proofs.Editing
import Mathlib.Order.Bounds.Basic

/-!
Roots have precedence in the order of the search path. As long as files only get new texts, the file
behind a name is one of an earliest root among all files that could have taken the name.
-/

set_option autoImplicit false

namespace ImportAtlas

namespace SearchPath

variable {s : SearchPath}

theorem moduleName_normalize (home : s.cwd.isAbsolute) (p : Path) :
    s.moduleName (Path.normalize s.cwd p) = s.moduleName p := by
  unfold moduleName
  rw [Path.normalize_normalize home]

private theorem rootIndex_normalize (home : s.cwd.isAbsolute) (p : Path) :
    s.rootIndex (Path.normalize s.cwd p) = s.rootIndex p := by
  unfold rootIndex
  rw [Path.normalize_normalize home]

theorem exists_rootIndex_of_moduleName {p : Path} {name : String}
    (h : s.moduleName p = some name) : ∃ k, s.rootIndex p = some k := by
  obtain ⟨⟨k, root⟩, found, -⟩ := Option.bind_eq_some_iff.mp h
  exact ⟨k, by rw [rootIndex, found]; rfl⟩

/-- Whether a new text of a file makes a module of a name, below the root at position `k`. -/
def Offers (s : SearchPath) (lib : Library) (name : String) (event : Path × String) (k : Nat) :
    Prop :=
  s.moduleName event.1 = some name ∧ (lib.parser event.2).isOk ∧ s.rootIndex event.1 = some k

end SearchPath

namespace Index

/-- The positions of the roots of all files that could be behind a name after new texts of files:
the file that is behind it now, and the files whose text makes a module of that name. -/
def rivals (i : Index) (lib : Library) (name : String) (events : List (Path × String)) : Set Nat :=
  {k | (∃ file, i.fileOf? name = some file ∧ i.searchPath.rootIndex file = some k) ∨
    ∃ event ∈ events, i.searchPath.Offers lib name event k}

private theorem rivals_perm (i : Index) (lib : Library) (name : String)
    {events other : List (Path × String)}
    (h : other.Perm events) : i.rivals lib name other = i.rivals lib name events := by
  ext k
  simp only [rivals, Set.mem_ofPred_eq, h.mem_iff]

private theorem mem_rivals_append {i : Index} {lib : Library} {name : String}
    {events : List (Path × String)} {event : Path × String} {k : Nat} :
    k ∈ i.rivals lib name (events ++ [event]) ↔
      k ∈ i.rivals lib name events ∨ i.searchPath.Offers lib name event k := by
  simp only [rivals, Set.mem_ofPred_eq, List.mem_append, List.mem_singleton, or_assoc]
  apply or_congr_right
  constructor
  · rintro ⟨other, member | rfl, offer⟩
    · exact Or.inl ⟨other, member, offer⟩
    · exact Or.inr offer
  · rintro (⟨other, member, offer⟩ | offer)
    · exact ⟨other, Or.inl member, offer⟩
    · exact ⟨event, Or.inr rfl, offer⟩

private theorem rivals_append_of_not_offers {i : Index} {lib : Library} {name : String}
    {events : List (Path × String)} {event : Path × String}
    (h : ∀ k, ¬i.searchPath.Offers lib name event k) :
    i.rivals lib name (events ++ [event]) = i.rivals lib name events := by
  ext k
  rw [mem_rivals_append]
  exact or_iff_left (h k)

theorem fileOf?_put (i : Index) (name other : String) (m : Module) :
    (i.put name m).fileOf? other = if other = name then m.file else i.fileOf? other := by
  unfold fileOf? get? put
  rw [NameMap.get?_put]
  split <;> rfl

theorem rank_lt_of_keepsPlace {i : Index} {exists? : Path → Bool} {winner file : Path} {j : Nat}
    (kept : i.keepsPlace exists? winner file = true)
    (rank : i.searchPath.rootIndex file = some j) :
    ∃ k < j, i.searchPath.rootIndex winner = some k := by
  simp only [keepsPlace, Bool.and_eq_true, precedes, rank] at kept
  cases own : i.searchPath.rootIndex winner with
  | none => simp [own] at kept
  | some k =>
    simp only [own, decide_eq_true_eq] at kept
    exact ⟨k, kept.2, rfl⟩

theorem rank_le_of_not_keepsPlace {i : Index} {exists? : Path → Bool} {winner file : Path}
    {j k : Nat} (yields : i.keepsPlace exists? winner file = false) (present : exists? winner)
    (normal : winner.IsNormal) (normal' : file.IsNormal)
    (rank : i.searchPath.rootIndex winner = some k)
    (rank' : i.searchPath.rootIndex file = some j) : j ≤ k := by
  simp only [keepsPlace, precedes, rank, rank', present, Bool.and_true] at yields
  cases same : winner.same file with
  | true =>
    obtain rfl := normal.eq_of_same normal' same
    exact (Option.some.inj (rank'.symm.trans rank)).le
  | false =>
    simp only [same, Bool.not_false, Bool.true_and, decide_eq_false_iff_not] at yields
    exact not_lt.mp yields

/-- What is known of the file behind a name after new texts of files: it exists, and it is below an
earliest root of all that could have taken its place. -/
structure Leads (i : Index) (start : Index) (lib : Library) (name : String)
    (events : List (Path × String)) : Prop where
  searchPath : i.searchPath = start.searchPath
  earliest : ∀ file, i.fileOf? name = some file → file.IsNormal ∧ lib.sources.contains file ∧
    ∃ k, start.searchPath.rootIndex file = some k ∧ IsLeast (start.rivals lib name events) k
  bare : i.fileOf? name = none → start.rivals lib name events = ∅

namespace Leads

variable {i start : Index} {lib : Library} {name : String} {events : List (Path × String)}

private theorem mono (h : i.Leads start lib name events) {j : Index} {event : Path × String}
    (searchPath : j.searchPath = i.searchPath) (same : j.fileOf? name = i.fileOf? name)
    (idle : ∀ k, ¬start.searchPath.Offers lib name event k) :
    j.Leads start lib name (events ++ [event]) := by
  refine ⟨searchPath.trans h.searchPath, ?_, ?_⟩
  · rw [same, rivals_append_of_not_offers idle]
    exact h.earliest
  · rw [same, rivals_append_of_not_offers idle]
    exact h.bare

private theorem shadowed (h : i.Leads start lib name events) {j : Index} {event : Path × String}
    {winner : Path} {k : Nat} (index : j = i) (behind : i.fileOf? name = some winner)
    (offer : start.searchPath.Offers lib name event k)
    (later : ∃ l < k, start.searchPath.rootIndex winner = some l) :
    j.Leads start lib name (events ++ [event]) := by
  subst index
  refine ⟨h.searchPath, ?_, ?_⟩
  · intro file found
    obtain rfl := Option.some.inj (behind.symm.trans found)
    obtain ⟨normal, present, l, rank, least⟩ := h.earliest _ behind
    refine ⟨normal, present, l, rank, mem_rivals_append.mpr (Or.inl least.1), ?_⟩
    intro other rival
    rcases mem_rivals_append.mp rival with rival | other_offer
    · exact least.2 rival
    · obtain ⟨l', before, rank'⟩ := later
      obtain rfl := Option.some.inj (rank.symm.trans rank')
      obtain rfl := Option.some.inj (offer.2.2.symm.trans other_offer.2.2)
      exact before.le
  · intro absent
    rw [behind] at absent
    exact absurd absent (Option.some_ne_none winner)

private theorem taken (h : i.Leads start lib name events) {j : Index} {event : Path × String}
    {own : Path} {k : Nat} (searchPath : j.searchPath = i.searchPath)
    (behind : j.fileOf? name = some own) (normal : own.IsNormal)
    (present : lib.sources.contains own) (rank : start.searchPath.rootIndex own = some k)
    (offer : start.searchPath.Offers lib name event k)
    (yields : ∀ winner, i.fileOf? name = some winner →
      i.keepsPlace lib.sources.contains winner own = false) :
    j.Leads start lib name (events ++ [event]) := by
  refine ⟨searchPath.trans h.searchPath, ?_, ?_⟩
  · intro file found
    obtain rfl := Option.some.inj (behind.symm.trans found)
    refine ⟨normal, present, k, rank, mem_rivals_append.mpr (Or.inr offer), ?_⟩
    intro other rival
    rcases mem_rivals_append.mp rival with rival | other_offer
    · cases before : i.fileOf? name with
      | none =>
        rw [h.bare before] at rival
        exact absurd rival (Set.notMem_empty other)
      | some winner =>
        obtain ⟨normal', present', l, rank', least⟩ := h.earliest winner before
        have below : k ≤ l := by
          rw [← h.searchPath] at rank rank'
          exact rank_le_of_not_keepsPlace (yields winner before) present' normal' normal rank' rank
        exact below.trans (least.2 rival)
    · exact (Option.some.inj (offer.2.2.symm.trans other_offer.2.2)).le
  · intro absent
    rw [behind] at absent
    exact absurd absent (Option.some_ne_none own)

/-- The root that wins depends only on the roots that could win. -/
theorem rank_eq (h : i.Leads start lib name events) {j : Index} {other : List (Path × String)}
    (h' : j.Leads start lib name other)
    (same : start.rivals lib name other = start.rivals lib name events) :
    (j.fileOf? name).bind start.searchPath.rootIndex =
      (i.fileOf? name).bind start.searchPath.rootIndex := by
  cases behind : i.fileOf? name with
  | none =>
    cases behind' : j.fileOf? name with
    | none => rfl
    | some file =>
      obtain ⟨-, -, k, -, least⟩ := h'.earliest file behind'
      have rival := least.1
      rw [same, h.bare behind] at rival
      exact absurd rival (Set.notMem_empty k)
  | some file =>
    obtain ⟨-, -, k, rank, least⟩ := h.earliest file behind
    cases behind' : j.fileOf? name with
    | none =>
      have rival := least.1
      rw [← same, h'.bare behind'] at rival
      exact absurd rival (Set.notMem_empty k)
    | some file' =>
      obtain ⟨-, -, k', rank', least'⟩ := h'.earliest file' behind'
      rw [same] at least'
      simp only [Option.bind_some, rank, rank', least'.unique least]

end Leads

namespace WellFormed

variable {i : Index} {name : String}

theorem of_fileOf? (h : i.WellFormed) {file : Path} (behind : i.fileOf? name = some file) :
    name ≠ "" ∧ Builtin.isReserved name = false ∧ file.IsNormal ∧
      i.searchPath.moduleName file = some name := by
  obtain ⟨m, found, backed⟩ := Option.bind_eq_some_iff.mp behind
  have placed := h.placed name m found
  obtain ⟨nonempty, normal, named⟩ := placed.of_file backed
  exact ⟨nonempty, placed.not_reserved backed, normal, named⟩

private theorem fileOf?_eq_none (h : i.WellFormed)
    (special : name = "" ∨ Builtin.isReserved name = true) :
    i.fileOf? name = none := by
  cases behind : i.fileOf? name with
  | none => rfl
  | some file =>
    obtain ⟨nonempty, free, -⟩ := h.of_fileOf? behind
    rcases special with empty | reserved
    · exact absurd empty nonempty
    · exact absurd (free.symm.trans reserved) Bool.false_ne_true

private theorem leads (h : i.WellFormed) {lib : Library}
    (begun : ∀ file, i.fileOf? name = some file → lib.sources.contains file) :
    i.Leads i lib name [] := by
  refine ⟨rfl, ?_, ?_⟩
  · intro file behind
    obtain ⟨-, -, normal, named⟩ := h.of_fileOf? behind
    obtain ⟨k, rank⟩ := SearchPath.exists_rootIndex_of_moduleName named
    refine ⟨normal, begun file behind, k, rank, Or.inl ⟨file, behind, rank⟩, ?_⟩
    rintro other (⟨file', behind', rank'⟩ | ⟨event, member, -⟩)
    · obtain rfl := Option.some.inj (behind.symm.trans behind')
      exact (Option.some.inj (rank.symm.trans rank')).le
    · exact absurd member List.not_mem_nil
  · intro bare
    ext k
    simp [rivals, bare]

end WellFormed

end Index

namespace State

def changeAll (lib : Library) (events : List (Path × String)) (s : State) : State :=
  events.foldl (fun s event => (s.changeFile lib event.1 event.2).2) s

private theorem changeAll_append (lib : Library) (events : List (Path × String))
    (event : Path × String) (s : State) : s.changeAll lib (events ++ [event]) =
      ((s.changeAll lib events).changeFile lib event.1 event.2).2 := by
  simp [changeAll, List.foldl_append]

/-- One new text keeps the lead with an earliest root. -/
theorem leads_changeFile {s : State} {start : Index} {lib : Library} {name : String}
    {events : List (Path × String)} (normal : start.searchPath.IsNormal)
    (nonempty : name ≠ "") (free : Builtin.isReserved name = false)
    (h : s.index.Leads start lib name events) (event : Path × String)
    (present : start.searchPath.moduleName event.1 = some name →
      lib.sources.contains (Path.normalize start.searchPath.cwd event.1)) :
    (s.changeFile lib event.1 event.2).2.index.Leads start lib name (events ++ [event]) := by
  have home := normal.home
  have paths := h.searchPath
  have own : Path.normalize start.searchPath.cwd (s.fileOf event.1) = s.fileOf event.1 := by
    rw [fileOf, paths, Path.normalize_normalize home]
  have named : start.searchPath.moduleName (s.fileOf event.1) =
      start.searchPath.moduleName event.1 := by
    rw [fileOf, paths, SearchPath.moduleName_normalize home]
  have ranked : start.searchPath.rootIndex (s.fileOf event.1) =
      start.searchPath.rootIndex event.1 := by
    rw [fileOf, paths, SearchPath.rootIndex_normalize home]
  rcases s.changeFile_cases lib event.1 event.2 with ⟨unnamed, -, same⟩ |
    ⟨_, _, -, failed, -, same⟩ | ⟨other, tree, winner, indexed, parsed, behind, kept, -, same⟩ |
    ⟨other, tree, indexed, parsed, yields, -, put⟩
  · -- The file has no name to be indexed under, so it offers nothing.
    rw [same]
    refine h.mono rfl rfl ?_
    rintro k ⟨offered, -, -⟩
    have found := SearchPath.indexName_eq_some_iff.mpr ⟨named.trans offered, nonempty, free⟩
    rw [paths, found] at unnamed
    exact absurd unnamed (Option.some_ne_none name)
  · -- The text has no tree.
    rw [same]
    refine h.mono rfl rfl ?_
    rintro k ⟨-, parsed, -⟩
    rw [failed] at parsed
    exact Bool.false_ne_true parsed
  · -- A file of an earlier root keeps its place.
    rw [paths] at indexed kept
    rw [own] at kept
    obtain ⟨found, -, -⟩ := SearchPath.indexName_eq_some_iff.mp indexed
    rw [same]
    by_cases matching : other = name
    · subst matching
      obtain ⟨k, rank⟩ := SearchPath.exists_rootIndex_of_moduleName found
      have later := Index.rank_lt_of_keepsPlace kept (by rw [paths]; exact rank)
      rw [paths] at later
      exact h.shadowed rfl behind
        ⟨named.symm.trans found, by rw [parsed]; rfl, ranked.symm.trans rank⟩ later
    · refine h.mono rfl rfl ?_
      rintro k ⟨offered, -, -⟩
      exact matching (Option.some.inj (found.symm.trans (named.trans offered)))
  · -- The file takes the name: whatever was there is of no earlier root, or of none at all.
    rw [paths] at indexed put yields
    rw [own] at put yields
    obtain ⟨found, -, -⟩ := SearchPath.indexName_eq_some_iff.mp indexed
    rw [put]
    by_cases matching : other = name
    · subst matching
      obtain ⟨k, rank⟩ := SearchPath.exists_rootIndex_of_moduleName found
      have exists' := present (named.symm.trans found)
      rw [← paths] at exists'
      have shape := normal.normalize_of_moduleName found
      rw [own] at shape
      refine h.taken rfl ?_ shape exists' rank
        ⟨named.symm.trans found, by rw [parsed]; rfl, ranked.symm.trans rank⟩ yields
      rw [Index.fileOf?_put, if_pos rfl]
      rfl
    · refine h.mono rfl ?_ ?_
      · rw [Index.fileOf?_put, if_neg (Ne.symm matching)]
      · rintro k ⟨offered, -, -⟩
        exact matching (Option.some.inj (found.symm.trans (named.trans offered)))

private theorem leads_changeAll {s : State} {lib : Library} {name : String}
    (normal : s.index.searchPath.IsNormal) (nonempty : name ≠ "")
    (free : Builtin.isReserved name = false)
    (start : s.index.Leads s.index lib name []) (events : List (Path × String))
    (present : ∀ event ∈ events, s.index.searchPath.moduleName event.1 = some name →
      lib.sources.contains (s.fileOf event.1)) :
    (s.changeAll lib events).index.Leads s.index lib name events := by
  induction events using List.reverseRecOn with
  | nil => exact start
  | append_singleton events event ih =>
    rw [changeAll_append]
    have before := ih fun other member => present other (List.mem_append_left _ member)
    exact leads_changeFile normal nonempty free before event
      (present event (List.mem_append_right _ (List.mem_singleton.mpr rfl)))

private theorem wellFormed_changeAll {s : State} (h : s.index.WellFormed) (lib : Library)
    (events : List (Path × String)) : (s.changeAll lib events).index.WellFormed := by
  induction events using List.reverseRecOn with
  | nil => exact h
  | append_singleton events event ih =>
    rw [changeAll_append]
    exact wellFormed_changeFile ih lib event.1 event.2

theorem searchPath_changeFile (lib : Library) (event : Path × String) (s : State) :
    (s.changeFile lib event.1 event.2).2.index.searchPath = s.index.searchPath := by
  rcases s.changeFile_cases lib event.1 event.2 with ⟨-, -, same⟩ | ⟨_, _, -, -, -, same⟩ |
    ⟨_, _, _, -, -, -, -, -, same⟩ | ⟨_, _, -, -, -, -, put⟩
  · rw [same]
  · rw [same]
  · rw [same]
  · rw [put]
    rfl

private theorem searchPath_changeAll (lib : Library) (events : List (Path × String)) (s : State) :
    (s.changeAll lib events).index.searchPath = s.index.searchPath := by
  induction events using List.reverseRecOn with
  | nil => rfl
  | append_singleton events event ih =>
    rw [changeAll_append, searchPath_changeFile, ih]

private theorem keeps_name {s : State} {start : Index} {lib : Library} {name : String}
    {events : List (Path × String)} (normal : start.searchPath.IsNormal)
    (h : s.index.Leads start lib name events) (event : Path × String) {winner : Path}
    (behind : s.index.fileOf? name = some winner)
    (later : ∃ k j, start.searchPath.rootIndex winner = some k ∧
      start.searchPath.rootIndex event.1 = some j ∧ k < j) :
    (s.changeFile lib event.1 event.2).2.index.fileOf? name = some winner := by
  obtain ⟨k, j, rank, rank', before⟩ := later
  rcases s.changeFile_cases lib event.1 event.2 with ⟨-, -, same⟩ | ⟨_, _, -, -, -, same⟩ |
    ⟨_, _, _, -, -, -, -, -, same⟩ | ⟨other, tree, indexed, -, yields, -, put⟩
  · rw [same, behind]
  · rw [same, behind]
  · rw [same, behind]
  · rw [put, Index.fileOf?_put]
    split
    · rename_i matching
      subst matching
      obtain ⟨shape, present, -⟩ := h.earliest winner behind
      obtain ⟨found, -, -⟩ := SearchPath.indexName_eq_some_iff.mp indexed
      have shape' := (h.searchPath ▸ normal).normalize_of_moduleName found
      have below := Index.rank_le_of_not_keepsPlace (yields winner behind) present shape shape'
        (by rw [h.searchPath]; exact rank)
        (by rw [h.searchPath, fileOf, h.searchPath, SearchPath.rootIndex_normalize normal.home,
          SearchPath.rootIndex_normalize normal.home]; exact rank')
      exact absurd before (not_lt.mpr below)
    · exact behind

end State

namespace Engine

/-- New texts of files that all exist keep the precedence of the roots: the file behind a name is
below an earliest root of all that could have taken the name, be it the file that was behind it or
one that got a text. So a file of a later root never takes the name from one of an earlier root, and
the order of the texts does not matter for the root that wins. -/
theorem changes_keep_precedence {e : Engine} (reached : Reachable e) (lib : Library) (name : String)
    (events : List (Path × String))
    (begun : ∀ file, e.state.index.fileOf? name = some file → lib.sources.contains file)
    (present : ∀ event ∈ events, lib.sources.contains (e.state.fileOf event.1)) :
    let before := e.state.index
    let after (events : List (Path × String)) : Index := (e.state.changeAll lib events).index
    (after events).searchPath = before.searchPath ∧
    (∀ file, (after events).fileOf? name = some file →
      ∃ k, before.searchPath.rootIndex file = some k ∧
        IsLeast (before.rivals lib name events) k) ∧
    (name ≠ "" → Builtin.isReserved name = false →
      ((after events).fileOf? name = none ↔ before.rivals lib name events = ∅)) ∧
    (∀ earlier event rest winner, events = earlier ++ event :: rest →
      (after earlier).fileOf? name = some winner →
      (∃ k j, before.searchPath.rootIndex winner = some k ∧
        before.searchPath.rootIndex event.1 = some j ∧ k < j) →
      (after (earlier ++ [event])).fileOf? name = some winner) ∧
    (∀ other : List (Path × String), other.Perm events →
      ((after other).fileOf? name).bind before.searchPath.rootIndex =
        ((after events).fileOf? name).bind before.searchPath.rootIndex) := by
  intro before after
  have well := reached.wellFormed
  refine ⟨State.searchPath_changeAll lib events e.state, ?_⟩
  by_cases ordinary : name ≠ "" ∧ Builtin.isReserved name = false
  · obtain ⟨nonempty, free⟩ := ordinary
    have leads : ∀ some_events : List (Path × String), (∀ event ∈ some_events, event ∈ events) →
        (after some_events).Leads before lib name some_events :=
      fun some_events among => State.leads_changeAll well.path nonempty free (well.leads begun)
        some_events fun event member _ => present event (among event member)
    have final := leads events fun _ member => member
    refine ⟨?_, ?_, ?_, ?_⟩
    · intro file behind
      exact (final.earliest file behind).2.2
    · intro _ _
      refine ⟨final.bare, ?_⟩
      intro nobody
      cases behind : (after events).fileOf? name with
      | none => rfl
      | some file =>
        obtain ⟨-, -, k, -, least⟩ := final.earliest file behind
        have rival := least.1
        rw [nobody] at rival
        exact absurd rival (Set.notMem_empty k)
    · intro earlier event rest winner parts behind later
      have earlier_leads := leads earlier fun other member =>
        parts ▸ List.mem_append_left _ member
      simp only [after, State.changeAll_append]
      exact State.keeps_name well.path earlier_leads event behind later
    · intro other order
      exact final.rank_eq (leads other fun event member => order.mem_iff.mp member)
        (before.rivals_perm lib name order)
  · -- Such a name never has a file.
    have special : name = "" ∨ Builtin.isReserved name = true := by
      rw [not_and_or, not_not, Bool.not_eq_false] at ordinary
      exact ordinary
    have nobody : ∀ some_events, (after some_events).fileOf? name = none := fun some_events =>
      (State.wellFormed_changeAll well lib some_events).fileOf?_eq_none special
    refine ⟨?_, ?_, ?_, ?_⟩
    · intro file behind
      rw [nobody] at behind
      exact absurd behind.symm (Option.some_ne_none file)
    · intro nonempty free
      exact absurd ⟨nonempty, free⟩ ordinary
    · intro earlier event rest winner _ behind
      rw [nobody] at behind
      exact absurd behind.symm (Option.some_ne_none winner)
    · intro other _
      rw [nobody, nobody]

theorem changes_keep_precedence_of_first_root :
    let h : Host := ⟨.ofEntries ⟨"/"⟩ [], ⟨"/"⟩, ⟨0, 0⟩⟩
    let lib : Library :=
      ⟨⟨fun _ => .ok "", fun file => file = ⟨"/a/x.py"⟩ ∨ file = ⟨"/b/x.py"⟩⟩,
        fun text => if text = "x = (" then .error (.malformed none) else .ok []⟩
    let fresh := ((initial {} ⟨"/"⟩).rebuild "/a:/b" .never h).2.1
    let e := fresh.withState (fresh.state.changeFile lib ⟨"/b/x.py"⟩ "").2
    let events : List (Path × String) :=
      [(⟨"/a/x.py"⟩, "x = ("), (⟨"/a/./x.py"⟩, ""), (⟨"/b/x.py"⟩, "x = 1")]
    let after := (e.state.changeAll lib events).index
    Reachable e ∧ e.state.index.fileOf? "x" = some ⟨"/b/x.py"⟩ ∧
      after.fileOf? "x" = some ⟨"/a/x.py"⟩ ∧
      ∃ k, e.state.index.searchPath.rootIndex ⟨"/a/x.py"⟩ = some k ∧
        IsLeast (e.state.index.rivals lib "x" events) k := by
  intro h lib fresh e events after
  have home : (⟨"/"⟩ : Path).isAbsolute := by decide
  have run : Reachable e :=
    .changeFile (.rebuild (.initial {} home) "/a:/b" .never home) lib _ _
  have begun : e.state.index.fileOf? "x" = some ⟨"/b/x.py"⟩ := by decide +kernel
  have won : after.fileOf? "x" = some ⟨"/a/x.py"⟩ := by decide +kernel
  have present : ∀ event ∈ events, lib.sources.contains (e.state.fileOf event.1) := by
    decide +kernel
  obtain ⟨-, earliest, -⟩ := changes_keep_precedence run lib "x" events
    (fun file behind => by
      obtain rfl := Option.some.inj (begun.symm.trans behind)
      decide)
    present
  exact ⟨run, begun, won, earliest _ won⟩

end Engine

end ImportAtlas
