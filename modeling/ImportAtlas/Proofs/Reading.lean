import ImportAtlas.Build
import ImportAtlas.Proofs.Questions

/-!
What lookups read. Each reads the file of one placeholder at most, and none reads for the same entry
again: an entry that has been loaded is no placeholder any more, and one that could not be loaded is
gone.
-/

set_option autoImplicit false

namespace ImportAtlas

/-- An attempt to load the placeholder of a file, with the library at hand. -/
structure Load where
  lib : Library
  name : String
  file : Path

namespace Load

def placeholder (l : Load) : Module :=
  .placeholder ⟨l.name, some l.file⟩

def result (l : Load) : Except Failure Module :=
  l.placeholder.loaded l.lib

def accesses (l : Load) : List Access :=
  .read l.file ::
    match l.lib.sources.read l.file with
    | .ok text => [.parse text]
    | .error _ => []

end Load

namespace State

private theorem accesses_load (lib : Library) (name : String) (file : Path) (s : State) :
    (s.load lib ⟨name, some file⟩).2.accesses = s.accesses ++ (Load.mk lib name file).accesses := by
  simp only [load, readModule, parseModule, log, Load.accesses]
  cases lib.sources.read file with
  | error cause => rfl
  | ok text =>
    simp only
    cases lib.parser text with
    | error cause => simp [evict]
    | ok tree => simp [put]

private theorem accesses_load_builtin (lib : Library) (name : String) (s : State) :
    (s.load lib ⟨name, none⟩).2.accesses = s.accesses := by
  simp only [load]
  cases Builtin.ofName? name <;> rfl

end State

/-- What lookups that lead from one state to another have loaded: placeholders of the first state,
each name once. What a load has made stands in the later state, or nothing if it has failed. -/
structure Loads (s : State) (loads : List Load) (t : State) : Prop where
  accesses : t.accesses = s.accesses ++ loads.flatMap Load.accesses
  once : (loads.map Load.name).Nodup
  waiting : ∀ l ∈ loads, s.index.get? l.name = some l.placeholder
  settled : ∀ l ∈ loads, t.index.get? l.name = l.result.toOption
  pending : ∀ name key, t.index.get? name = some (.placeholder key) →
    s.index.get? name = some (.placeholder key)
  names : ∀ name, t.index.contains name → s.index.contains name

namespace Loads

variable {s t : State} {loads : List Load}

private theorem start (s : State) : Loads s [] s := by
  refine ⟨by simp, by simp, by simp, by simp, ?_, ?_⟩
  · exact fun _ _ found => found
  · exact fun _ present => present

private theorem not_placeholder_of_loaded {lib : Library} {m : Module} {key : ModuleKey} :
    (m.loaded lib).toOption ≠ some (.placeholder key) := by
  intro made
  cases loaded : m.loaded lib with
  | error cause => simp [loaded, Except.toOption] at made
  | ok n =>
    simp only [loaded, Except.toOption, Option.some.injEq] at made
    have more := (Module.key_of_loaded loaded).2.2
    rw [made] at more
    exact Bool.false_ne_true more

private theorem fresh (h : Loads s loads t) {name : String} {key : ModuleKey}
    (found : t.index.get? name = some (.placeholder key)) : name ∉ loads.map Load.name := by
  intro before
  obtain ⟨l, member, rfl⟩ := List.mem_map.mp before
  exact not_placeholder_of_loaded ((h.settled l member).symm.trans found)

/-- What earlier loads have made stays as it is under one more lookup, and no name comes to wait. -/
theorem keeps (h : Loads s loads t) (well : t.index.WellFormed) (lib : Library) (name : String) :
    let after := (t.resolve lib name).2.index
    (∀ l ∈ loads, after.get? l.name = l.result.toOption) ∧
    (∀ other key, after.get? other = some (.placeholder key) →
      s.index.get? other = some (.placeholder key)) ∧
    (∀ other, after.contains other → s.index.contains other) := by
  intro after
  have later : Index.Later lib t.index after := well.later_resolve name
  refine ⟨?_, ?_, fun other present => h.names other (later.names other present)⟩
  · intro l member
    have made := h.settled l member
    simp only [after]
    rw [well.get?_resolve, made]
    split
    · cases result : l.result with
      | error cause => rfl
      | ok m =>
        have loaded : m.isLoaded := (Module.key_of_loaded result).2.2
        simp [Except.toOption, Module.loaded_of_isLoaded loaded]
    · rfl
  · intro other key found
    simp only [after] at found
    rw [well.get?_resolve] at found
    split at found
    · obtain ⟨m, -, made⟩ := Option.bind_eq_some_iff.mp found
      exact absurd made not_placeholder_of_loaded
    · exact h.pending other key found

private theorem resolve (h : Loads s loads t) (well : t.index.WellFormed) (lib : Library)
    (name : String) :
    ∃ more, (∀ l ∈ more, l.lib = lib) ∧ Loads s (loads ++ more) (t.resolve lib name).2 := by
  obtain ⟨settled, pending, names⟩ := h.keeps well lib name
  -- A lookup that reads nothing adds no load: whatever it finds is no placeholder of a file.
  have idle (same : (t.resolve lib name).2.accesses = t.accesses) :
      ∃ more, (∀ l ∈ more, l.lib = lib) ∧ Loads s (loads ++ more) (t.resolve lib name).2 := by
    refine ⟨[], by simp, ?_⟩
    rw [List.append_nil]
    exact ⟨same.trans h.accesses, h.once, h.waiting, settled, pending, names⟩
  cases found : t.index.get? (t.index.keyFor name) with
  | none => exact idle (by rw [State.resolve_of_missing found])
  | some m =>
    cases m with
    | source m => exact idle (by rw [State.resolve_of_isLoaded found rfl])
    | builtin table => exact idle (by rw [State.resolve_of_isLoaded found rfl])
    | placeholder key =>
      have asked : t.resolve lib name = t.load lib key := by
        unfold State.resolve
        rw [Index.entryFor_eq, found]
      obtain ⟨own, backing⟩ := key
      obtain rfl : own = t.index.keyFor name := (well.placed _ _ found).named
      cases backing with
      | none => exact idle (by rw [asked, State.accesses_load_builtin])
      | some file =>
        let l : Load := ⟨lib, t.index.keyFor name, file⟩
        refine ⟨[l], by simp [l], ?_, ?_, ?_, ?_, pending, names⟩
        · rw [asked, State.accesses_load, h.accesses]
          simp [l]
        · -- The name still waits, so that none of the earlier loads was for it.
          rw [List.map_append]
          refine List.nodup_append.mpr ⟨h.once, by simp, ?_⟩
          intro other before last same
          obtain rfl : last = l.name := by simpa using same
          rintro rfl
          exact h.fresh found before
        · intro other member
          rcases List.mem_append.mp member with before | new
          · exact h.waiting other before
          · obtain rfl := List.mem_singleton.mp new
            exact h.pending _ _ found
        · intro other member
          rcases List.mem_append.mp member with before | new
          · exact settled other before
          · obtain rfl := List.mem_singleton.mp new
            rw [well.get?_resolve, if_pos rfl, found]
            rfl

private theorem nodup_files (h : Loads s loads t) (well : s.index.WellFormed) :
    (loads.map Load.file).Nodup := by
  refine List.pairwise_map.mpr (List.Pairwise.imp_of_mem ?_ (List.pairwise_map.mp h.once))
  intro l l' member member' different same
  apply different
  refine well.name_eq_of_same_file (h.waiting l member) (h.waiting l' member') rfl rfl ?_
  rw [same]
  exact l'.file.same_self

end Loads

/-- A run of questions loads some placeholders of its first state, with the libraries of the
questions. -/
theorem State.exists_loads {s : State} {qs : List (Library × Question)} (well : s.index.WellFormed)
    (looking : ∀ q ∈ qs, q.2.looksUp) :
    ∃ loads, (∀ l ∈ loads, l.lib ∈ qs.map Prod.fst) ∧ Loads s loads (s.after qs) := by
  let Reached (t : State) : Prop := t.index.WellFormed ∧
    ∃ loads, (∀ l ∈ loads, l.lib ∈ qs.map Prod.fst) ∧ Loads s loads t
  have begun : Reached s := ⟨well, [], by simp, Loads.start s⟩
  refine (after_induction (P := Reached) looking ?_ begun).2
  rintro q member name t ⟨well, loads, own, before⟩
  obtain ⟨more, with_lib, later⟩ := before.resolve well q.1 name
  refine ⟨well.resolve name, loads ++ more, ?_, later⟩
  intro l inside
  rcases List.mem_append.mp inside with old | new
  · exact own l old
  · rw [with_lib l new]
    exact List.mem_map_of_mem member

namespace State

private theorem accesses_changeFile (lib : Library) (path : Path) (text : String) (s : State) :
    ∃ texts : List String,
      (s.changeFile lib path text).2.accesses = s.accesses ++ texts.map .parse := by
  have idle : ∃ texts : List String, s.accesses = s.accesses ++ texts.map .parse := ⟨[], by simp⟩
  simp only [changeFile, changeModule, parseText]
  split
  · exact idle
  · split
    · exact idle
    · split
      · exact idle
      · refine ⟨[text], ?_⟩
        cases lib.parser text with
        | error cause => rfl
        | ok tree =>
          simp only
          split <;> rfl

private theorem accesses_removeFile (lib : Library) (path : Path) (s : State) :
    (s.removeFile lib path).2.accesses = s.accesses := by
  unfold removeFile
  split <;> rfl

private theorem accesses_removeDirectory (path : Path) (s : State) :
    (s.removeDirectory path).2.accesses = s.accesses := by
  unfold removeDirectory
  split <;> rfl

private theorem accesses_indexReaction (lib : Library) (visit : Build.Visit) (s : State) :
    ∃ texts : List String,
      (Build.indexReaction lib visit s).state.accesses = s.accesses ++ texts.map .parse := by
  cases visit with
  | changed file text => exact accesses_changeFile lib file text s
  | removed file => exact ⟨[], by simp [Build.indexReaction, accesses_removeFile]⟩
  | directoryRemoved dir => exact ⟨[], by simp [Build.indexReaction, accesses_removeDirectory]⟩

end State

namespace Engine

inductive Changes (e : Engine) : Engine → Prop
  | rebuild (text : String) (cancel : Cancellation) (h : Host) :
      Changes e (e.rebuild text cancel h).2.1
  | restore {after : Engine} {size : Nat} (text : String) (h : Host)
      (restored : e.restoreStored text h = .ok (size, after)) : Changes e after
  | edit (lib : Library) (visit : Build.Visit) :
      Changes e (e.withState (Build.indexReaction lib visit e.state).state)

/-- A step that does not add a name: a question, or an operation that leaves the name without an
entry. -/
inductive Without (name : String) (e : Engine) : Engine → Prop
  | ask (lib : Library) {q : Question} (looks : q.looksUp) :
      Without name e (e.withState (q.ask lib e.state).2)
  | change {after : Engine} (changes : Changes e after) (reached : Reachable after)
      (absent : after.state.index.contains name = false) : Without name e after

private theorem accesses_restoreStored {e after : Engine} {text : String} {h : Host} {size : Nat}
    (restored : e.restoreStored text h = .ok (size, after)) :
    after.state.accesses = e.state.accesses := by
  simp only [restoreStored] at restored
  cases found : e.storedKeys text h with
  | error cause =>
    rw [found] at restored
    exact absurd restored (by simp [Except.map])
  | ok keys =>
    rw [found] at restored
    obtain ⟨-, rfl⟩ := Prod.mk.inj (Except.ok.inj restored)
    rfl

private theorem Changes.accesses {e after : Engine} (h : Changes e after) :
    ∃ texts : List String, after.state.accesses = e.state.accesses ++ texts.map .parse := by
  cases h with
  | rebuild text cancel h => exact ⟨[], (List.append_nil _).symm⟩
  | restore text h restored =>
    exact ⟨[], (accesses_restoreStored restored).trans (List.append_nil _).symm⟩
  | edit lib visit => exact State.accesses_indexReaction lib visit e.state

private theorem absent_of_without {name : String} {e after : Engine}
    (well : e.state.index.WellFormed) (absent : e.state.index.contains name = false)
    (steps : Relation.ReflTransGen (Without name) e after) :
    after.state.index.WellFormed ∧ after.state.index.contains name = false := by
  induction steps with
  | refl => exact ⟨well, absent⟩
  | @tail f _ _ step before =>
    obtain ⟨well, absent⟩ := before
    cases step with
    | change _ reached absent => exact ⟨reached.wellFormed, absent⟩
    | @ask lib q looks =>
      have looking : ∀ r ∈ [(lib, q)], r.2.looksUp := by simpa using looks
      refine ⟨State.wellFormed_after well looking, ?_⟩
      obtain ⟨loads, -, asked⟩ := State.exists_loads well looking
      rw [Bool.eq_false_iff]
      intro present
      exact Bool.false_ne_true (absent.symm.trans (asked.names name present))

/-- Making the index anew, be it from files or from stored keys, neither reads nor parses.
Questions that look modules up read the files of placeholders of the index that they find, each
once, and parse each text that was read, once. A name whose placeholder could not be loaded has no
entry any more, and as long as no change of the index brings the name back, no question loads it,
whatever else is asked and changed in between; a change itself reads nothing. -/
theorem placeholders_load_once {e : Engine} (run : Reachable e) :
    (∀ text cancel h, (e.rebuild text cancel h).2.1.state.accesses = e.state.accesses) ∧
    (∀ text h size after, e.restoreStored text h = .ok (size, after) →
      after.state.accesses = e.state.accesses) ∧
    (∀ after, Changes e after →
      ∃ texts : List String, after.state.accesses = e.state.accesses ++ texts.map .parse) ∧
    (∀ qs : List (Library × Question), (∀ q ∈ qs, q.2.looksUp) →
      let asked := e.state.after qs
      ∃ loads : List Load,
        asked.accesses = e.state.accesses ++ loads.flatMap Load.accesses ∧
        (loads.map Load.file).Nodup ∧ (loads.map Load.name).Nodup ∧
        (∀ l ∈ loads, l.lib ∈ qs.map Prod.fst ∧
          e.state.index.get? l.name = some l.placeholder ∧
          asked.index.get? l.name = l.result.toOption) ∧
        (∀ l ∈ loads, ∀ cause, l.result = .error cause →
          ∀ later, Relation.ReflTransGen (Without l.name) (e.withState asked) later →
            later.state.index.contains l.name = false ∧
            ∀ (lib : Library) (q : Question), q.looksUp → ∃ more : List Load,
              (q.ask lib later.state).2.accesses =
                later.state.accesses ++ more.flatMap Load.accesses ∧
              ∀ l' ∈ more, l'.lib = lib ∧ l'.name ≠ l.name ∧
                later.state.index.get? l'.name = some l'.placeholder)) := by
  refine ⟨fun _ _ _ => rfl, ?_, fun _ changes => changes.accesses, ?_⟩
  · intro text h size after restored
    exact accesses_restoreStored restored
  · intro qs looking asked
    obtain ⟨loads, own, loaded⟩ := State.exists_loads run.wellFormed looking
    refine ⟨loads, loaded.accesses, loaded.nodup_files run.wellFormed, loaded.once, ?_, ?_⟩
    · intro l member
      exact ⟨own l member, loaded.waiting l member, loaded.settled l member⟩
    · intro l member cause failed later steps
      -- The failed load has left no entry, and from there on the name is absent in every engine.
      have gone : asked.index.contains l.name = false := by
        have nothing := loaded.settled l member
        rw [failed] at nothing
        exact Index.contains_eq_false_iff.mpr nothing
      have well : asked.index.WellFormed := State.wellFormed_after run.wellFormed looking
      obtain ⟨well', absent⟩ := absent_of_without (e := e.withState asked) well gone steps
      refine ⟨absent, ?_⟩
      intro lib q looks
      have alone : ∀ r ∈ [(lib, q)], r.2.looksUp := by simpa using looks
      obtain ⟨more, with_lib, asked_more⟩ := State.exists_loads well' alone
      refine ⟨more, asked_more.accesses, ?_⟩
      intro l' member'
      have waits := asked_more.waiting l' member'
      refine ⟨by simpa using with_lib l' member', ?_, waits⟩
      intro same
      have present : later.state.index.contains l.name := by
        rw [← same]
        exact Option.isSome_of_eq_some waits
      exact Bool.false_ne_true (absent.symm.trans present)

theorem placeholders_load_once_of_two_roots :
    let disk : Disk :=
      .ofEntries ⟨"/"⟩ [(["a"], .dir), (["a", "x.py"], .file []), (["b"], .dir),
          (["b", "y.py"], .file [])]
    let h : Host := ⟨disk, ⟨"/"⟩, ⟨0, 0⟩⟩
    let lib : Library :=
      ⟨⟨fun file => if file = ⟨"/a/x.py"⟩ then .error ⟨.notFound, "gone"⟩ else .ok "",
        fun _ => true⟩,
        fun _ => .ok []⟩
    let e := ((initial {} ⟨"/"⟩).rebuild "/a:/b" .never h).2.1
    let qs := [Question.resolve "x", .resolve "y", .resolve "x", .preload .never ["y", "sys"]]
    let asked := e.state.after (qs.map fun q => (lib, q))
    Reachable e ∧ asked.accesses = [.read ⟨"/a/x.py"⟩, .read ⟨"/b/y.py"⟩, .parse ""] ∧
      asked.index.names = ["__builtin__", "sys", "y"] ∧
      ∃ loads : List Load, asked.accesses = loads.flatMap Load.accesses ∧
        (loads.map Load.file).Nodup ∧
        ∀ l ∈ loads, e.state.index.get? l.name = some l.placeholder := by
  intro disk h lib e qs asked
  have home : (⟨"/"⟩ : Path).isAbsolute := by decide
  have run : Reachable e := .rebuild (.initial {} home) "/a:/b" .never home
  obtain ⟨-, -, -, questions⟩ := placeholders_load_once run
  obtain ⟨loads, accesses, files, -, waiting, -⟩ := questions (qs.map fun q => (lib, q)) (by decide)
  refine ⟨run, by decide +kernel, by decide +kernel, loads, accesses, files, ?_⟩
  intro l member
  exact (waiting l member).2.1

end Engine

end ImportAtlas
