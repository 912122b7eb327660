import ImportAtlas.Proofs.Precedence
import ImportAtlas.Proofs.Questions

/-!
What becomes of a name whose file is gone. The removal of a file concerns the entry of that file and
no other, and hands the name on to another file, if there is an entry to remove. A question that comes
before it can have thrown the entry away already, and then nothing hands the name on.
-/

set_option autoImplicit false

namespace ImportAtlas

theorem Path.normalize_eq_of_same {cwd p q : Path} (home : cwd.isAbsolute) (normal : q.IsNormal)
    (same : (normalize cwd p).same q) : normalize cwd p = q := by
  by_cases empty : p.text = ""
  · obtain ⟨text⟩ := p
    obtain rfl : text = "" := empty
    obtain ⟨names, clean, rfl⟩ := normal
    have parts : (normalize cwd ⟨""⟩).components = [] := by
      rw [normalize_of_empty cwd rfl]
      decide
    simp [Path.same, parts, components_ofNames clean] at same
  · exact (isNormal_normalize home empty).eq_of_same normal same

namespace Index

theorem fileOf?_erase (i : Index) (name : String) : (i.erase name).fileOf? name = none := by
  unfold fileOf? get? erase
  rw [NameMap.get?_erase, if_pos rfl]
  rfl

private theorem fileOf?_eq_none_of_absent {i : Index} {name : String}
    (absent : i.contains name = false) :
    i.fileOf? name = none := by
  rw [fileOf?, contains_eq_false_iff.mp absent]
  rfl

end Index

namespace State

variable {s : State} {name : String} {file : Path}

theorem removeFile_of_provided (lib : Library) {path : Path}
    (named : s.index.searchPath.moduleName (s.fileOf path) = some name)
    (provided : (s.index.fileOf? name).any (s.fileOf path).same) :
    ∃ t, s.removeFile lib path = (.ok true, t) ∧ t.index.searchPath = s.index.searchPath ∧
      (NameMap.Ordered s.index.modules → NameMap.Ordered t.index.modules) ∧
      ∀ other, t.index.get? other =
        if other = name then
          (s.index.successor lib.sources.contains name (s.fileOf path)).map fun next =>
            .placeholder ⟨name, some next⟩
        else s.index.get? other := by
  simp only [fileOf, Index.fileOf?] at named provided ⊢
  simp only [removeFile, Index.remove, named, provided, if_true]
  cases s.index.successor lib.sources.contains name
      (Path.normalize s.index.searchPath.cwd path) with
  | none =>
    refine ⟨_, rfl, rfl, fun ordered => NameMap.ordered_filter ordered _, fun other => ?_⟩
    rw [Index.get?, Index.erase, NameMap.get?_erase]
    rfl
  | some next =>
    refine ⟨_, rfl, rfl, fun ordered =>
      NameMap.ordered_put (NameMap.ordered_filter ordered _) _ _, fun other => ?_⟩
    simp only [Index.get?, Index.put, Index.erase, NameMap.get?_put, NameMap.get?_erase]
    split <;> rfl

theorem removeFile_of_not_provided (lib : Library) {path : Path}
    (named : s.index.searchPath.moduleName (s.fileOf path) = some name)
    (other : (s.index.fileOf? name).any (s.fileOf path).same = false) :
    s.removeFile lib path = (.ok false, s) := by
  simp only [fileOf, Index.fileOf?] at named other
  simp [removeFile, Index.remove, named, other]

private theorem removeFile_eq_of_behind (well : s.index.WellFormed) (lib : Library) {path : Path}
    (behind : s.index.fileOf? name = some (s.fileOf path)) :
    ∃ t, s.removeFile lib path = (.ok true, t) ∧ t.index.searchPath = s.index.searchPath ∧
      ∀ other, t.index.get? other =
        if other = name then
          (s.index.successor lib.sources.contains name (s.fileOf path)).map fun next =>
            .placeholder ⟨name, some next⟩
        else s.index.get? other := by
  obtain ⟨-, -, -, named⟩ := well.of_fileOf? behind
  have provided : (s.index.fileOf? name).any (s.fileOf path).same := by
    rw [behind]
    exact (s.fileOf path).same_self
  obtain ⟨t, removed, path, -, entries⟩ := removeFile_of_provided lib named provided
  exact ⟨t, removed, path, entries⟩

private theorem removeFile_of_behind (well : s.index.WellFormed) (lib : Library)
    (behind : s.index.fileOf? name = some file) :
    ∃ t, s.removeFile lib file = (.ok true, t) ∧
      t.index.fileOf? name = s.index.successor lib.sources.contains name file := by
  obtain ⟨-, -, normal, -⟩ := well.of_fileOf? behind
  have own : s.fileOf file = file := normal.normalize_eq _
  rw [← own] at behind
  obtain ⟨t, removed, -, entries⟩ := removeFile_eq_of_behind well lib behind
  refine ⟨t, removed, ?_⟩
  rw [Index.fileOf?, entries name, if_pos rfl, own]
  cases s.index.successor lib.sources.contains name file <;> rfl

private theorem removeFile_eq_of_not_behind (well : s.index.WellFormed) (lib : Library)
    {path : Path} (named : s.index.searchPath.moduleName path = some name)
    (other : s.index.fileOf? name ≠ some (s.fileOf path)) :
    s.removeFile lib path = (.ok false, s) := by
  have again := well.path.moduleName_normalize named
  have normal : (s.fileOf path).IsNormal := well.path.normalize_of_moduleName named
  refine removeFile_of_not_provided lib again ?_
  rw [Bool.eq_false_iff, ne_eq, Option.any_eq_true]
  rintro ⟨provider, found, same⟩
  obtain ⟨-, -, normal', -⟩ := well.of_fileOf? found
  exact other (by rw [normal.eq_of_same normal' same]; exact found)

private theorem removeFile_of_absent (lib : Library) (normal : file.IsNormal)
    (named : s.index.searchPath.moduleName file = some name)
    (absent : s.index.contains name = false) :
    s.removeFile lib file = (.ok false, s) := by
  have nobody : (s.index.get? name).bind Module.file = none :=
    Index.fileOf?_eq_none_of_absent absent
  simp [removeFile, Index.remove, normal.normalize_eq, named, nobody]

private theorem removeFile_of_unnamed (well : s.index.WellFormed) (lib : Library) {path : Path}
    (unnamed : s.index.searchPath.moduleName path = none) :
    s.removeFile lib path = (.error (.outside (s.fileOf path)), s) := by
  rw [← SearchPath.moduleName_normalize well.path.home] at unnamed
  simp only [removeFile, Index.remove, unnamed, fileOf]

private theorem any_files_iff (well : s.index.WellFormed) {path : Path} :
    s.index.files.any (s.fileOf path).same ↔
      ∃ name, s.index.searchPath.moduleName path = some name ∧
        s.index.fileOf? name = some (s.fileOf path) := by
  rw [List.any_eq_true]
  constructor
  · rintro ⟨file, member, same⟩
    obtain ⟨⟨name, m⟩, inside, backed⟩ := List.mem_filterMap.mp member
    have behind : s.index.fileOf? name = some file :=
      Option.bind_eq_some_iff.mpr ⟨m, NameMap.get?_of_mem well.ordered inside, backed⟩
    obtain ⟨-, -, normal, named⟩ := well.of_fileOf? behind
    obtain rfl : s.fileOf path = file :=
      Path.normalize_eq_of_same well.path.home normal same
    rw [fileOf, SearchPath.moduleName_normalize well.path.home] at named
    exact ⟨name, named, behind⟩
  · rintro ⟨name, -, behind⟩
    obtain ⟨m, found, backed⟩ := Option.bind_eq_some_iff.mp behind
    exact ⟨s.fileOf path, List.mem_filterMap.mpr ⟨(name, m), NameMap.mem_of_get? found, backed⟩,
      (s.fileOf path).same_self⟩

private theorem removeFile_of_gone (well : s.index.WellFormed) (lib : Library) {path : Path}
    (named : s.index.searchPath.moduleName path = some name)
    (gone : s.index.files.any (s.fileOf path).same = false) :
    s.removeFile lib path = (.ok false, s) := by
  refine removeFile_eq_of_not_behind well lib named fun behind => ?_
  rw [(any_files_iff well).mpr ⟨name, named, behind⟩] at gone
  exact Bool.noConfusion gone

/-- All that the removal of a file can do: the search path does not name the file, or the file is not
behind its name, or the name is handed on. -/
theorem removeFile_cases (well : s.index.WellFormed) (lib : Library) (path : Path) :
    let file := s.fileOf path
    (s.index.searchPath.moduleName path = none ∧ s.index.files.any file.same = false ∧
      s.removeFile lib path = (.error (.outside file), s)) ∨
    ∃ name, s.index.searchPath.moduleName path = some name ∧
      ((s.index.files.any file.same = false ∧ s.removeFile lib path = (.ok false, s)) ∨
      ∃ t, s.index.files.any file.same ∧ s.removeFile lib path = (.ok true, t) ∧
        t.index.searchPath = s.index.searchPath ∧ t.index.files.any file.same = false ∧
        ∀ other, t.index.get? other =
          if other = name then
            (s.index.successor lib.sources.contains name file).map fun next =>
              .placeholder ⟨name, some next⟩
          else s.index.get? other) := by
  intro file
  cases named : s.index.searchPath.moduleName path with
  | none =>
    refine Or.inl ⟨rfl, ?_, removeFile_of_unnamed well lib named⟩
    rw [Bool.eq_false_iff, ne_eq, any_files_iff well]
    rintro ⟨name, found, -⟩
    exact absurd (named.symm.trans found) (by simp)
  | some name =>
    refine Or.inr ⟨name, rfl, ?_⟩
    by_cases behind : s.index.fileOf? name = some file
    · right
      obtain ⟨t, removed, kept, entries⟩ := removeFile_eq_of_behind well lib behind
      have well' : t.index.WellFormed := by
        have after := wellFormed_removeFile well lib path
        rwa [removed] at after
      have same_file : t.fileOf path = file := by
        rw [fileOf, kept]
        rfl
      refine ⟨t, (any_files_iff well).mpr ⟨name, named, behind⟩, removed, kept, ?_, entries⟩
      rw [← same_file, Bool.eq_false_iff, ne_eq, any_files_iff well', kept, same_file]
      rintro ⟨other, found, again⟩
      obtain rfl := Option.some.inj (named.symm.trans found)
      -- The file that takes the name is another one.
      rw [Index.fileOf?, entries name, if_pos rfl] at again
      obtain ⟨m, placed, backed⟩ := Option.bind_eq_some_iff.mp again
      obtain ⟨next, chosen, rfl⟩ := Option.map_eq_some_iff.mp placed
      obtain rfl := Option.some.inj backed
      have different := List.find?_some chosen
      simp only [Bool.and_eq_true, Bool.not_eq_true'] at different
      exact Bool.false_ne_true (different.1.symm.trans file.same_self)
    · refine Or.inl ⟨?_, removeFile_eq_of_not_behind well lib named behind⟩
      rw [Bool.eq_false_iff, ne_eq, any_files_iff well]
      rintro ⟨other, found, again⟩
      obtain rfl := Option.some.inj (named.symm.trans found)
      exact behind again

/-- Questions leave an entry as it is or load it, or they throw it away, if its placeholder cannot
be loaded with the library of one of them. -/
theorem entry_after {qs : List (Library × Question)} {m : Module} (well : s.index.WellFormed)
    (looking : ∀ q ∈ qs, q.2.looksUp) (found : s.index.get? name = some m)
    (backed : m.file = some file) :
    (∃ n, (s.after qs).index.get? name = some n ∧ n.file = some file) ∨
    ((s.after qs).index.contains name = false ∧ m = .placeholder ⟨name, some file⟩ ∧
      ∃ q ∈ qs, ∃ cause, m.loaded q.1 = .error cause) := by
  -- While the entry is there it is `m` or what `m` has been loaded to; so it is lost as `m` only.
  let Left (t : State) : Prop := t.index.WellFormed ∧
    ((∃ n, t.index.get? name = some n ∧ n.file = some file ∧ (n = m ∨ n.isLoaded)) ∨
    (t.index.contains name = false ∧ m = .placeholder ⟨name, some file⟩ ∧
      ∃ q ∈ qs, ∃ cause, m.loaded q.1 = .error cause))
  have left : Left (s.after qs) := by
    refine after_induction looking ?_ ⟨well, Or.inl ⟨m, found, backed, Or.inl rfl⟩⟩
    rintro q member asked t ⟨well', entry⟩
    refine ⟨well'.resolve asked, ?_⟩
    rcases entry with ⟨n, stands, same_file, course⟩ | ⟨absent, rest⟩
    · have effect : (t.resolve q.1 asked).2.index.get? name = _ := well'.get?_resolve asked name
      rw [stands] at effect
      split at effect
      · cases result : n.loaded q.1 with
        | ok loaded =>
          obtain ⟨-, kept, more⟩ := Module.key_of_loaded result
          rw [Option.bind_some, result] at effect
          exact Or.inl ⟨loaded, effect, kept.trans same_file, Or.inr more⟩
        | error cause =>
          rw [Option.bind_some, result] at effect
          have waiting : n.isLoaded = false := by
            rw [Bool.eq_false_iff]
            intro more
            rw [Module.loaded_of_isLoaded more] at result
            exact absurd result (by simp)
          obtain rfl : n = m := course.resolve_right (by simp [waiting])
          have own : n.key = ⟨name, some file⟩ := by
            rw [Module.key, (well.placed name n found).named, backed]
          refine Or.inr ⟨?_, Module.eq_placeholder_iff.mpr ⟨own, waiting⟩, q, member, cause, result⟩
          exact Index.contains_eq_false_iff.mpr effect
      · exact Or.inl ⟨n, effect, same_file, course⟩
    · right
      refine ⟨?_, rest⟩
      have later : Index.Later q.1 t.index _ := well'.later_resolve asked
      rw [Bool.eq_false_iff] at absent ⊢
      exact fun present => absent (later.names name present)
  rcases left.2 with ⟨n, stands, same_file, -⟩ | lost
  · exact Or.inl ⟨n, stands, same_file⟩
  · exact Or.inr lost

end State

namespace Engine

/-- The removal of a file that is behind a name hands the name on to its first other file that
exists, if there is one. After questions it still does so if the name is still indexed. If the name
is not, then the entry was a placeholder that could not be loaded when a question asked for it, and
the removal finds no entry and leaves the name without one, whatever other files there are. -/
theorem removed_file_gives_way {e : Engine} (run : Reachable e) (lib : Library) {name : String}
    {file : Path} (behind : e.state.index.fileOf? name = some file)
    (qs : List (Library × Question)) (looking : ∀ q ∈ qs, q.2.looksUp) :
    let next := (e.state.index.searchPath.candidates name).find? fun other =>
      !other.same file && lib.sources.contains other
    let asked := e.state.after qs
    (∃ t, e.state.removeFile lib file = (.ok true, t) ∧ t.index.fileOf? name = next) ∧
    (asked.index.contains name →
      ∃ t, asked.removeFile lib file = (.ok true, t) ∧ t.index.fileOf? name = next) ∧
    (asked.index.contains name = false →
      e.state.index.get? name = some (.placeholder ⟨name, some file⟩) ∧
      (∃ q ∈ qs, ∃ cause, (Module.placeholder ⟨name, some file⟩).loaded q.1 = .error cause) ∧
      asked.removeFile lib file = (.ok false, asked) ∧ asked.index.fileOf? name = none) := by
  intro next asked
  have well := run.wellFormed
  have well' : asked.index.WellFormed := State.wellFormed_after well looking
  have path : asked.index.searchPath = e.state.index.searchPath := State.searchPath_after looking
  obtain ⟨m, found, backed⟩ := Option.bind_eq_some_iff.mp behind
  refine ⟨State.removeFile_of_behind well lib behind, ?_, ?_⟩
  · intro present
    rcases State.entry_after well looking found backed with ⟨n, stands, same_file⟩ | ⟨absent, -⟩
    · have still : asked.index.fileOf? name = some file := by
        rw [Index.fileOf?, stands]
        exact same_file
      obtain ⟨t, removed, handed⟩ := State.removeFile_of_behind well' lib still
      refine ⟨t, removed, handed.trans ?_⟩
      rw [Index.successor, path]
    · exact absurd (absent.symm.trans present) Bool.false_ne_true
  · intro absent
    rcases State.entry_after well looking found backed with ⟨n, stands, -⟩ | ⟨-, rfl, failed⟩
    · have present : asked.index.contains name := Option.isSome_of_eq_some stands
      exact absurd (absent.symm.trans present) Bool.false_ne_true
    · obtain ⟨-, -, normal, named⟩ := well.of_fileOf? behind
      rw [← path] at named
      exact ⟨found, failed, State.removeFile_of_absent lib normal named absent,
        Index.fileOf?_eq_none_of_absent absent⟩

theorem removed_file_gives_way_after_load :
    let disk : Disk :=
      .ofEntries ⟨"/"⟩ [(["a"], .dir), (["a", "x.py"], .file []), (["b"], .dir),
          (["b", "x.py"], .file [])]
    let h : Host := ⟨disk, ⟨"/"⟩, ⟨0, 0⟩⟩
    let lib (present : Path → Bool) : Library :=
      ⟨⟨fun file => if present file then .ok "" else .error ⟨.notFound, "gone"⟩, present⟩,
        fun _ => .ok []⟩
    let all := lib fun _ => true
    let left := lib fun file => file = ⟨"/b/x.py"⟩
    let e := ((initial {} ⟨"/"⟩).rebuild "/a:/b" .never h).2.1
    let asked := e.state.after [(all, .resolve "x"), (left, .resolve "x")]
    Reachable e ∧ e.state.index.fileOf? "x" = some ⟨"/a/x.py"⟩ ∧
      ∃ t, asked.removeFile left ⟨"/a/x.py"⟩ = (.ok true, t) ∧
        t.index.fileOf? "x" = some ⟨"/b/x.py"⟩ := by
  intro disk h lib all left e asked
  have home : (⟨"/"⟩ : Path).isAbsolute := by decide
  have run : Reachable e := .rebuild (.initial {} home) "/a:/b" .never home
  have behind : e.state.index.fileOf? "x" = some ⟨"/a/x.py"⟩ := by decide +kernel
  obtain ⟨-, still, -⟩ := removed_file_gives_way run left behind
    [(all, .resolve "x"), (left, .resolve "x")] (by decide)
  obtain ⟨t, removed, handed⟩ := still (by decide +kernel)
  exact ⟨run, behind, t, removed, handed.trans (by decide +kernel)⟩

/-- A question between the loss of a file and the event that tells of it: the placeholder is thrown
away, the event finds nothing to remove, and the file of the second root is not taken up. -/
theorem question_before_removal_loses_second_root :
    let disk : Disk :=
      .ofEntries ⟨"/"⟩ [(["a"], .dir), (["a", "x.py"], .file []), (["b"], .dir),
          (["b", "x.py"], .file [])]
    let h : Host := ⟨disk, ⟨"/"⟩, ⟨0, 0⟩⟩
    let left (file : Path) : Bool := file = ⟨"/b/x.py"⟩
    let lib : Library :=
      ⟨⟨fun file => if left file then .ok "" else .error ⟨.notFound, "gone"⟩, left⟩,
        fun _ => .ok []⟩
    let e := ((initial {} ⟨"/"⟩).rebuild "/a:/b" .never h).2.1
    let asked := e.state.after [(lib, .resolve "x")]
    Reachable e ∧ e.state.index.fileOf? "x" = some ⟨"/a/x.py"⟩ ∧
      (e.state.removeFile lib ⟨"/a/x.py"⟩).2.index.fileOf? "x" = some ⟨"/b/x.py"⟩ ∧
      (asked.removeFile lib ⟨"/a/x.py"⟩).2.index.fileOf? "x" = none := by
  intro disk h left lib e asked
  have home : (⟨"/"⟩ : Path).isAbsolute := by decide
  have run : Reachable e := .rebuild (.initial {} home) "/a:/b" .never home
  exact ⟨run, by decide +kernel, by decide +kernel, by decide +kernel⟩

/-- The removal of a file, however it is spelled, tells whether an entry had that file, and leaves none
that has it. It concerns the name of the file alone, which is handed on to the first other file of the
name that exists, or is gone if there is none. A removal that finds nothing changes nothing, and so
does each one that follows. A file that the search path does not name is refused. -/
theorem removed_file_is_gone {e : Engine} (run : Reachable e) (lib : Library) (path : Path) :
    let s := e.state
    let i := s.index
    let file := s.fileOf path
    let answer := (s.removeFile lib path).1
    let after := (s.removeFile lib path).2
    (answer = .ok true ↔ i.files.any file.same) ∧
    after.index.files.any file.same = false ∧
    after.index.searchPath = i.searchPath ∧
    (answer ≠ .ok true → after = s) ∧
    (i.searchPath.moduleName path = none → answer = .error (.outside file)) ∧
    ∀ name, i.searchPath.moduleName path = some name →
      (answer = .ok true ∨ answer = .ok false) ∧
      (∀ other, other ≠ name → after.index.get? other = i.get? other) ∧
      (answer = .ok true → after.index.get? name =
        ((i.searchPath.candidates name).find? fun next =>
          !next.same file && lib.sources.contains next).map fun next =>
            .placeholder ⟨name, some next⟩) ∧
      ∀ again, after.removeFile again path = (.ok false, after) := by
  intro s i file answer after
  have well : i.WellFormed := run.wellFormed
  have well' : after.index.WellFormed := State.wellFormed_removeFile well lib path
  have repeated : ∀ name, i.searchPath.moduleName path = some name →
      after.index.searchPath = i.searchPath → after.index.files.any file.same = false →
      ∀ again, after.removeFile again path = (.ok false, after) := by
    intro name named kept gone again
    have same_file : after.fileOf path = file := by
      rw [State.fileOf, kept]
      rfl
    rw [← kept] at named
    exact State.removeFile_of_gone well' again named (by rw [same_file]; exact gone)
  rcases State.removeFile_cases well lib path with ⟨unnamed, absent, same⟩ |
    ⟨name, named, ⟨absent, same⟩ | ⟨t, present, same, kept, gone, entries⟩⟩
  · have refused : answer = .error (.outside file) := congrArg Prod.fst same
    have stays : after = s := congrArg Prod.snd same
    have nobody : i.files.any file.same = false := absent
    rw [refused, stays]
    refine ⟨by simp only [nobody]; simp, nobody, rfl, fun _ => rfl, fun _ => rfl, ?_⟩
    intro name named
    exact absurd (unnamed.symm.trans named) (by simp)
  · have found : answer = .ok false := congrArg Prod.fst same
    have stays : after = s := congrArg Prod.snd same
    rw [stays] at repeated
    have nobody : i.files.any file.same = false := absent
    rw [found, stays]
    refine ⟨by simp only [nobody]; simp, nobody, rfl, fun _ => rfl, ?_, ?_⟩
    · exact fun unnamed => absurd (named.symm.trans unnamed) (by simp)
    · intro other own
      exact ⟨Or.inr rfl, fun _ _ => rfl, by simp, repeated other own rfl absent⟩
  · have found : answer = .ok true := congrArg Prod.fst same
    have handed : after = t := congrArg Prod.snd same
    rw [handed] at repeated
    rw [found, handed]
    refine ⟨iff_of_true rfl present, gone, kept, by simp, ?_, ?_⟩
    · exact fun unnamed => absurd (named.symm.trans unnamed) (by simp)
    · intro other own
      obtain rfl := Option.some.inj (named.symm.trans own)
      refine ⟨Or.inl rfl, ?_, fun _ => ?_, repeated name own kept gone⟩
      · intro other different
        rw [entries, if_neg different]
      · rw [entries, if_pos rfl]
        rfl

theorem removed_file_is_gone_of_other_spelling :
    let h : Host := ⟨.ofEntries ⟨"/"⟩ [], ⟨"/"⟩, ⟨0, 0⟩⟩
    let lib : Library := ⟨⟨fun _ => .ok "", fun file => file = ⟨"/a/b/x.py"⟩⟩, fun _ => .ok []⟩
    let fresh := ((initial {} ⟨"/"⟩).rebuild "/a:/a/b" .never h).2.1
    let e := fresh.withState (fresh.state.changeFile lib ⟨"/a/x.py"⟩ "").2
    let path : Path := ⟨"a/./c/../x.py"⟩
    let after := (e.state.removeFile lib path).2
    Reachable e ∧ e.state.index.fileOf? "x" = some ⟨"/a/x.py"⟩ ∧
      (e.state.removeFile lib path).1 = .ok true ∧
      after.index.get? "x" = some (.placeholder ⟨"x", some ⟨"/a/b/x.py"⟩⟩) ∧
      after.removeFile lib path = (.ok false, after) := by
  intro h lib fresh e path after
  have home : (⟨"/"⟩ : Path).isAbsolute := by decide
  have run : Reachable e :=
    .changeFile (.rebuild (.initial {} home) "/a:/a/b" .never home) lib _ _
  obtain ⟨told, -, -, -, -, effect⟩ := removed_file_is_gone run lib path
  obtain ⟨-, -, handed, again⟩ := effect "x" (by decide +kernel)
  have ok : (e.state.removeFile lib path).1 = .ok true := told.mpr (by decide +kernel)
  have next : (e.state.index.searchPath.candidates "x").find? (fun next =>
      !next.same (e.state.fileOf path) && lib.sources.contains next) = some ⟨"/a/b/x.py"⟩ := by
    decide +kernel
  have placed := handed ok
  rw [next] at placed
  exact ⟨run, by decide +kernel, ok, placed, again lib⟩

end Engine

end ImportAtlas
