import ImportAtlas.Proofs.Entries

/-!
Which files provide modules. A rebuild, a restore and the removal of a file take up source files only.
The new text of a file is taken up under the name of the file, which a file without an extension has
like a directory; so such a file comes into the index, but only by its own event.
-/

set_option autoImplicit false

namespace ImportAtlas

/-- Whether the last name of a path has no dot. -/
def Path.Bare (p : Path) : Prop :=
  ∃ base, p.fileName? = some base ∧ '.' ∉ base.toList

namespace Path

private theorem isSourceFile_of_stripSourceExtension {p : Path} {base stem : String}
    (own : p.fileName? = some base) (h : SearchPath.stripSourceExtension base = some stem)
    (filled : stem ≠ "") : p.isSourceFile := by
  unfold SearchPath.stripSourceExtension at h
  split at h
  · rename_i before after cut
    split at h
    · rename_i known
      obtain rfl := Option.some.inj h
      have extension : p.extension? = some (String.ofList after) := by
        rw [extension?, own, Option.bind_some, splitExtension, cut]
        split
        · rename_i empty
          obtain ⟨rfl, -⟩ := Prod.mk.inj (Option.some.inj empty)
          exact absurd rfl filled
        · rename_i parts
          obtain ⟨-, rfl⟩ := Prod.mk.inj (Option.some.inj parts)
          rfl
        · rename_i missing
          simp at missing
      simp only [isSourceFile, extension, known]
    · simp at h
  · simp at h

private theorem isSourceFile_child (p : Path) {stem ext : String} (h : IsName stem)
    (known : ext ∈ sourceExtensions) : (p.child (stem ++ "." ++ ext)).isSourceFile := by
  have final : IsName (stem ++ "." ++ ext) := isName_append_extension h known
  have own : (p.child (stem ++ "." ++ ext)).fileName? = some (stem ++ "." ++ ext) := by
    simp [fileName?, components_child p final]
  have stripped := SearchPath.stripSourceExtension_append stem known
  exact isSourceFile_of_stripSourceExtension own stripped h.1

end Path

namespace SearchPath

variable {s : SearchPath}

private theorem exists_getLast?_of_segments {below : List Component} (filled : below ≠ [])
    {names : List String} {source : Bool} (h : segments below = some (names, source)) :
    ∃ base, below.getLast? = some (.normal base) ∧
      ((∃ stem, stripSourceExtension base = some stem ∧ isSegment stem) ∨ isSegment base) := by
  fun_induction segments below generalizing names source with
  | case1 => exact absurd rfl filled
  | case2 part stem stripped segment => exact ⟨part, rfl, Or.inl ⟨stem, stripped, segment⟩⟩
  | case3 => simp at h
  | case4 part stripped segment => exact ⟨part, rfl, Or.inr segment⟩
  | case5 => simp at h
  | case6 part rest more segment ih =>
    obtain ⟨⟨left, ended⟩, found, -⟩ := Option.map_eq_some_iff.mp h
    obtain ⟨base, last, kind⟩ := ih more found
    exact ⟨base, by rw [List.getLast?_cons_of_ne_nil more, last], kind⟩
  | case7 => simp at h
  | case8 => simp at h

/-- What is indexed under a name is a source file or has a name without a dot. -/
theorem isSourceFile_or_bare_of_moduleName {p : Path} (normal : p.IsNormal) {name : String}
    (h : s.moduleName p = some name) (nonempty : name ≠ "") : p.isSourceFile ∨ p.Bare := by
  simp only [moduleName, normal.normalize_eq, Option.bind_eq_bind] at h
  obtain ⟨⟨i, root⟩, longest, rest⟩ := Option.bind_eq_some_iff.mp h
  obtain ⟨below, behind, named⟩ := Option.bind_eq_some_iff.mp rest
  obtain ⟨names, source, found, -⟩ := exists_segments_of_nameBelow named
  have filled : below ≠ [] := by
    rintro rfl
    exact nonempty (Option.some.inj named).symm
  obtain ⟨base, last, kind⟩ := exists_getLast?_of_segments filled found
  have own : p.fileName? = some base := by
    simp [Path.fileName?, eq_append_of_componentsAfter behind, List.getLast?_append, last]
  rcases kind with ⟨stem, stripped, segment⟩ | segment
  · exact Or.inl (Path.isSourceFile_of_stripSourceExtension own stripped (isSegment_iff.mp segment).1)
  · exact Or.inr ⟨base, own, (isSegment_iff.mp segment).2⟩

theorem isSourceFile_of_mem_candidates {name : String} {file : Path}
    (h : file ∈ s.candidates name) : file.isSourceFile := by
  obtain ⟨root, -, parts, filled, clean, place⟩ := exists_place_of_mem_candidates h
  obtain ⟨dirs, stem, ext, known, rfl, shape⟩ := (mem_places_iff filled clean).mp place
  exact Path.isSourceFile_child _ (isPart_of_place clean shape stem (by simp)).isName known

end SearchPath

namespace Folder

mutual
private theorem isSourceFile_of_mem_filesWhere {enter : Folder → Bool} {file : Path} :
    (folder : Folder) → (place : Path) → file ∈ filesWhere enter place folder → file.isSourceFile
  | .file, place, member => by
    simp only [filesWhere] at member
    split at member
    · rename_i source
      obtain rfl := List.mem_singleton.mp member
      exact source
    · simp at member
  | .dir entries, place, member => isSourceFile_of_mem_entryFiles entries place member

private theorem isSourceFile_of_mem_entryFiles {enter : Folder → Bool} {file : Path} :
    (entries : List (String × Folder)) → (place : Path) → file ∈ entryFiles enter place entries →
      file.isSourceFile
  | [], _, member => by simp [entryFiles] at member
  | (name, folder) :: rest, place, member => by
    simp only [entryFiles, List.mem_append] at member
    rcases member with here | later
    · split at here
      · exact isSourceFile_of_mem_filesWhere folder _ here
      · simp at here
    · exact isSourceFile_of_mem_entryFiles rest place later
end

end Folder

theorem Disk.isSourceFile_of_mem_sourceFiles {d : Disk} {roots : List Path} {file : Path}
    (h : file ∈ d.sourceFiles roots) : file.isSourceFile := by
  obtain ⟨root, -, inside⟩ := List.mem_flatMap.mp h
  split at inside
  · exact Folder.isSourceFile_of_mem_filesWhere _ _ inside
  · simp at inside

def Module.FileIs (P : Path → Prop) (m : Module) : Prop :=
  ∀ file, m.file = some file → P file

namespace Module

variable {P : Path → Prop} {m n : Module}

private theorem fileIs_of_eq_some {file : Path} (backed : m.file = some file) (h : P file) :
    m.FileIs P := by
  intro other same
  obtain rfl := Option.some.inj (backed.symm.trans same)
  exact h

private theorem fileIs_of_eq_none (bare : m.file = none) : m.FileIs P := by
  intro file backed
  rw [bare] at backed
  simp at backed

private theorem FileIs.loaded {lib : Library} (h : m.FileIs P) (ok : m.loaded lib = .ok n) :
    n.FileIs P := by
  intro file backed
  rw [(key_of_loaded ok).2.1] at backed
  exact h file backed

end Module

namespace Index

variable {i : Index} {P : Path → Prop}

def FilesAre (i : Index) (P : Path → Prop) : Prop :=
  ∀ name file, i.fileOf? name = some file → P file

private theorem filesAre_iff : i.FilesAre P ↔ i.ModulesAre (Module.FileIs P) := by
  refine ⟨fun h name m found file backed => ?_, fun h name file behind => ?_⟩
  · exact h name file (Option.bind_eq_some_iff.mpr ⟨m, found, backed⟩)
  · obtain ⟨m, found, backed⟩ := Option.bind_eq_some_iff.mp behind
    exact h name m found file backed

private theorem WellFormed.fileIs_of_mem_keys (well : i.WellFormed)
    (h : i.ModulesAre (Module.FileIs P)) {key : ModuleKey} (member : key ∈ i.keys) :
    (Module.placeholder key).FileIs P := by
  rw [well.keys_eq] at member
  obtain ⟨⟨name, m⟩, inside, rfl⟩ := List.mem_map.mp member
  exact h name m (NameMap.get?_of_mem well.ordered inside)

end Index

namespace State

variable {s : State}

private theorem changeFile_of_other_extension (well : s.index.WellFormed) (lib : Library)
    (path : Path) (text : String) (other : (s.fileOf path).isSourceFile = false)
    (dotted : ¬(s.fileOf path).Bare) :
    s.changeFile lib path text = (.error (.outside (s.fileOf path)), s) := by
  cases named : s.index.searchPath.moduleName (s.fileOf path) with
  | none => simp only [changeFile, named]
  | some name =>
    have normal : (s.fileOf path).IsNormal := well.path.normalize_of_moduleName
      ((SearchPath.moduleName_normalize well.path.home path).symm.trans named)
    have unnamed : name = "" := by
      by_contra nonempty
      rcases SearchPath.isSourceFile_or_bare_of_moduleName normal named nonempty with source | bare
      · exact Bool.false_ne_true (other.symm.trans source)
      · exact dotted bare
    simp only [changeFile, named, unnamed, if_true]

end State

namespace Engine

/-- The engines that runs lead to in which every new text is of a file that `edited` admits, and so
in the runs that have stored what a restore finds. -/
inductive ReachableBy (edited : Path → Prop) : Engine → Prop
  | initial (config : Config) {cwd : Path} (home : cwd.isAbsolute) :
      ReachableBy edited (.initial config cwd)
  | rebuild {e : Engine} (before : ReachableBy edited e) (text : String) (cancel : Cancellation)
      {h : Host} (home : h.disk.cwd.isAbsolute) :
      ReachableBy edited (e.rebuild text cancel h).2.1
  | restore {e writer after : Engine} {size : Nat} (before : ReachableBy edited e)
      (written : ReachableBy edited writer) (text : String) {h : Host}
      (home : h.disk.cwd.isAbsolute)
      (stored : e.storedKeys text h = .ok writer.state.index.keys)
      (restored : e.restoreStored text h = .ok (size, after)) : ReachableBy edited after
  | changeFile {e : Engine} (before : ReachableBy edited e) (lib : Library) (path : Path)
      (text : String) (admitted : edited (e.state.fileOf path)) :
      ReachableBy edited (e.withState (e.state.changeFile lib path text).2)
  | removeFile {e : Engine} (before : ReachableBy edited e) (lib : Library) (path : Path) :
      ReachableBy edited (e.withState (e.state.removeFile lib path).2)
  | removeDirectory {e : Engine} (before : ReachableBy edited e) (path : Path) :
      ReachableBy edited (e.withState (e.state.removeDirectory path).2)
  | resolve {e : Engine} (before : ReachableBy edited e) (lib : Library) (name : String) :
      ReachableBy edited (e.withState (e.state.resolve lib name).2)
  | atCursor {e : Engine} (before : ReachableBy edited e) (lib : Library) (m : Module)
      (activation : String) :
      ReachableBy edited (e.withState (Completion.atCursor lib m activation e.state).2)
  | inImport {e : Engine} (before : ReachableBy edited e) (lib : Library) (raw : String) :
      ReachableBy edited (e.withState (Completion.inImport lib raw e.state).2)
  | preload {e : Engine} (before : ReachableBy edited e) (lib : Library) (cancel : Cancellation)
      {names : List String} (order : names.Perm e.state.index.unloaded) :
      ReachableBy edited (e.withState (e.state.preloadNames lib cancel names).2)

variable {edited : Path → Prop} {e : Engine}

private theorem ReachableBy.reachable (run : ReachableBy edited e) : Reachable e := by
  induction run with
  | initial config home => exact .initial config home
  | rebuild _ text cancel home ih => exact .rebuild ih text cancel home
  | restore _ _ text home stored restored ih ih_writer =>
    exact .restore ih ih_writer text home stored restored
  | changeFile _ lib path text _ ih => exact .changeFile ih lib path text
  | removeFile _ lib path ih => exact .removeFile ih lib path
  | removeDirectory _ path ih => exact .removeDirectory ih path
  | resolve _ lib name ih => exact .resolve ih lib name
  | atCursor _ lib m activation ih => exact .atCursor ih lib m activation
  | inImport _ lib raw ih => exact .inImport ih lib raw
  | preload _ lib cancel order ih => exact .preload ih lib cancel order

theorem reachable_iff_reachableBy : Reachable e ↔ ReachableBy (fun _ => True) e := by
  refine ⟨fun run => ?_, ReachableBy.reachable⟩
  induction run with
  | initial config home => exact .initial config home
  | rebuild _ text cancel home ih => exact .rebuild ih text cancel home
  | restore _ _ text home stored restored ih ih_writer =>
    exact .restore ih ih_writer text home stored restored
  | changeFile _ lib path text ih => exact .changeFile ih lib path text trivial
  | removeFile _ lib path ih => exact .removeFile ih lib path
  | removeDirectory _ path ih => exact .removeDirectory ih path
  | resolve _ lib name ih => exact .resolve ih lib name
  | atCursor _ lib m activation ih => exact .atCursor ih lib m activation
  | inImport _ lib raw ih => exact .inImport ih lib raw
  | preload _ lib cancel order ih => exact .preload ih lib cancel order

private theorem ReachableBy.filesAre (run : ReachableBy edited e) :
    e.state.index.FilesAre fun file => file.isSourceFile ∨ edited file := by
  rw [Index.filesAre_iff]
  induction run with
  | initial config home => exact Index.modulesAre_initial _ fun _ => Module.fileIs_of_eq_none rfl
  | rebuild before text cancel home ih =>
    refine ih.rebuild _ (fun name file member => ?_) (fun _ => Module.fileIs_of_eq_none rfl) cancel
    exact Module.fileIs_of_eq_some rfl (Or.inl (Disk.isSourceFile_of_mem_sourceFiles member))
  | restore before written text home stored restored _ ih_writer =>
    simp only [restoreStored, stored, Except.map, Except.ok.injEq] at restored
    obtain ⟨-, rfl⟩ := Prod.mk.inj restored
    refine Index.modulesAre_ofKeys _ (fun key member => ?_) fun _ => Module.fileIs_of_eq_none rfl
    exact written.reachable.wellFormed.fileIs_of_mem_keys ih_writer member
  | changeFile before lib path text admitted ih =>
    rw [state_withState]
    refine State.modulesAre_changeFile ih lib path text fun name tree => ?_
    rw [State.fileOf, Path.normalize_normalize before.reachable.wellFormed.path.home]
    exact Module.fileIs_of_eq_some rfl (Or.inr admitted)
  | removeFile before lib path ih =>
    rw [state_withState]
    refine State.modulesAre_removeFile ih (fun name file member => ?_) lib path
    exact Module.fileIs_of_eq_some rfl (Or.inl (SearchPath.isSourceFile_of_mem_candidates member))
  | removeDirectory before path ih =>
    rw [state_withState]
    exact State.modulesAre_removeDirectory before.reachable.wellFormed ih path
  | resolve _ lib name ih =>
    rw [state_withState]
    exact ih.resolve Module.FileIs.loaded name
  | atCursor _ lib m activation ih =>
    rw [state_withState]
    exact ih.lookups Module.FileIs.loaded (Completion.lookups_atCursor m activation _)
  | inImport _ lib raw ih =>
    rw [state_withState]
    exact ih.lookups Module.FileIs.loaded (Completion.lookups_inImport raw _)
  | preload _ lib cancel order ih =>
    rw [state_withState]
    exact ih.lookups Module.FileIs.loaded (State.lookups_preloadNames cancel _ _)

/-- The file behind a name is a source file, or it has a name without a dot and got there by a new
text of its own; so it is a source file in all runs in which no such file has a new text. The new
text of a file with another extension is refused and leaves the state as it was. -/
theorem indexed_files_are_sources_or_edited (run : ReachableBy edited e) :
    let i := e.state.index
    (∀ name file, i.fileOf? name = some file → file.isSourceFile ∨ (edited file ∧ file.Bare)) ∧
    ((∀ file, edited file → ¬file.Bare) →
      ∀ name file, i.fileOf? name = some file → file.isSourceFile) ∧
    (∀ lib path text, let file := e.state.fileOf path
      file.isSourceFile = false → ¬file.Bare →
        e.state.changeFile lib path text = (.error (.outside file), e.state)) := by
  intro i
  have well : i.WellFormed := run.reachable.wellFormed
  have kinds : ∀ name file, i.fileOf? name = some file →
      file.isSourceFile ∨ (edited file ∧ file.Bare) := by
    intro name file behind
    obtain ⟨nonempty, -, normal, named⟩ := well.of_fileOf? behind
    rcases SearchPath.isSourceFile_or_bare_of_moduleName normal named nonempty with source | bare
    · exact Or.inl source
    · exact (run.filesAre name file behind).imp_right fun admitted => ⟨admitted, bare⟩
  refine ⟨kinds, ?_, State.changeFile_of_other_extension well⟩
  intro extended name file behind
  rcases kinds name file behind with source | ⟨admitted, bare⟩
  · exact source
  · exact absurd bare (extended file admitted)

theorem indexed_files_are_sources_or_edited_after_removal :
    let h : Host := ⟨.ofEntries ⟨"/"⟩ [], ⟨"/"⟩, ⟨0, 0⟩⟩
    let lib : Library := ⟨⟨fun _ => .ok "", fun _ => true⟩, fun _ => .ok []⟩
    let fresh := ((initial {} ⟨"/"⟩).rebuild "/a:/b" .never h).2.1
    let first := fresh.withState (fresh.state.changeFile lib ⟨"/a/x.py"⟩ "").2
    let second := first.withState (first.state.changeFile lib ⟨"b/y"⟩ "").2
    let e := second.withState (second.state.removeFile lib ⟨"/a/x.py"⟩).2
    let edited (file : Path) : Prop := file = ⟨"/a/x.py"⟩ ∨ file = ⟨"/b/y"⟩
    ReachableBy edited e ∧ e.state.index.names = ["__builtin__", "sys", "x", "y"] ∧
      (∀ name file, e.state.index.fileOf? name = some file →
        file.isSourceFile ∨ (edited file ∧ file.Bare)) ∧
      (e.state.changeFile lib ⟨"/a/x.txt"⟩ "").1 = .error (.outside ⟨"/a/x.txt"⟩) := by
  intro h lib fresh first second e edited
  have home : (⟨"/"⟩ : Path).isAbsolute := by decide
  have begun : ReachableBy edited first :=
    .changeFile (.rebuild (.initial {} home) "/a:/b" .never home) lib _ _
      (Or.inl (by decide +kernel))
  have run : ReachableBy edited e :=
    .removeFile (.changeFile begun lib _ _ (Or.inr (by decide +kernel))) lib _
  obtain ⟨kinds, -, refused⟩ := indexed_files_are_sources_or_edited run
  have own : e.state.fileOf ⟨"/a/x.txt"⟩ = ⟨"/a/x.txt"⟩ := by decide +kernel
  have dotted : ¬(⟨"/a/x.txt"⟩ : Path).Bare := by
    rintro ⟨base, last, plain⟩
    have base_eq : (⟨"/a/x.txt"⟩ : Path).fileName? = some "x.txt" := by decide +kernel
    obtain rfl := Option.some.inj (base_eq.symm.trans last)
    exact plain (by decide)
  have answer := refused lib ⟨"/a/x.txt"⟩ "" (by rw [own]; decide +kernel) (by rw [own]; exact dotted)
  rw [own] at answer
  exact ⟨run, by decide +kernel, kinds, congrArg Prod.fst answer⟩

/-- A new text of `/a/x`, a file without an extension, takes the name of the source file `/a/x.py`;
and one of `/a/y` makes an entry of its own. -/
theorem bare_file_displaces_source_file :
    let disk : Disk :=
      .ofEntries ⟨"/"⟩ [(["a"], .dir), (["a", "x.py"], .file [])]
    let h : Host := ⟨disk, ⟨"/"⟩, ⟨0, 0⟩⟩
    let lib : Library := ⟨⟨fun _ => .ok "", fun _ => true⟩, fun _ => .ok []⟩
    let e := ((initial {} ⟨"/"⟩).rebuild "/a" .never h).2.1
    let displaced := (e.state.changeFile lib ⟨"/a/x"⟩ "").2.index
    let added := (e.state.changeFile lib ⟨"/a/y"⟩ "").2.index
    Reachable e ∧ e.state.index.fileOf? "x" = some ⟨"/a/x.py"⟩ ∧
      displaced.fileOf? "x" = some ⟨"/a/x"⟩ ∧ (⟨"/a/x"⟩ : Path).isSourceFile = false ∧
      e.state.index.contains "y" = false ∧ added.fileOf? "y" = some ⟨"/a/y"⟩ ∧
      (⟨"/a/y"⟩ : Path).isSourceFile = false := by
  intro disk h lib e displaced added
  have home : (⟨"/"⟩ : Path).isAbsolute := by decide
  exact ⟨.rebuild (.initial {} home) "/a" .never home, by decide +kernel, by decide +kernel,
    by decide +kernel, by decide +kernel, by decide +kernel, by decide +kernel⟩

end Engine

end ImportAtlas
