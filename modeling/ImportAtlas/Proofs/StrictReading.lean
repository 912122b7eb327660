import ImportAtlas.Proofs.DiskDirs
import ImportAtlas.Proofs.RelativeImports
import ImportAtlas.Proofs.WarmStart
import ImportAtlas.Proofs.WellFormedText

/-!
The file that a completion on the command line is for. The index reads a file with replacement
characters for what is not well formed, the command takes no such file. On a text that is well formed
they read the same, and what the command works with is the module that the index has.
-/

set_option autoImplicit false

namespace ImportAtlas

/-! The name at the end of a path to a file. -/

namespace Path

private theorem exists_first_piece {p : Path} (relative : p.isAbsolute = false)
    (nonempty : p.text ≠ "") :
    ∃ first rest, Text.split '/' p.text = first :: rest ∧ first ≠ "" := by
  obtain ⟨c, cs, chars⟩ := List.exists_cons_of_ne_nil
    (fun empty => nonempty (String.toList_inj.mp empty) : p.text.toList ≠ [])
  have start : c ≠ '/' := by
    rintro rfl
    simp [isAbsolute, chars] at relative
  obtain ⟨piece, others, parts⟩ := List.exists_cons_of_ne_nil (Text.splitChars_ne_nil '/' cs)
  refine ⟨String.ofList (c :: piece), others.map String.ofList, ?_, ?_⟩
  · simp [Text.split, chars, Text.splitChars, start, parts]
  · intro empty
    simpa using congrArg String.toList empty

private theorem components_ne_nil {p : Path} (nonempty : p.text ≠ "") : p.components ≠ [] := by
  cases absolute : p.isAbsolute with
  | true =>
    obtain ⟨steps, parts, -⟩ := components_of_absolute absolute
    simp [parts]
  | false =>
    obtain ⟨first, rest, pieces, filled⟩ := exists_first_piece absolute nonempty
    by_cases dot : first = "."
    · simp [components, absolute, pieces, dot]
    · by_cases up : first = ".."
      · simp [components, absolute, pieces, up, componentOf]
      · simp [components, absolute, pieces, dot, up, filled, componentOf]

private theorem isPackageInit_eq {p q : Path} (same : p.fileName? = q.fileName?) :
    p.isPackageInit = q.isPackageInit := by
  simp only [isPackageInit, isSourceFile, extension?, stem?, same]

end Path

namespace Disk

variable {d : Disk} {here location : Location}

/-- A walk that leads to a file leads there by a name. -/
theorem Walks.exists_last {follow : Bool} {links : Nat} {steps : List Component} {stop : Stop}
    (h : d.Walks follow links here steps stop) (solid : d.Solid here) {bytes : List UInt8}
    (file : stop.entry = some (.file bytes)) : ∃ name, steps.getLast? = some (.normal name) := by
  have later {step : Component} {rest : List Component}
      (ends : ∃ name, rest.getLast? = some (.normal name)) :
      ∃ name, (step :: rest).getLast? = some (.normal name) := by
    obtain ⟨name, last⟩ := ends
    exact ⟨name, by simp [List.getLast?_cons, last]⟩
  -- A link in the middle changes the steps ahead, but not the last one.
  induction h with
  | done links here =>
    have stands := solid here (List.prefix_refl _)
    simp [stands] at file
  | root _ ih => exact later (ih (solid_nil d) file)
  | current _ ih => exact later (ih solid file)
  | parent _ ih => exact later (ih solid.dropLast file)
  | dir found _ ih => exact later (ih (solid.concat found) file)
  | @link _ _ name _ rest _ _ _ _ ih =>
    by_cases last : rest = []
    · exact ⟨name, by simp [last]⟩
    · obtain ⟨name', ends⟩ := ih solid file
      rw [List.getLast?_append_of_ne_nil _ last] at ends
      exact later ⟨name', ends⟩
  | @last _ _ name _ => exact ⟨name, rfl⟩

private theorem getLast?_stepsOf (d : Disk) {p : Path} (nonempty : p.text ≠ "") :
    (d.stepsOf p).getLast? =
      if p.text.toList.getLast? = some '/' then some .current else p.components.getLast? := by
  have inside : p.components ≠ [] := Path.components_ne_nil nonempty
  unfold stepsOf
  by_cases slash : p.text.toList.getLast? = some '/'
  · cases p.isAbsolute <;> simp [slash]
  · cases p.isAbsolute <;> simp [slash, List.getLast?_append_of_ne_nil _ inside]

private theorem exists_fileName_of_read {p : Path} {bytes : List UInt8} (h : d.read p = .ok bytes) :
    ∃ base, p.fileName? = some base := by
  obtain ⟨location, located⟩ : ∃ location, d.locate p = .ok (location, some (.file bytes)) := by
    unfold read at h
    split at h
    · exact absurd h (by simp)
    · rename_i location _ found
      exact ⟨location, Except.ok.inj h ▸ found⟩
    all_goals exact absurd h (by simp)
  obtain ⟨links, reached⟩ := locateWith_eq_ok_iff.mp located
  have nonempty : p.text ≠ "" := by
    intro empty
    simp [reach, empty] at reached
  rw [reach, if_neg nonempty] at reached
  obtain ⟨name, last⟩ := (walks_of_walk reached).exists_last (solid_nil d) rfl
  rw [getLast?_stepsOf d nonempty] at last
  split at last
  · simp at last
  · exact ⟨name, by simp [Path.fileName?, last]⟩

end Disk

private theorem Disk.exists_bytes_of_readText {d : Disk} {p : Path} {text : String}
    (h : d.readText p = .ok text) : ∃ bytes, d.read p = .ok bytes ∧ Text.lossy bytes = text := by
  unfold readText at h
  cases stored : d.read p with
  | error cause => simp [stored, Except.map] at h
  | ok bytes =>
    rw [stored] at h
    exact ⟨bytes, rfl, Except.ok.inj h⟩

/-! The module that is read either way. -/

private theorem SourceModule.ofTree_normalize {cwd file : Path} (home : cwd.isAbsolute)
    {base : String} (last : file.fileName? = some base) (name : String)
    (tree : List Python.Statement) :
    ofTree name (some (Path.normalize cwd file)) tree =
      { ofTree name (some file) tree with file := some (Path.normalize cwd file) } := by
  have kind : (Path.normalize cwd file).isPackageInit = file.isPackageInit :=
    Path.isPackageInit_eq ((Path.fileName?_normalize home last).trans last.symm)
  have same : Home.ofFile name (some (Path.normalize cwd file)) = Home.ofFile name (some file) := by
    simp only [Home.ofFile, Option.any_some, kind]
  simp only [ofTree, same]

private theorem State.exists_tree_of_resolve {lib : Library} {s : State} {name : String}
    {file : Path} {m : Module} (waiting : s.index.get? name = some (.placeholder ⟨name, some file⟩))
    (h : (s.resolve lib name).1 = .ok m) :
    ∃ text tree, lib.sources.read file = .ok text ∧ lib.parser text = .ok tree ∧
      m = .source (.ofTree name (some file) tree) := by
  have entry : s.index.entryFor name = some (.placeholder ⟨name, some file⟩) := by
    rw [Index.entryFor, waiting]
    rfl
  simp only [resolve, entry, load, readModule] at h
  cases read : lib.sources.read file with
  | error cause => simp [read] at h
  | ok text =>
    simp only [read, parseModule] at h
    cases parsed : lib.parser text with
    | error cause => simp [parsed] at h
    | ok tree =>
      simp only [parsed] at h
      exact ⟨text, tree, rfl, parsed, (Except.ok.inj h).symm⟩

private theorem Completion.atCursor_eq {lib : Library} {s t : State} (same : s.index = t.index)
    (m : Module) (activation : String) : (atCursor lib m activation s).1 =
    (atCursor lib m activation t).1 := by
  rw [← s.following_index, ← t.following_index, atCursor_following, atCursor_following, same,
    Prod.map_fst, Prod.map_fst]

private theorem Engine.searchPath_prepare (e : Engine) (text : String) (h : Host) :
    (e.prepare text h).1.state.index.searchPath = SearchPath.parse h.disk.cwd text := by
  cases found : e.restoreStored text h with
  | error cause =>
    rw [prepare_of_error found]
    rfl
  | ok warm =>
    rw [prepare_of_ok found]
    cases stored : e.storedKeys text h with
    | error cause => simp [restoreStored, stored, Except.map] at found
    | ok keys =>
      simp only [restoreStored, stored, Except.map, Except.ok.injEq] at found
      rw [← found]
      rfl

namespace Command

private theorem completeIn_of_text {disk : Disk} {file : Path} {text name : String}
    {tree : List Python.Statement} {s : State} (strict : disk.readStrict? file = some text)
    (parsed : Python.parser text = .ok tree)
    (named : s.index.searchPath.moduleName (s.fileOf file) = some name) (activation : String) :
    completeIn disk file activation s =
      .ok (Completion.atCursor disk.library (.source (.ofTree name (some (s.fileOf file)) tree))
        activation s).1 := by
  have parses : disk.library.parser text = .ok tree := parsed
  have context : s.moduleOfBuffer disk.library (some file) text =
      (.ok (.source (.ofTree name (some (s.fileOf file)) tree)),
        { s with accesses := s.accesses ++ [.parse text] }) := by
    simp only [State.moduleOfBuffer, State.parseText, parses, Option.map_some, Option.bind_some,
      named, Option.getD_some]
  simp only [completeIn, strict, context]
  rw [Completion.atCursor_eq (s := { s with accesses := s.accesses ++ [.parse text] }) (t := s) rfl]

/-- What the index can load from a file, the command can complete in if the text of the file is well
formed: it works with the module that the index has loaded, though it knows the file by its normal
path. Where the text is not well formed, the index reads on with replacement characters and the
command fails. -/
theorem complete_agrees_with_index_on_text {config : Config} {h : Host}
    (home : h.disk.cwd.isAbsolute) {prepared : Engine × Host}
    (prepares : (Engine.initial config h.disk.cwd).prepare config.searchPath h = prepared)
    {file : Path} {name : String}
    (named : (SearchPath.parse h.disk.cwd config.searchPath).moduleName file = some name)
    {i : Index} (waiting : i.get? name = some (.placeholder ⟨name, some file⟩))
    {d : Disk} (kept : prepared.2.disk.read file = d.read file) {m : Module}
    (resolved : ((⟨i, []⟩ : State).resolve d.library name).1 = .ok m) :
    ∃ bytes a, d.read file = .ok bytes ∧ m = .source a ∧ a.name = name ∧
      ∀ activation, ((Request.query (.complete file activation)).run config h).1 =
        if (Text.ofOctets? bytes).isSome then
          .success ((Completion.atCursor prepared.2.disk.library
            (.source { a with file := some (Path.normalize h.disk.cwd file) }) activation
            prepared.1.state).1.map symbolLine)
        else .failure ("Failed to read " ++ file.text) := by
  obtain ⟨text, tree, read, parsed, rfl⟩ := State.exists_tree_of_resolve waiting resolved
  obtain ⟨bytes, stored, rfl⟩ := Disk.exists_bytes_of_readText read
  refine ⟨bytes, _, stored, rfl, rfl, fun activation => ?_⟩
  have path : prepared.1.state.index.searchPath = SearchPath.parse h.disk.cwd config.searchPath := by
    rw [← prepares, Engine.searchPath_prepare]
  have place : prepared.1.state.fileOf file = Path.normalize h.disk.cwd file := by
    rw [State.fileOf, path]
    rfl
  rw [Engine.run_query prepares, Query.answer]
  cases strict : Text.ofOctets? bytes with
  | none =>
    have unread : prepared.2.disk.readStrict? file = none := by
      simp only [Disk.readStrict?, kept, stored, strict]
    simp [completeIn, unread]
  | some text =>
    have well : prepared.2.disk.readStrict? file = some text := by
      simp only [Disk.readStrict?, kept, stored, strict]
    rw [Text.lossy_of_ofOctets? strict] at parsed
    obtain ⟨base, last⟩ := Disk.exists_fileName_of_read stored
    have again : prepared.1.state.index.searchPath.moduleName (prepared.1.state.fileOf file) =
        some name := by
      rw [place, path]
      exact (SearchPath.isNormal_parse home config.searchPath).moduleName_normalize named
    rw [completeIn_of_text well parsed again, place, SourceModule.ofTree_normalize home last]
    simp only [Option.isSome_some, if_true]

theorem complete_agrees_with_index_on_text_of_class :
    let bytes := Text.octets "class C:\n    x = 1  # \u00e9\n"
    let disk : Disk := .ofEntries ⟨"/"⟩ [(["r"], .dir), (["r", "x.py"], .file bytes)]
    let h : Host := ⟨disk, ⟨"/"⟩, ⟨0, 0⟩⟩
    let config : Config := { searchPath := "/r", persist := false }
    let prepared := (Engine.initial config h.disk.cwd).prepare config.searchPath h
    let file : Path := ⟨"/r/./x.py"⟩
    let i : Index := ⟨.parse ⟨"/"⟩ "/r", [("x", .placeholder ⟨"x", some file⟩)]⟩
    h.disk.cwd.isAbsolute ∧
    (SearchPath.parse h.disk.cwd config.searchPath).moduleName file = some "x" ∧
    i.get? "x" = some (.placeholder ⟨"x", some file⟩) ∧
    prepared.2.disk.read file = h.disk.read file ∧ (Text.ofOctets? bytes).isSome ∧
    ∃ a, ((⟨i, []⟩ : State).resolve h.disk.library "x").1 = .ok (.source a) ∧
      ((Request.query (.complete file "C")).run config h).1 =
        .success ((Completion.atCursor prepared.2.disk.library
          (.source { a with file := some (Path.normalize h.disk.cwd file) }) "C"
          prepared.1.state).1.map symbolLine) := by
  intro bytes disk h config prepared file i
  have home : h.disk.cwd.isAbsolute := by decide
  have named : (SearchPath.parse h.disk.cwd config.searchPath).moduleName file = some "x" := by
    decide +kernel
  have waiting : i.get? "x" = some (.placeholder ⟨"x", some file⟩) := by
    simp [i, Index.get?, NameMap.get?]
  have kept : prepared.2.disk.read file = h.disk.read file := by decide +kernel
  have known : h.disk.read file = .ok bytes := by decide +kernel
  have whole : (Text.ofOctets? bytes).isSome := by decide +kernel
  have loads : ((⟨i, []⟩ : State).resolve h.disk.library "x").1.toOption.isSome := by
    decide +kernel
  have prepares : (Engine.initial config h.disk.cwd).prepare config.searchPath h = prepared := rfl
  clear_value prepared h i
  refine ⟨home, named, waiting, kept, whole, ?_⟩
  cases resolved : ((⟨i, []⟩ : State).resolve h.disk.library "x").1 with
  | error e => simp [resolved, Except.toOption] at loads
  | ok m =>
    obtain ⟨stored, a, read, rfl, -, runs⟩ :=
      complete_agrees_with_index_on_text home prepares named waiting kept resolved
    obtain rfl : stored = bytes := Except.ok.inj (read.symm.trans known)
    exact ⟨a, rfl, (runs "C").trans (if_pos whole)⟩

/-- One stray octet in a comment: the index has the module, the command has not. -/
theorem complete_fails_on_stray_octet :
    let bytes := Text.octets "class C:\n    x = 1  # " ++ 0xff :: Text.octets "\n"
    let disk : Disk := .ofEntries ⟨"/"⟩ [(["r"], .dir), (["r", "x.py"], .file bytes)]
    let h : Host := ⟨disk, ⟨"/"⟩, ⟨0, 0⟩⟩
    let config : Config := { searchPath := "/r", persist := false }
    let fresh := ((Engine.initial config ⟨"/"⟩).rebuild "/r" .never h).2.1.state
    fresh.index.searchPath.moduleName ⟨"/r/x.py"⟩ = some "x" ∧ Builtin.isReserved "x" = false ∧
    ((fresh.index.get? "x").map fun m => (m.key, m.isLoaded)) =
      some (⟨"x", some ⟨"/r/x.py"⟩⟩, false) ∧
    ((fresh.resolve h.disk.library "x").1.toOption.map fun m =>
      (m.name, m.isLoaded, (m.members "C").map Symbol.name)) = some ("x", true, ["x"]) ∧
    ((Request.query (.complete ⟨"/r/x.py"⟩ "C")).run config h).1 =
      .failure "Failed to read /r/x.py" := by
  decide +kernel

end Command

end ImportAtlas
