import ImportAtlas.Library.Python
import ImportAtlas.Proofs.Precedence
import ImportAtlas.Proofs.Resolution

/-!
A text of a file makes one module, whether the index reads the file when it is first asked for it, an
edit brings the text, or it is still in a buffer, and however the path of the file is spelled.
-/

set_option autoImplicit false

namespace ImportAtlas

namespace State

variable {s : State} {lib : Library} {file spelled : Path} {name text : String}
  {tree : List Python.Statement}

private theorem fileOf_fileOf (well : s.index.WellFormed) (p : Path) : s.fileOf (s.fileOf p) =
    s.fileOf p :=
  Path.normalize_normalize well.path.home p

private theorem moduleOfBuffer_eq (parses : lib.parser text = .ok tree)
    (named : s.index.searchPath.moduleName (s.fileOf spelled) = some name) :
    (s.moduleOfBuffer lib (some spelled) text).1 =
        .ok (.source (.ofTree name (some (s.fileOf spelled)) tree)) ∧
      (s.moduleOfBuffer lib (some spelled) text).2.index = s.index := by
  simp only [moduleOfBuffer, parseText, parses, Option.map_some, Option.bind_some, named,
    Option.getD_some]
  exact ⟨trivial, trivial⟩

private theorem resolve_placeholder_eq {asked : String} (well : s.index.WellFormed)
    (leads : s.index.keyFor asked = name)
    (found : s.index.get? name = some (.placeholder ⟨name, some file⟩))
    (reads : lib.sources.read file = .ok text) (parses : lib.parser text = .ok tree) :
    (s.resolve lib asked).1 = .ok (.source (.ofTree name (some file) tree)) ∧
      (s.resolve lib asked).2.index.get? name =
        some (.source (.ofTree name (some file) tree)) := by
  have loaded : (Module.placeholder ⟨name, some file⟩).loaded lib =
      .ok (.source (.ofTree name (some file) tree)) := by
    simp only [Module.loaded, reads, parses]
  have entry : s.index.get? (s.index.keyFor asked) = some (.placeholder ⟨name, some file⟩) :=
    leads.symm ▸ found
  constructor
  · rw [resolve_fst, Index.answer_of_get? entry, loaded]
  · rw [well.get?_resolve, if_pos leads.symm, found, Option.bind_some, loaded]
    rfl

private theorem changeFile_eq (well : s.index.WellFormed)
    (named : s.index.searchPath.indexName (s.fileOf spelled) = some name)
    (parses : lib.parser text = .ok tree) :
    let m : Module := .source (.ofTree name (some (s.fileOf spelled)) tree)
    (∃ winner, (s.changeFile lib spelled text).1 =
      .error (.shadowed name (s.fileOf spelled) winner)) ∨
    ((s.changeFile lib spelled text).1 = .ok m ∧
      (s.changeFile lib spelled text).2.index.get? name = some m) := by
  intro m
  have own : Path.normalize s.index.searchPath.cwd (s.fileOf spelled) = s.fileOf spelled :=
    fileOf_fileOf well spelled
  rcases s.changeFile_cases lib spelled text with ⟨nameless, -, -⟩ | ⟨_, cause, -, refused, -⟩ |
    ⟨other, _, winner, indexed, -, -, -, shadowed, -⟩ |
    ⟨other, again, indexed, parses', -, ok, put⟩
  · rw [named] at nameless
    exact absurd nameless (by simp)
  · rw [parses] at refused
    exact absurd refused (by simp)
  · obtain rfl : other = name := Option.some.inj (indexed.symm.trans named)
    rw [own] at shadowed
    exact Or.inl ⟨winner, shadowed⟩
  · obtain rfl : other = name := Option.some.inj (indexed.symm.trans named)
    obtain rfl : again = tree := Except.ok.inj (parses'.symm.trans parses)
    rw [own] at ok put
    refine Or.inr ⟨ok, ?_⟩
    rw [put, Index.get?, Index.put, NameMap.get?_put, if_pos rfl]

end State

namespace Engine

/-- A text that has a tree makes the same module of a file, with the same symbol tables, in all ways
in which it can come into an index: when a placeholder of the file is asked for, when an edit brings
it, unless a file of an earlier root keeps its place, and from a buffer, which leaves the index
alone. -/
theorem text_makes_one_module {e : Engine} (run : Reachable e) (lib : Library)
    {file spelled : Path} {name text : String} {tree : List Python.Statement}
    (named : e.state.index.searchPath.moduleName file = some name) (nonempty : name ≠ "")
    (free : Builtin.isReserved name = false) (parses : lib.parser text = .ok tree)
    (same : e.state.fileOf spelled = e.state.fileOf file) :
    let s := e.state
    let m : Module := .source (.ofTree name (some (s.fileOf file)) tree)
    (∀ asked key held, s.index.keyFor asked = name →
      s.index.get? name = some (.placeholder key) → key.file = some held →
      s.fileOf held = s.fileOf file → lib.sources.read held = .ok text →
      (s.resolve lib asked).1 = .ok m ∧ (s.resolve lib asked).2.index.get? name = some m) ∧
    ((∃ winner, (s.changeFile lib spelled text).1 =
        .error (.shadowed name (s.fileOf file) winner)) ∨
      ((s.changeFile lib spelled text).1 = .ok m ∧
        (s.changeFile lib spelled text).2.index.get? name = some m)) ∧
    (s.moduleOfBuffer lib (some spelled) text).1 = .ok m ∧
    (s.moduleOfBuffer lib (some spelled) text).2.index = s.index := by
  intro s m
  have well : s.index.WellFormed := run.wellFormed
  have home : s.index.searchPath.cwd.isAbsolute := well.path.home
  have own : s.index.searchPath.moduleName (s.fileOf spelled) = some name := by
    rw [same]
    exact (SearchPath.moduleName_normalize home file).trans named
  refine ⟨?_, ?_, ?_⟩
  · rintro asked ⟨title, backing⟩ held leads found backed spelling reads
    obtain rfl : backing = some held := backed
    obtain rfl : title = name := (well.placed name _ found).named
    -- The file of an entry is normal, so it is spelled the one way in which paths are compared.
    have normal : held.IsNormal := ((well.placed title _ found).of_file rfl).2.1
    have there : held = s.fileOf file := (normal.normalize_eq _).symm.trans spelling
    rw [there] at found reads
    exact State.resolve_placeholder_eq well leads found reads parses
  · have indexed := SearchPath.indexName_eq_some_iff.mpr ⟨own, nonempty, free⟩
    have edited := State.changeFile_eq well indexed parses
    rw [same] at edited
    exact edited
  · have buffered := State.moduleOfBuffer_eq parses own
    rw [same] at buffered
    exact buffered

theorem text_makes_one_module_of_package :
    let text := "from . import x\n"
    let file : Path := ⟨"/a/p/__init__.py"⟩
    let spelled : Path := ⟨"a/q/../p//__init__.py"⟩
    let disk : Disk :=
      .ofEntries ⟨"/"⟩ [(["a"], .dir), (["a", "p"], .dir),
          (["a", "p", "__init__.py"], .file (Text.octets text))]
    let e := ((initial {} ⟨"/"⟩).rebuild "/a" .never ⟨disk, ⟨"/"⟩, ⟨0, 0⟩⟩).2.1
    Reachable e ∧ e.state.index.searchPath.moduleName file = some "p" ∧
      e.state.fileOf spelled = e.state.fileOf file ∧
      ∃ m, (e.state.resolve disk.library "p").1 = .ok m ∧
        (e.state.changeFile disk.library spelled text).1 = .ok m ∧
        (e.state.moduleOfBuffer disk.library (some spelled) text).1 = .ok m ∧
        m.imports.map Symbol.path = ["p.x"] := by
  intro text file spelled disk e
  have home : (⟨"/"⟩ : Path).isAbsolute := by decide
  have run : Reachable e := .rebuild (.initial {} home) "/a" .never home
  have named : e.state.index.searchPath.moduleName file = some "p" := by decide +kernel
  have same : e.state.fileOf spelled = e.state.fileOf file := by decide +kernel
  obtain ⟨leads, entry⟩ : e.state.index.keyFor "p" = "p" ∧
      ((e.state.index.get? "p").map fun m => (m.key, m.isLoaded)) =
        some (⟨"p", some file⟩, false) := by decide +kernel
  obtain ⟨held, found, key⟩ := Option.map_eq_some_iff.mp entry
  obtain rfl := Module.eq_placeholder_iff.mpr (Prod.mk.inj key)
  have reads : disk.library.sources.read file = .ok text := by decide +kernel
  have readable : (disk.library.parser text).toOption.isSome := by decide +kernel
  have accepted : (e.state.changeFile disk.library spelled text).1.toOption.isSome := by
    decide +kernel
  have imports : ((e.state.resolve disk.library "p").1.toOption.map
      fun m => m.imports.map Symbol.path) = some ["p.x"] := by decide +kernel
  cases parses : disk.library.parser text with
  | error cause =>
    rw [parses] at readable
    exact absurd readable (by simp [Except.toOption])
  | ok tree =>
    obtain ⟨lazily, eagerly, buffered, -⟩ :=
      text_makes_one_module run disk.library named (by decide) (by decide) parses same
    have loaded := (lazily "p" _ file leads found rfl rfl reads).1
    refine ⟨run, named, same, _, loaded, ?_, buffered, ?_⟩
    · rcases eagerly with ⟨winner, shadowed⟩ | ⟨changed, -⟩
      · rw [shadowed] at accepted
        exact absurd accepted (by simp [Except.toOption])
      · exact changed
    · rw [loaded] at imports
      exact Option.some.inj imports

end Engine

end ImportAtlas
