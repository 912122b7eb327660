import ImportAtlas.Build
import ImportAtlas.Proofs.Accesses
import ImportAtlas.Proofs.Reachable

/-!
What an edit does to the index: it replaces one entry, or it fails and does nothing. So a batch of
changes has the effect of those among them that succeed.
-/

set_option autoImplicit false

namespace ImportAtlas

namespace Index

def fileOf? (i : Index) (name : String) : Option Path :=
  (i.get? name).bind Module.file

private theorem upsert_cases (i : Index) (exists? : Path → Bool) {name : String}
    (free : Builtin.isReserved name = false) (file : Path) (tree : List Python.Statement) :
    let path := Path.normalize i.searchPath.cwd file
    let m : Module := .source (.ofTree name (some path) tree)
    (∃ winner, i.fileOf? name = some winner ∧ i.keepsPlace exists? winner path = true ∧
      i.upsert exists? name (some file) tree = .error (.shadowed name path winner)) ∨
    ((∀ winner, i.fileOf? name = some winner → i.keepsPlace exists? winner path = false) ∧
      i.upsert exists? name (some file) tree = .ok (m, i.put name m)) := by
  intro path m
  simp only [upsert, free, Bool.false_eq_true, if_false, Option.map_some]
  cases behind : (i.get? name).bind Module.file with
  | none =>
    right
    refine ⟨?_, rfl⟩
    intro winner found
    exact absurd (behind.symm.trans found) (by simp)
  | some winner =>
    cases kept : i.keepsPlace exists? winner path with
    | true => exact Or.inl ⟨winner, behind, kept, if_pos kept⟩
    | false =>
      right
      refine ⟨?_, if_neg (by rw [kept]; exact Bool.false_ne_true)⟩
      intro other found
      obtain rfl := Option.some.inj (behind.symm.trans found)
      exact kept

end Index

namespace State

/-- All that a new text of a file can do: the file has no name to be indexed under, the text has no
tree, a file of an earlier root keeps its place, or the module of the text is put under the name. -/
theorem changeFile_cases (lib : Library) (path : Path) (text : String) (s : State) :
    let file := s.fileOf path
    let own := Path.normalize s.index.searchPath.cwd file
    let result := s.changeFile lib path text
    (s.index.searchPath.indexName file = none ∧ (∃ cause, result.1 = .error cause) ∧
      result.2.index = s.index) ∨
    (∃ name cause, s.index.searchPath.indexName file = some name ∧
      lib.parser text = .error cause ∧ result.1 = .error (.unparsable file.text cause) ∧
      result.2.index = s.index) ∨
    (∃ name tree winner, s.index.searchPath.indexName file = some name ∧
      lib.parser text = .ok tree ∧ s.index.fileOf? name = some winner ∧
      s.index.keepsPlace lib.sources.contains winner own = true ∧
      result.1 = .error (.shadowed name own winner) ∧ result.2.index = s.index) ∨
    (∃ name tree, s.index.searchPath.indexName file = some name ∧
      lib.parser text = .ok tree ∧
      (∀ winner, s.index.fileOf? name = some winner →
        s.index.keepsPlace lib.sources.contains winner own = false) ∧
      result.1 = .ok (.source (.ofTree name (some own) tree)) ∧
      result.2.index = s.index.put name (.source (.ofTree name (some own) tree))) := by
  intro file own result
  simp only [result, changeFile, changeModule, parseText]
  cases indexed : s.index.searchPath.indexName file with
  | none =>
    left
    refine ⟨rfl, ?_⟩
    cases named : s.index.searchPath.moduleName file with
    | none => exact ⟨⟨_, rfl⟩, rfl⟩
    | some name =>
      simp only
      split
      · exact ⟨⟨_, rfl⟩, rfl⟩
      · rename_i nonempty
        split
        · exact ⟨⟨_, rfl⟩, rfl⟩
        · rename_i free
          have found := SearchPath.indexName_eq_some_iff.mpr
            ⟨named, nonempty, Bool.eq_false_iff.mpr free⟩
          rw [indexed] at found
          exact absurd found (by simp)
  | some name =>
    right
    obtain ⟨named, nonempty, free⟩ := SearchPath.indexName_eq_some_iff.mp indexed
    simp only [file] at named
    simp only [named, nonempty, free, if_false, Bool.false_eq_true]
    cases parsed : lib.parser text with
    | error cause => exact Or.inl ⟨name, cause, rfl, rfl, rfl, rfl⟩
    | ok tree =>
      right
      rcases s.index.upsert_cases lib.sources.contains free file tree with
        ⟨winner, behind, kept, refused⟩ | ⟨yields, replaced⟩
      · left
        refine ⟨name, tree, winner, rfl, rfl, behind, kept, ?_⟩
        simp only [file] at refused
        simp only
        rw [refused]
        exact ⟨rfl, rfl⟩
      · right
        refine ⟨name, tree, rfl, rfl, yields, ?_⟩
        simp only [file] at replaced
        simp only
        rw [replaced]
        exact ⟨rfl, rfl⟩

private theorem index_of_changeFile_error {lib : Library} {path : Path} {text : String} {s : State}
    {cause : Failure} (failed : (s.changeFile lib path text).1 = .error cause) :
    (s.changeFile lib path text).2.index = s.index := by
  rcases s.changeFile_cases lib path text with ⟨-, -, same⟩ | ⟨_, _, -, -, -, same⟩ |
    ⟨_, _, _, -, -, -, -, -, same⟩ | ⟨_, _, -, -, -, ok, -⟩
  · exact same
  · exact same
  · exact same
  · rw [failed] at ok
    exact absurd ok (by simp)

private theorem index_of_removeFile_error {lib : Library} {path : Path} {s : State}
    {cause : Failure} (failed : (s.removeFile lib path).1 = .error cause) :
    (s.removeFile lib path).2.index = s.index := by
  unfold removeFile at failed ⊢
  cases removed : s.index.remove lib.sources.contains path with
  | error e => rfl
  | ok after =>
    rw [removed] at failed
    exact absurd failed (by simp)

theorem index_of_removeDirectory_error {path : Path} {s : State} {cause : Failure}
    (failed : (s.removeDirectory path).1 = .error cause) :
    (s.removeDirectory path).2.index = s.index := by
  unfold removeDirectory at failed ⊢
  cases removed : s.index.removeTree path with
  | error e => rfl
  | ok after =>
    rw [removed] at failed
    exact absurd failed (by simp)

def outcome {α : Type} (r : Except Failure α × State) : Except Failure Index :=
  r.1.map fun _ => r.2.index

end State

namespace Index

open Build (Visit indexReaction)

def edit (lib : Library) (i : Index) : Visit → Except Failure Index
  | .changed file text => State.outcome (State.changeFile lib file text ⟨i, []⟩)
  | .removed file => State.outcome (State.removeFile lib file ⟨i, []⟩)
  | .directoryRemoved dir => State.outcome (State.removeDirectory dir ⟨i, []⟩)

end Index

namespace Build

variable {lib : Library}

theorem indexReaction_index (lib : Library) (visit : Visit) (s : State) :
    (indexReaction lib visit s).state.index = (s.index.edit lib visit).toOption.getD s.index := by
  have effect : ∀ {α : Type} (r : Except Failure α × State),
      (∀ cause, r.1 = .error cause → r.2.index = s.index) →
      r.2.index = (State.outcome r).toOption.getD s.index := by
    rintro α ⟨cause | a, t⟩ refused
    · exact refused cause rfl
    · rfl
  rw [← State.following_index s] at effect ⊢
  cases visit with
  | changed file text =>
    have same := State.changeFile_following lib s.accesses file text ⟨s.index, []⟩
    have done := effect (State.changeFile lib file text _)
      fun cause failed => State.index_of_changeFile_error failed
    simp only [indexReaction, Index.edit]
    rw [done, same]
    rfl
  | removed file =>
    have same := State.removeFile_following lib s.accesses file ⟨s.index, []⟩
    have done := effect (State.removeFile lib file _)
      fun cause failed => State.index_of_removeFile_error failed
    simp only [indexReaction, Index.edit]
    rw [done, same]
    rfl
  | directoryRemoved dir =>
    have same := State.removeDirectory_following s.accesses dir ⟨s.index, []⟩
    have done := effect (State.removeDirectory dir _)
      fun cause failed => State.index_of_removeDirectory_error failed
    simp only [indexReaction, Index.edit]
    rw [done, same]
    rfl

def Change.visit? (sources : Sources) : Change → Option Visit
  | .changed file => (sources.read file).toOption.map (.changed file)
  | .removed file => some (.removed file)
  | .directoryRemoved dir => some (.directoryRemoved dir)

/-- The edits of a batch that succeed, each on the index that those before it have left. -/
def succeeding (lib : Library) (sources : Sources) : List Change → Index → List Visit
  | [], _ => []
  | change :: rest, i =>
    match change.visit? sources with
    | none => succeeding lib sources rest i
    | some visit =>
      match i.edit lib visit with
      | .ok after => visit :: succeeding lib sources rest after
      | .error _ => succeeding lib sources rest i

def indexAfter (lib : Library) (sources : Sources) (change : Change) (i : Index) : Index :=
  match change.visit? sources with
  | none => i
  | some visit => (i.edit lib visit).toOption.getD i

private theorem foldlM_succeeding (sources : Sources) (changes : List Change) (i : Index) :
    (succeeding lib sources changes i).foldlM (Index.edit lib) i =
      .ok (changes.foldl (fun i change => indexAfter lib sources change i) i) := by
  induction changes generalizing i with
  | nil => rfl
  | cons change rest ih =>
    simp only [succeeding, List.foldl_cons, indexAfter]
    cases change.visit? sources with
    | none => exact ih i
    | some visit =>
      simp only
      cases edited : i.edit lib visit with
      | error cause => exact ih i
      | ok after =>
        rw [List.foldlM_cons, edited]
        exact ih after

section Run

variable {σ : Type} {get : σ → State} {set : State → σ → σ}

/-- Whether a visitor leaves the index alone and does not cancel the build. -/
def Visitor.IsBystander (get : σ → State) (v : Visitor σ) : Prop :=
  ∀ visit s, (get (v.visit visit s).state).index = (get s).index ∧
    (v.visit visit s).cancels = false

structure Run.At (get : σ → State) (i : Index) (r : Run σ) : Prop where
  index : (get r.state).index = i
  running : r.cancelled = false
  whole : r.interrupted = false

private theorem Run.At.report {i : Index} {r : Run σ} (h : r.At get i) (event : Event) :
    (r.report event).At get i :=
  ⟨h.index, h.running, h.whole⟩

private theorem Run.At.visitAll_cons {i j : Index} {r : Run σ} (h : r.At get i) {v : Visitor σ}
    (path : Path) {visit : Visit} (rest : List (Visitor σ))
    (index : (get (v.visit visit r.state).state).index = j)
    (going : (v.visit visit r.state).cancels = false) :
    ∃ r' : Run σ, r'.At get j ∧ r.visitAll path visit (v :: rest) = r'.visitAll path visit rest := by
  refine ⟨r.react path v.name (v.visit visit r.state), ⟨index, ?_, h.whole⟩, ?_⟩
  · simp [Run.react, h.running, going]
  · simp [Run.visitAll, h.running]

private theorem Run.At.visitAll_bystanders (path : Path) (visit : Visit) {others : List (Visitor σ)}
    (calm : ∀ v ∈ others, v.IsBystander get) (rest : List (Visitor σ)) {i : Index} {r : Run σ}
    (h : r.At get i) :
    ∃ r' : Run σ, r'.At get i ∧
      r.visitAll path visit (others ++ rest) = r'.visitAll path visit rest := by
  induction others generalizing r with
  | nil => exact ⟨r, h, rfl⟩
  | cons v others ih =>
    obtain ⟨same, going⟩ := calm v List.mem_cons_self visit r.state
    obtain ⟨next, at_next, step⟩ :=
      h.visitAll_cons path (others ++ rest) (same.trans h.index) going
    obtain ⟨last, at_last, later⟩ :=
      ih (fun other member => calm other (List.mem_cons_of_mem _ member)) at_next
    exact ⟨last, at_last, step.trans later⟩

variable {before after : List (Visitor σ)} {sources : Sources}

private theorem Run.At.visitAll (put_get : ∀ t s, get (set t s) = t)
    (calm : ∀ v ∈ before ++ after, v.IsBystander get) (path : Path) (visit : Visit) {i : Index}
    {r : Run σ} (h : r.At get i) :
    (r.visitAll path visit (before ++ indexVisitor lib get set :: after)).At get
      ((i.edit lib visit).toOption.getD i) := by
  have first : ∀ v ∈ before, v.IsBystander get :=
    fun v member => calm v (List.mem_append_left _ member)
  have last : ∀ v ∈ after, v.IsBystander get :=
    fun v member => calm v (List.mem_append_right _ member)
  -- The visitors before that of the index, it, and those behind it.
  obtain ⟨r₁, at₁, to₁⟩ := Run.At.visitAll_bystanders path visit first
    (indexVisitor lib get set :: after) h
  have edited : (get ((indexVisitor lib get set).visit visit r₁.state).state).index =
      (i.edit lib visit).toOption.getD i := by
    rw [← at₁.index]
    simp only [indexVisitor, put_get]
    exact indexReaction_index lib visit (get r₁.state)
  have going : ((indexVisitor lib get set).visit visit r₁.state).cancels = false := by
    cases visit <;> rfl
  obtain ⟨r₂, at₂, to₂⟩ := at₁.visitAll_cons path after edited going
  obtain ⟨r₃, at₃, to₃⟩ := Run.At.visitAll_bystanders path visit last [] at₂
  rw [List.append_nil] at to₃
  rw [to₁, to₂, to₃]
  exact ⟨at₃.index, at₃.running, at₃.whole⟩

private theorem Run.At.follow (put_get : ∀ t s, get (set t s) = t)
    (calm : ∀ v ∈ before ++ after, v.IsBystander get) (change : Change) {i : Index} {r : Run σ}
    (h : r.At get i) :
    (r.follow sources (before ++ indexVisitor lib get set :: after) change).At get
      (indexAfter lib sources change i) := by
  cases change with
  | changed file =>
    simp only [Run.follow, indexAfter, Change.visit?]
    cases sources.read file with
    | error cause => exact ⟨h.index, h.running, h.whole⟩
    | ok text => exact h.visitAll put_get calm file (.changed file text)
  | removed file => exact h.visitAll put_get calm file (.removed file)
  | directoryRemoved dir => exact h.visitAll put_get calm dir (.directoryRemoved dir)

private theorem Run.At.runUnits (put_get : ∀ t s, get (set t s) = t)
    (calm : ∀ v ∈ before ++ after, v.IsBystander get) (units : List Item) {i : Index} {r : Run σ}
    (h : r.At get i) :
    (Build.runUnits sources (before ++ indexVisitor lib get set :: after) units r).At get
      ((units.map Item.change).foldl (fun i change => indexAfter lib sources change i) i) := by
  induction units generalizing i r with
  | nil => exact h
  | cons unit rest ih =>
    have begun : (r.report (.detail unit.description)).At get i := h.report _
    simp only [Build.runUnits, h.running, Bool.false_eq_true, if_false]
    exact ih ((begun.follow put_get calm unit.change).report _)

private theorem at_run (put_get : ∀ t s, get (set t s) = t)
    (calm : ∀ v ∈ before ++ after, v.IsBystander get) (task : String) (units : List Item) (s : σ) :
    (run task sources (before ++ indexVisitor lib get set :: after) units false s).At get
      ((units.map Item.change).foldl (fun i change => indexAfter lib sources change i)
        (get s).index) := by
  have begun : Run.At get (get s).index
      { state := s, events := [.begin task (some units.length)] } := ⟨rfl, rfl, rfl⟩
  exact (begun.runUnits put_get calm units).report _

private theorem at_incremental (put_get : ∀ t s, get (set t s) = t)
    (calm : ∀ v ∈ before ++ after, v.IsBystander get) (changes : List Change) (s : σ) :
    (incremental sources (before ++ indexVisitor lib get set :: after) changes false s).At get
      (changes.foldl (fun i change => indexAfter lib sources change i) (get s).index) := by
  have units : (incrementalUnits changes).map Item.change = changes := by
    simp [incrementalUnits, Function.comp_def]
  have done : (run "Incremental build" sources (before ++ indexVisitor lib get set :: after)
      (incrementalUnits changes) false s).At get _ := at_run put_get calm _ _ s
  rw [units] at done
  exact done

theorem at_full (put_get : ∀ t s, get (set t s) = t)
    (calm : ∀ v ∈ before ++ after, v.IsBystander get) (files : List Path) (s : σ) :
    (full sources (before ++ indexVisitor lib get set :: after) files false s).At get
      (files.foldl (fun i file => indexAfter lib sources (.changed file) i) (get s).index) := by
  have units : (fullUnits files).map Item.change = files.map .changed := calc
    (fullUnits files).map Item.change = files.zipIdx.map (Change.changed ∘ Prod.fst) := by
      rw [fullUnits, List.map_map]
      rfl
    _ = (files.zipIdx.map Prod.fst).map .changed := List.map_map.symm
    _ = files.map .changed := by rw [List.zipIdx_map_fst]
  have done : (run "Full build" sources (before ++ indexVisitor lib get set :: after)
      (fullUnits files) false s).At get _ := at_run put_get calm _ _ s
  rw [units, List.foldl_map] at done
  exact done

end Run

end Build

namespace Engine

/-- An attempt to make the index from the keys stored for a search path. The engine stays as it is
if there are none. -/
def restored (e : Engine) (searchPath : String) (h : Host) : Except CacheFailure Nat × Engine :=
  match e.restoreStored searchPath h with
  | .ok (size, after) => (.ok size, after)
  | .error cause => (.error cause, e)

private theorem restored_of_error {e : Engine} {searchPath : String} {h : Host}
    {cause : CacheFailure} (failed : (e.restored searchPath h).1 = .error cause) :
    e.restoreStored searchPath h = .error cause ∧ (e.restored searchPath h).2 = e := by
  unfold restored at failed ⊢
  cases found : e.restoreStored searchPath h with
  | error other =>
    rw [found] at failed
    obtain rfl := Except.error.inj failed
    exact ⟨rfl, rfl⟩
  | ok done =>
    rw [found] at failed
    exact absurd failed (by simp)

open Build (Visitor Change incremental indexVisitor succeeding)

/-- An edit or a restore that fails leaves the index as it was. So a batch of changes, shown to the
visitor of the index among others who leave the index alone, goes through to its end, and the index
is then what the edits among them that succeed make of it, one after the other. -/
theorem failed_operations_change_nothing (e : Engine) (lib : Library) :
    (∀ path text cause, (e.state.changeFile lib path text).1 = .error cause →
      (e.state.changeFile lib path text).2.index = e.state.index) ∧
    (∀ path cause, (e.state.removeFile lib path).1 = .error cause →
      (e.state.removeFile lib path).2.index = e.state.index) ∧
    (∀ path cause, (e.state.removeDirectory path).1 = .error cause →
      (e.state.removeDirectory path).2.index = e.state.index) ∧
    (∀ searchPath h cause, (e.restored searchPath h).1 = .error cause →
      (e.restored searchPath h).2.state.index = e.state.index) ∧
    (∀ (σ : Type) (get : σ → State) (set : State → σ → σ) (before after : List (Visitor σ)),
      (∀ t s, get (set t s) = t) → (∀ v ∈ before ++ after, v.IsBystander get) →
      ∀ (sources : Sources) (changes : List Change) (s : σ), get s = e.state →
        let built := incremental sources (before ++ indexVisitor lib get set :: after) changes
          false s
        built.interrupted = false ∧
          (succeeding lib sources changes e.state.index).foldlM (Index.edit lib) e.state.index =
            .ok (get built.state).index) := by
  refine ⟨?_, ?_, ?_, ?_, ?_⟩
  · intro path text cause failed
    exact State.index_of_changeFile_error failed
  · intro path cause failed
    exact State.index_of_removeFile_error failed
  · intro path cause failed
    exact State.index_of_removeDirectory_error failed
  · intro searchPath h cause failed
    rw [(restored_of_error failed).2]
  · intro σ get set before after put_get calm sources changes s begins built
    have done : built.At get _ := Build.at_incremental put_get calm changes s
    refine ⟨done.whole, ?_⟩
    rw [Build.foldlM_succeeding, done.index, begins]

theorem failed_operations_change_nothing_shadowed :
    let h : Host := ⟨.ofEntries ⟨"/"⟩ [], ⟨"/"⟩, ⟨0, 0⟩⟩
    let lib : Library :=
      ⟨⟨fun file => if file = ⟨"/a/y.py"⟩ then .error ⟨.notFound, "gone"⟩ else .ok "",
        fun _ => true⟩, fun _ => .ok []⟩
    let fresh := ((initial {} ⟨"/"⟩).rebuild "/a:/b" .never h).2.1
    let e := fresh.withState (fresh.state.changeFile lib ⟨"/a/x.py"⟩ "").2
    let changes : List Change :=
      [.changed ⟨"/b/x.py"⟩, .changed ⟨"/a/y.py"⟩, .removed ⟨"/c/x.py"⟩, .changed ⟨"/b/z.py"⟩]
    let built := incremental lib.sources [indexVisitor lib id fun t _ => t] changes false e.state
    (e.state.changeFile lib ⟨"/b/x.py"⟩ "").2.index = e.state.index ∧
      (e.restored "/b" h).2.state.index = e.state.index ∧
      succeeding lib lib.sources changes e.state.index = [.changed ⟨"/b/z.py"⟩ ""] ∧
      [Build.Visit.changed ⟨"/b/z.py"⟩ ""].foldlM (Index.edit lib) e.state.index =
        .ok built.state.index := by
  intro h lib fresh e changes built
  obtain ⟨keeps, -, -, unrestored, batch⟩ := failed_operations_change_nothing e lib
  have done : succeeding lib lib.sources changes e.state.index = [.changed ⟨"/b/z.py"⟩ ""] := by
    decide +kernel
  have refused : ∀ r : Except Failure Module, r.toOption.isNone → ∃ cause, r = .error cause := by
    rintro (cause | m) failed
    · exact ⟨cause, rfl⟩
    · exact absurd failed (by simp [Except.toOption])
  obtain ⟨cause, shadowed⟩ := refused (e.state.changeFile lib ⟨"/b/x.py"⟩ "").1 (by decide +kernel)
  have absent : (e.restored "/b" h).1 =
      .error (.noMetadata (Cache.directory (e.cacheDir h) [⟨"/b"⟩])) := by decide +kernel
  have folded := (batch State id (fun t _ => t) [] [] (fun _ _ => rfl)
    (fun _ member => absurd member List.not_mem_nil) lib.sources changes e.state rfl).2
  rw [done] at folded
  simp only [List.nil_append, id_eq] at folded
  exact ⟨keeps _ _ cause shadowed, unrestored _ _ _ absent, done, folded⟩

end Engine

end ImportAtlas
