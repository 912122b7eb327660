import ImportAtlas.Index.Update
import ImportAtlas.Proofs.Lookups

/-!
The accesses to the library are a record that nothing reads. So an operation answers the same, and
makes the same of the index, whatever has been read before.
-/

set_option autoImplicit false

namespace ImportAtlas

namespace State

/-- The state with other accesses before its own. -/
def following (earlier : List Access) (s : State) : State :=
  { s with accesses := earlier ++ s.accesses }

variable (lib : Library) (earlier : List Access)

@[simp] theorem index_following (s : State) : (s.following earlier).index = s.index := rfl

private theorem following_log (s : State) (a : Access) :
    (s.following earlier).log a = (s.log a).following earlier := by
  simp [following, log]

private theorem readModule_following (name : String) (file : Path) (s : State) :
    (s.following earlier).readModule lib name file =
      Prod.map id (following earlier) (s.readModule lib name file) := by
  simp only [readModule, parseModule, following_log]
  cases lib.sources.read file with
  | error cause => rfl
  | ok text =>
    simp only
    cases lib.parser text with
    | error cause => rfl
    | ok tree => rfl

private theorem load_following (key : ModuleKey) (s : State) :
    (s.following earlier).load lib key = Prod.map id (following earlier) (s.load lib key) := by
  obtain ⟨name, file⟩ := key
  cases file with
  | none =>
    simp only [load]
    cases Builtin.ofName? name with
    | none => rfl
    | some table => rfl
  | some file =>
    simp only [load, readModule_following]
    rcases s.readModule lib name file with ⟨cause | m, t⟩
    · rfl
    · rfl

private theorem resolve_following (name : String) (s : State) :
    (s.following earlier).resolve lib name =
      Prod.map id (following earlier) (s.resolve lib name) := by
  simp only [resolve, index_following]
  cases s.index.entryFor name with
  | none => rfl
  | some m =>
    cases m with
    | placeholder key => exact load_following lib earlier key s
    | source m => rfl
    | builtin t => rfl

private theorem resolveAll_following (names : List String) (s : State) :
    (s.following earlier).resolveAll lib names =
      Prod.map id (following earlier) (s.resolveAll lib names) := by
  induction names generalizing s with
  | nil => rfl
  | cons name rest ih =>
    simp only [resolveAll, resolve_following, Prod.map, id, ih]
    cases (s.resolve lib name).1 with
    | error cause => rfl
    | ok m => rfl

private theorem preloadNames_following (cancel : Cancellation) (names : List String) (s : State) :
    (s.following earlier).preloadNames lib cancel names =
      Prod.map id (following earlier) (s.preloadNames lib cancel names) := by
  simp only [preloadNames, resolveAll_following]
  rfl

theorem moduleOfBuffer_following (path : Option Path) (text : String) (s : State) :
    (s.following earlier).moduleOfBuffer lib path text =
      Prod.map id (following earlier) (s.moduleOfBuffer lib path text) := by
  have same : (s.following earlier).fileOf = s.fileOf := rfl
  simp only [moduleOfBuffer, parseText, same]
  cases lib.parser text with
  | error cause => simp [following]
  | ok tree => simp [following]

theorem changeFile_following (path : Path) (text : String) (s : State) :
    (s.following earlier).changeFile lib path text =
      Prod.map id (following earlier) (s.changeFile lib path text) := by
  have same : (s.following earlier).fileOf path = s.fileOf path := rfl
  simp only [changeFile, changeModule, parseText, index_following, same]
  cases s.index.searchPath.moduleName (s.fileOf path) with
  | none => rfl
  | some name =>
    simp only
    split
    · rfl
    · split
      · rfl
      · cases lib.parser text with
        | error cause => simp [following]
        | ok tree =>
          simp only
          cases s.index.upsert lib.sources.contains name (some (s.fileOf path)) tree with
          | error e => simp [following]
          | ok after => simp [following]

theorem removeFile_following (path : Path) (s : State) :
    (s.following earlier).removeFile lib path =
      Prod.map id (following earlier) (s.removeFile lib path) := by
  simp only [removeFile, index_following]
  cases s.index.remove lib.sources.contains path with
  | error e => rfl
  | ok after => rfl

theorem removeDirectory_following (path : Path) (s : State) :
    (s.following earlier).removeDirectory path =
      Prod.map id (following earlier) (s.removeDirectory path) := by
  simp only [removeDirectory, index_following]
  cases s.index.removeTree path with
  | error e => rfl
  | ok after => rfl

theorem following_index (s : State) : (⟨s.index, []⟩ : State).following s.accesses = s := by
  simp [following]

end State

namespace Completion

open State

variable (lib : Library) (earlier : List Access)

def Walk.following (earlier : List Access) (w : Walk) : Walk :=
  { w with state := w.state.following earlier }

private theorem followWildcard_following {expand : Module → Visited → State → Walk}
    (inner : ∀ m visited s,
      expand m visited (s.following earlier) = (expand m visited s).following earlier)
    (w : Walk) (x : Symbol) :
    followWildcard lib expand (w.following earlier) x =
      (followWildcard lib expand w x).following earlier := by
  simp only [followWildcard, Walk.following, resolve_following]
  split
  · rfl
  · rcases w.state.resolve lib x.path with ⟨cause | m, t⟩
    · rfl
    · simp only [Prod.map, id, inner]
      rfl

private theorem expand_following (depth : Nat) (m : Module) (visited : Visited) (s : State) :
    expand lib depth m visited (s.following earlier) =
      (expand lib depth m visited s).following earlier := by
  induction depth generalizing m visited s with
  | zero => rfl
  | succ depth ih =>
    -- The step of the fold commutes with the earlier accesses because the depth below does.
    have begins : enter m visited (s.following earlier) =
        (enter m visited s).following earlier := rfl
    have step := followWildcard_following lib earlier ih
    rw [expand_succ, expand_succ, begins]
    exact List.foldl_hom (Walk.following earlier) step

private theorem reachable_following (m : Module) (s : State) :
    reachable lib m (s.following earlier) = Prod.map id (following earlier) (reachable lib m s) := by
  have depth : enoughDepth (s.following earlier) = enoughDepth s := rfl
  simp only [reachable, depth, expand_following]
  rfl

private theorem bare_following (m : Module) (s : State) :
    bare lib m (s.following earlier) = Prod.map id (following earlier) (bare lib m s) := by
  simp only [bare, reachable_following, Prod.map, id, resolve_following]
  rcases (reachable lib m s).2.resolve lib Builtin.ambientName with ⟨cause | ambient, t⟩
  · rfl
  · rfl

private theorem descend_following (path rest : List String) (s : State) :
    descend lib path rest (s.following earlier) =
      Prod.map id (following earlier) (descend lib path rest s) := by
  induction path generalizing rest s with
  | nil => rfl
  | cons last before ih =>
    simp only [descend, resolve_following]
    rcases s.resolve lib (SearchPath.joinDots (last :: before).reverse) with ⟨cause | m, t⟩
    · exact ih _ t
    · simp only [Prod.map, id, reachable_following]
      split <;> rfl

private theorem behind_following (m : Module) (name : String) (s : State) :
    behind lib m name (s.following earlier) =
      Prod.map id (following earlier) (behind lib m name s) := by
  unfold behind
  split
  · exact descend_following lib earlier _ _ s
  · rfl

theorem atCursor_following (m : Module) (activation : String) (s : State) :
    atCursor lib m activation (s.following earlier) =
      Prod.map id (following earlier) (atCursor lib m activation s) := by
  simp only [atCursor, bare_following]
  split
  · rfl
  · exact behind_following lib earlier m _ s

theorem inImport_following (raw : String) (s : State) :
    inImport lib raw (s.following earlier) =
      Prod.map id (following earlier) (inImport lib raw s) := by
  simp only [inImport, index_following, resolve_following]
  split
  · rfl
  · rcases s.resolve lib (typedName raw) with ⟨cause | m, t⟩
    · rfl
    · rfl

end Completion

open Function (id_comp comp_id)

inductive Question
  | keys
  | resolve (name : String)
  | atCursor (context : Module) (activation : String)
  | inImport (typed : String)
  | buffer (file : Option Path) (text : String)
  | preload (cancel : Cancellation) (names : List String)

inductive Reply
  | keys (keys : List ModuleKey)
  | module (result : Except Failure Module)
  | symbols (symbols : List Symbol)
  | preloaded (report : PreloadReport)

/-- Asks one question. Modules may be loaded for it. -/
def Question.ask (lib : Library) (s : State) : Question → Reply × State
  | keys => (.keys s.index.keys, s)
  | resolve name => (s.resolve lib name).map .module id
  | atCursor m activation => (Completion.atCursor lib m activation s).map .symbols id
  | inImport typed => (Completion.inImport lib typed s).map .symbols id
  | buffer file text => (s.moduleOfBuffer lib file text).map .module id
  | preload cancel names => (s.preloadNames lib cancel names).map .preloaded id

def State.answers (lib : Library) : List Question → State → List Reply
  | [], _ => []
  | q :: rest, s => (q.ask lib s).1 :: answers lib rest (q.ask lib s).2

private theorem Question.ask_following (lib : Library) (earlier : List Access) (q : Question)
    (s : State) :
    q.ask lib (s.following earlier) = Prod.map id (State.following earlier) (q.ask lib s) := by
  cases q with
  | keys => rfl
  | resolve name => simp only [ask, State.resolve_following, Prod.map_map, id_comp, comp_id]
  | atCursor m activation =>
    simp only [ask, Completion.atCursor_following, Prod.map_map, id_comp, comp_id]
  | inImport typed =>
    simp only [ask, Completion.inImport_following, Prod.map_map, id_comp, comp_id]
  | buffer file text =>
    simp only [ask, State.moduleOfBuffer_following, Prod.map_map, id_comp, comp_id]
  | preload cancel names =>
    simp only [ask, State.preloadNames_following, Prod.map_map, id_comp, comp_id]

private theorem State.answers_following (lib : Library) (earlier : List Access) (qs : List Question)
    (s : State) : (s.following earlier).answers lib qs = s.answers lib qs := by
  induction qs generalizing s with
  | nil => rfl
  | cons q rest ih =>
    rw [answers, answers, Question.ask_following]
    exact congrArg _ (ih _)

/-- Two states with one index answer every sequence of questions alike. -/
theorem State.answers_eq {s t : State} (same : s.index = t.index) (lib : Library)
    (qs : List Question) : s.answers lib qs = t.answers lib qs := by
  rw [← following_index s, ← following_index t, answers_following, answers_following, same]

end ImportAtlas
