import ImportAtlas.Index.Update
import ImportAtlas.Progress

/-!
Builds: visitors are shown the files of a project, or the changes in it, one after the other. A
failure is noted and the build goes on; a cancellation is seen before the next file and before the
next visitor.
-/

set_option autoImplicit false

namespace ImportAtlas.Build

inductive Change
  | changed (file : Path)
  | removed (file : Path)
  | directoryRemoved (dir : Path)
  deriving DecidableEq, Repr

def Change.path : Change → Path
  | changed file => file
  | removed file => file
  | directoryRemoved dir => dir

/-- A change as visitors see it: with the text of a changed file. -/
inductive Visit
  | changed (file : Path) (text : String)
  | removed (file : Path)
  | directoryRemoved (dir : Path)
  deriving DecidableEq, Repr

/-- What a visitor does: the state it leaves, its failure, and whether it cancels the build. -/
structure Reaction (σ : Type) where
  state : σ
  failure : Option Failure := none
  cancels : Bool := false

structure Visitor (σ : Type) where
  name : String
  visit : Visit → σ → Reaction σ

/-- A failure at a path: of a visitor, or of the reader. -/
structure Incident where
  path : Path
  visitor : String
  failure : Failure
  deriving DecidableEq, Repr

def readerName : String := "reader"

/-- A build so far: the state, the number of units that went through all visitors, the failures,
whether work was left out because of a cancellation, whether there has been a cancellation, and the
progress. -/
structure Run (σ : Type) where
  state : σ
  processed : Nat := 0
  incidents : List Incident := []
  interrupted : Bool := false
  cancelled : Bool := false
  events : List Event := []

namespace Run

variable {σ : Type}

def isClean (r : Run σ) : Bool :=
  r.incidents.isEmpty && !r.interrupted

def report (r : Run σ) (e : Event) : Run σ :=
  { r with events := r.events ++ [e] }

def react (r : Run σ) (path : Path) (name : String) (reaction : Reaction σ) : Run σ :=
  { r with
    state := reaction.state
    incidents := r.incidents ++ (reaction.failure.map (Incident.mk path name)).toList
    cancelled := r.cancelled || reaction.cancels }

/-- Shows a change to visitors in turn. Counts it when the last one has seen it. -/
def visitAll (path : Path) (visit : Visit) : List (Visitor σ) → Run σ → Run σ
  | [], r => { r with processed := r.processed + 1 }
  | v :: rest, r =>
    if r.cancelled then { r with interrupted := true }
    else visitAll path visit rest (r.react path v.name (v.visit visit r.state))

def follow (sources : Sources) (visitors : List (Visitor σ)) (change : Change) (r : Run σ) :
    Run σ :=
  match change with
  | .changed file =>
    match sources.read file with
    | .ok text => r.visitAll file (.changed file text) visitors
    | .error cause =>
      { r with incidents := r.incidents ++ [⟨file, readerName, .ofRead "" file cause⟩] }
  | .removed file => r.visitAll file (.removed file) visitors
  | .directoryRemoved dir => r.visitAll dir (.directoryRemoved dir) visitors

end Run

structure Item where
  description : String
  change : Change
  deriving DecidableEq, Repr

variable {σ : Type}

def runUnits (sources : Sources) (visitors : List (Visitor σ)) : List Item → Run σ → Run σ
  | [], r => r
  | unit :: rest, r =>
    if r.cancelled then { r with interrupted := true }
    else
      let r := (r.report (.detail unit.description)).follow sources visitors unit.change
      runUnits sources visitors rest (r.report (.worked 1))

def run (task : String) (sources : Sources) (visitors : List (Visitor σ)) (units : List Item)
    (cancelled : Bool) (state : σ) : Run σ :=
  let r : Run σ := { state, cancelled, events := [.begin task (some units.length)] }
  let r := runUnits sources visitors units r
  r.report (.done task r.cancelled)

def fullUnits (files : List Path) : List Item :=
  files.zipIdx.map fun (file, i) =>
    ⟨"Building " ++ file.text ++ " (" ++ Text.decimal (i + 1) ++ " of " ++
      Text.decimal files.length ++ ")", .changed file⟩

def full (sources : Sources) (visitors : List (Visitor σ)) (files : List Path) (cancelled : Bool)
    (state : σ) : Run σ :=
  run "Full build" sources visitors (fullUnits files) cancelled state

def incrementalUnits (changes : List Change) : List Item :=
  changes.map fun change => ⟨"Processing " ++ change.path.text, change⟩

def incremental (sources : Sources) (visitors : List (Visitor σ)) (changes : List Change)
    (cancelled : Bool) (state : σ) : Run σ :=
  run "Incremental build" sources visitors (incrementalUnits changes) cancelled state

/-- Whether a failure only tells that a file is none of the index. -/
def isForeign : Failure → Bool
  | .outside _ => true
  | .shadowed _ _ _ => true
  | _ => false

def indexFailure {α : Type} : Except Failure α → Option Failure
  | .ok _ => none
  | .error e => if isForeign e then none else some e

def indexReaction (lib : Library) (visit : Visit) (s : State) : Reaction State :=
  match visit with
  | .changed file text =>
    let (result, s) := s.changeFile lib file text
    { state := s, failure := indexFailure result }
  | .removed file =>
    let (result, s) := s.removeFile lib file
    { state := s, failure := indexFailure result }
  | .directoryRemoved dir =>
    let (result, s) := s.removeDirectory dir
    { state := s, failure := indexFailure result }

/-- The visitor that keeps an index in step with a project; the index is a part of the shared
state. -/
def indexVisitor (lib : Library) (get : σ → State) (set : State → σ → σ) : Visitor σ where
  name := "completion"
  visit event s :=
    let reaction := indexReaction lib event (get s)
    { state := set reaction.state s, failure := reaction.failure, cancels := reaction.cancels }

end ImportAtlas.Build
