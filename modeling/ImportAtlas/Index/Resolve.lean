import ImportAtlas.Index.Basic

/-!
Looking modules up. A placeholder is loaded when it is asked for, and leaves the index if that
fails.

Lookups come one after the other here. Nothing happens to the index between the moment at which a
placeholder is found and that at which its module takes its place, so there is no table of loads that
are under way: the entry is not looked up a second time before it is loaded, and it is replaced or
evicted without asking whether it is still the one that was found. A preload is a pass over the names.
-/

set_option autoImplicit false

namespace ImportAtlas

namespace State

def log (s : State) (a : Access) : State :=
  { s with accesses := s.accesses ++ [a] }

def put (s : State) (name : String) (m : Module) : State :=
  { s with index := s.index.put name m }

def evict (s : State) (name : String) : State :=
  { s with index := s.index.erase name }

def parseModule (lib : Library) (name : String) (file : Path) (text : String) (s : State) :
    Except Failure Module × State :=
  let s := s.log (.parse text)
  match lib.parser text with
  | .error cause => (.error (.unparsable file.text cause), s)
  | .ok tree => (.ok (.source (.ofTree name (some file) tree)), s)

def readModule (lib : Library) (name : String) (file : Path) (s : State) :
    Except Failure Module × State :=
  let s := s.log (.read file)
  match lib.sources.read file with
  | .error cause => (.error (.ofRead name file cause), s)
  | .ok text => s.parseModule lib name file text

/-- Puts the module that a placeholder stands for in its place. A placeholder whose file makes no
module leaves the index. -/
def load (lib : Library) (key : ModuleKey) (s : State) : Except Failure Module × State :=
  match key.file with
  | none =>
    match Builtin.ofName? key.name with
    | some table => (.ok (.builtin table), s.put key.name (.builtin table))
    | none => (.error (.unresolvable key.name), s)
  | some file =>
    match s.readModule lib key.name file with
    | (.ok m, s) => (.ok m, s.put key.name m)
    | (.error e, s) => (.error e, s.evict key.name)

end State

namespace Index

/-- The entry that a name asks for: its own, or that of the initializer in a package of that
name. -/
def entryFor (i : Index) (name : String) : Option Module :=
  (i.get? name).orElse fun _ => i.get? (name ++ "." ++ Path.packageInit)

end Index

def State.resolve (lib : Library) (name : String) (s : State) : Except Failure Module × State :=
  match s.index.entryFor name with
  | none => (.error (.unresolvable name), s)
  | some (.placeholder key) => s.load lib key
  | some m => (.ok m, s)

structure PreloadReport where
  loaded : Nat
  failed : Nat
  cancelled : Bool
  events : List Event
  deriving DecidableEq, Repr

namespace State

def preloadTask : String := "Loading modules"

/-- Resolves names one after the other; counts those that were loaded and those that failed. -/
def resolveAll (lib : Library) : List String → State → (Nat × Nat) × State
  | [], s => ((0, 0), s)
  | name :: rest, s =>
    let (result, s) := s.resolve lib name
    let ((loaded, failed), s) := resolveAll lib rest s
    match result with
    | .ok _ => ((loaded + 1, failed), s)
    | .error _ => ((loaded, failed + 1), s)

def preloadNames (lib : Library) (cancel : Cancellation) (names : List String) (s : State) :
    PreloadReport × State :=
  let units := cancel.keep names
  let ((loaded, failed), after) := s.resolveAll lib units
  let events := .begin preloadTask (some names.length) :: units.map (fun _ => Event.worked 1) ++
    [.done preloadTask (cancel.sees names.length)]
  (⟨loaded, failed, cancel.sees (names.length + 1), events⟩, after)

def preload (lib : Library) (cancel : Cancellation) (s : State) : PreloadReport × State :=
  s.preloadNames lib cancel s.index.unloaded

end State

end ImportAtlas
