import ImportAtlas.Index.Resolve

/-!
What is visible at a place in a module: with nothing before the cursor, everything the module
defines and imports; behind a name, what that name leads to.
-/

set_option autoImplicit false

namespace ImportAtlas.Completion

/-- The names under which a walk along wildcard imports has been. -/
abbrev Visited := List String

/-- Marks a module as visited under its own name, if it has one. -/
def visit (visited : Visited) (name : String) : Visited :=
  if name = "" || visited.contains name then visited else name :: visited

structure Walk where
  symbols : SymbolSet
  visited : Visited
  state : State

/-- Adds what one wildcard import leads to, unless its target has been visited; `expand` gathers the
symbols of the module it resolves to. -/
def followWildcard (lib : Library) (expand : Module → Visited → State → Walk) (w : Walk)
    (wildcard : Symbol) : Walk :=
  let target := wildcard.path
  if w.visited.contains target then w
  else
    let visited := target :: w.visited
    match w.state.resolve lib target with
    | (.ok m, s) =>
      let inner := expand m visited s
      ⟨w.symbols.insertAll inner.symbols.toList, inner.visited, inner.state⟩
    | (.error _, s) => ⟨w.symbols, visited, s⟩

/-- The symbols of a module and of all modules its wildcard imports lead to, at most `depth` of them
one inside the other. -/
def expand (lib : Library) : (depth : Nat) → Module → Visited → State → Walk
  | 0, _, visited, s => ⟨.empty, visited, s⟩
  | depth + 1, m, visited, s =>
    let own := (SymbolSet.empty.insertAll m.globals).insertAll m.imports
    m.wildcards.foldl (followWildcard lib (expand lib depth)) ⟨own, visit visited m.name, s⟩

/-- A depth that no walk exceeds: each step leads to a target that resolves and has not been
visited, and an entry can be resolved under its own name and under the name of its package. -/
def enoughDepth (s : State) : Nat :=
  2 * s.index.size + 2

def reachable (lib : Library) (m : Module) (s : State) : SymbolSet × State :=
  let w := expand lib (enoughDepth s) m [] s
  (w.symbols, w.state)

/-- The symbols visible with nothing before the cursor: those reachable from the module, and those
that are visible everywhere. -/
def bare (lib : Library) (m : Module) (s : State) : SymbolSet × State :=
  let (symbols, s) := reachable lib m s
  match s.resolve lib Builtin.ambientName with
  | (.ok ambient, s) => (symbols.insertAll ambient.globals, s)
  | (.error _, s) => (symbols, s)

/-- What an imported path leads to: the module of its longest beginning that resolves, and in it the
scope named by the remaining segments. `rest` holds the segments already found not to belong to the
module, and the path is given backwards. -/
def descend (lib : Library) : (path rest : List String) → State → List Symbol × State
  | [], _, s => ([], s)
  | last :: before, rest, s =>
    match s.resolve lib (SearchPath.joinDots (last :: before).reverse) with
    | (.ok m, s) =>
      if rest.isEmpty then
        let (symbols, s) := reachable lib m s
        (symbols.toList, s)
      else (m.members (SearchPath.joinDots rest), s)
    | (.error _, s) => descend lib before (last :: rest) s

/-- The symbols visible behind a name: those its import leads to, or else the members of a scope of
the module itself. -/
def behind (lib : Library) (m : Module) (name : String) (s : State) : List Symbol × State :=
  match m.imports.find? fun i => i.name = name with
  | some i => descend lib (Text.split '.' i.path).reverse [] s
  | none => (m.members name, s)

/-- The name before the cursor without white space around it and dots behind it. -/
def cursorName (text : String) : String :=
  String.ofList (Text.dropEndWhile (· == '.') (Text.trimChars text.toList))

/-- The symbols visible in a module at a cursor behind `activation`. The beginning of the identifier
at the cursor does not restrict them. -/
def atCursor (lib : Library) (m : Module) (activation : String) (s : State) :
    List Symbol × State :=
  let name := cursorName activation
  if name = "" then
    let (symbols, s) := bare lib m s
    (symbols.toList, s)
  else behind lib m name s

end ImportAtlas.Completion
