import ImportAtlas.Module.Builtin
import ImportAtlas.Module.Tables

/-!
Modules and their keys. A module is known by its name and file before its text has been read.
-/

set_option autoImplicit false

namespace ImportAtlas

structure ModuleKey where
  name : String
  file : Option Path
  deriving DecidableEq, Repr

namespace ModuleKey

/-- Files in order: none comes before any. -/
def compareFile : Option Path → Option Path → Ordering
  | none, none => .eq
  | none, some _ => .lt
  | some _, none => .gt
  | some p, some q => p.compare q

def compare (a b : ModuleKey) : Ordering :=
  (Ord.compare a.name b.name).then (compareFile a.file b.file)

/-- Whether two keys have the same name and equal files. -/
def same (a b : ModuleKey) : Bool :=
  a.name == b.name && match a.file, b.file with
    | none, none => true
    | some p, some q => p.same q
    | _, _ => false

/-- The keys in order; keys that compare equal stay in the order in which they came. -/
def sort (keys : List ModuleKey) : List ModuleKey :=
  keys.mergeSort fun a b => a.compare b != .gt

/-- The keys without those that are the same as the one before them. -/
def dropRepeats : List ModuleKey → List ModuleKey
  | [] => []
  | key :: rest =>
    match dropRepeats rest with
    | [] => [key]
    | next :: more => if key.same next then key :: more else key :: next :: more

end ModuleKey

structure SourceModule where
  name : String
  file : Option Path
  doc : Option String
  globals : List Symbol
  imports : List Symbol
  wildcards : List Symbol
  scopes : ScopeTable

def SourceModule.ofTree (name : String) (file : Option Path) (tree : List Python.Statement) :
    SourceModule :=
  let tables := Tables.ofTree (Home.ofFile name file) tree
  { name
    file
    doc := Python.documentation tree
    globals := tables.globals.toList
    imports := tables.imports.toList
    wildcards := tables.wildcards.toList
    scopes := tables.scopes }

/-- An indexed module: a placeholder, a module whose text has been read, or one without a file. -/
inductive Module
  | placeholder (key : ModuleKey)
  | source (m : SourceModule)
  | builtin (t : Builtin.Table)

namespace Module

def name : Module → String
  | placeholder key => key.name
  | source m => m.name
  | builtin t => t.name

def file : Module → Option Path
  | placeholder key => key.file
  | source m => m.file
  | builtin _ => none

def key (m : Module) : ModuleKey :=
  ⟨m.name, m.file⟩

def isLoaded : Module → Bool
  | placeholder _ => false
  | _ => true

def globals : Module → List Symbol
  | placeholder _ => []
  | source m => m.globals
  | builtin t => t.globals

/-- The members of a scope, such as a class by its dotted path. -/
def members (m : Module) (scope : String) : List Symbol :=
  match m with
  | placeholder _ => []
  | source m => m.scopes.members scope
  | builtin t => t.members scope

def imports : Module → List Symbol
  | source m => m.imports
  | _ => []

/-- The modules all of whose symbols are imported. -/
def wildcards : Module → List Symbol
  | source m => m.wildcards
  | _ => []

def doc : Module → Option String
  | placeholder _ => none
  | source m => m.doc
  | builtin t => some t.doc

end Module

end ImportAtlas
