import ImportAtlas.Python.Bindings
import ImportAtlas.SearchPath
import ImportAtlas.Symbol

/-!
The symbol tables of a syntax tree: the names a module defines at its top level, the members of its
classes, and what it imports.
-/

set_option autoImplicit false

namespace ImportAtlas

open Python

/-- The members of each class by its dotted path. Where a path was recorded twice, the entry in
front is the later one. -/
abbrev ScopeTable := List (String × List Symbol)

/-- The members recorded for a scope; none for an unknown one. -/
def ScopeTable.members (t : ScopeTable) (scope : String) : List Symbol :=
  (t.lookup scope).getD []

structure Tables where
  globals : SymbolSet := .empty
  imports : SymbolSet := .empty
  wildcards : SymbolSet := .empty
  scopes : ScopeTable := []

/-- The name of the module whose text is read, and the package its relative imports start from; a
text without a name has none. -/
structure Home where
  name : String
  package : Option String

namespace Home

def parentName (name : String) : String :=
  match Text.splitLast? '.' name.toList with
  | some (parent, _) => String.ofList parent
  | none => ""

/-- A package's initializer imports relative to the package itself, any other module relative to the
package around it. -/
def ofFile (name : String) (file : Option Path) : Home :=
  if name = "" then ⟨name, none⟩
  else if file.any Path.isPackageInit then ⟨name, some name⟩
  else ⟨name, some (parentName name)⟩

def symbol (home : Home) (name : String) (kind : SymbolKind) : Symbol :=
  { name, kind, owner := home.name }

def importSymbol (home : Home) (name target : String) : Symbol :=
  { name, kind := .imported, owner := home.name, target := some target }

/-- The module that an import's source names. One leading dot is the package itself, and each
further one leads one level up. White space in the source does not count. -/
def absolute (home : Home) (source : String) : String :=
  let chars := source.toList.filter fun c => !Text.isBlank c
  let dots := (chars.takeWhile (· == '.')).length
  let rest := String.ofList (chars.drop dots)
  if dots = 0 then rest
  else
    let around := (Text.split '.' (home.package.getD "")).filter (· ≠ "")
    let kept := around.take (around.length - (dots - 1))
    SearchPath.joinDots (kept ++ if rest = "" then [] else [rest])

end Home

def methodAttributes (home : Home) (decorators : List Decorator) (parameters : List Parameter)
    (body : List Statement) : List Symbol :=
  if isStatic decorators then []
  else match receiverOf parameters with
    | some receiver => (blockAttributes receiver body).map (home.symbol · .attribute)
    | none => []

def classSymbol (home : Home) (name : String) (body : List Statement) : Symbol :=
  { home.symbol name .classDef with doc := documentation body }

def functionSymbol (home : Home) (name : String) (body : List Statement) : Symbol :=
  { home.symbol name .function with doc := documentation body }

structure Members where
  set : SymbolSet
  scopes : ScopeTable

mutual
/-- Adds what a statement of a class body defines. The scope of an inner class is recorded once its
own members are known. -/
def memberStatement (home : Home) (scope : String) (m : Members) : Statement → Members
  | .classDef _ name body =>
    let inner := scope ++ "." ++ name
    let found := memberBlock home inner ⟨.empty, m.scopes⟩ body
    ⟨m.set.insert (classSymbol home name body), (inner, found.set.toList) :: found.scopes⟩
  | .functionDef decorators name parameters body =>
    let set := m.set.insertAll (methodAttributes home decorators parameters body)
    ⟨set.insert (functionSymbol home name body), m.scopes⟩
  | .assign targets =>
    ⟨m.set.insertAll ((Target.namesAll targets).map (home.symbol · .attribute)), m.scopes⟩
  | .compound clauses => memberClauses home scope m clauses
  | _ => m

def memberBlock (home : Home) (scope : String) (m : Members) : List Statement → Members
  | [] => m
  | statement :: rest => memberBlock home scope (memberStatement home scope m statement) rest

def memberClauses (home : Home) (scope : String) (m : Members) : List Clause → Members
  | [] => m
  | .mk _ body :: rest => memberClauses home scope (memberBlock home scope m body) rest
end

def addClass (home : Home) (scopes : ScopeTable) (scope : String) (body : List Statement) :
    ScopeTable :=
  let found := memberBlock home scope ⟨.empty, scopes⟩ body
  (scope, found.set.toList) :: found.scopes

/-- The symbol that one entry of `import` binds; its path is taken as it is spelled. -/
def importedSymbol (home : Home) : ImportItem → Option Symbol
  | .name path => some (home.importSymbol path.text path.text)
  | .aliased path localName => some (home.importSymbol localName path.text)
  | .comment _ => none

/-- The path of a name in a module; `base` may be empty. -/
def qualify (base name : String) : String :=
  if base = "" then name else base ++ "." ++ name

def importedFromSymbol (home : Home) (base : String) : ImportItem → Option Symbol
  | .name path => some (home.importSymbol path.text (qualify base path.text))
  | .aliased path localName => some (home.importSymbol localName (qualify base path.text))
  | .comment _ => none

def wildcardSymbols (home : Home) (base : String) : List Symbol :=
  if base = "" then [] else [home.importSymbol base base]

mutual
def topStatement (home : Home) (t : Tables) : Statement → Tables
  | .classDef _ name body =>
    { t with
      globals := t.globals.insert (classSymbol home name body)
      scopes := addClass home t.scopes name body }
  | .functionDef _ name _ body =>
    { t with globals := t.globals.insert (functionSymbol home name body) }
  | .assign targets =>
    { t with
      globals := t.globals.insertAll ((Target.namesAll targets).map (home.symbol · .attribute)) }
  | .importNames items =>
    { t with imports := t.imports.insertAll (items.filterMap (importedSymbol home)) }
  | .importFrom source items =>
    let base := home.absolute source.text
    { t with imports := t.imports.insertAll (items.filterMap (importedFromSymbol home base)) }
  | .importAll source =>
    { t with wildcards := t.wildcards.insertAll (wildcardSymbols home (home.absolute source.text)) }
  | .compound clauses => topClauses home t clauses
  | _ => t

def topBlock (home : Home) (t : Tables) : List Statement → Tables
  | [] => t
  | statement :: rest => topBlock home (topStatement home t statement) rest

def topClauses (home : Home) (t : Tables) : List Clause → Tables
  | [] => t
  | .mk _ body :: rest => topClauses home (topBlock home t body) rest
end

def Tables.ofTree (home : Home) (tree : List Statement) : Tables :=
  topBlock home {} tree

end ImportAtlas
