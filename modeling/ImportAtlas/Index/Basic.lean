import ImportAtlas.Library
import ImportAtlas.Module.Basic
import ImportAtlas.NameMap
import ImportAtlas.Progress

/-!
The index: a table from names to modules, and the search path it was made for. Modules are indexed
as placeholders and loaded when they are first asked for.
-/

set_option autoImplicit false

namespace ImportAtlas

/-- The indexed modules by name, under the search path that names files. -/
structure Index where
  searchPath : SearchPath
  modules : NameMap Module

/-- An index in use, with all accesses to the library so far. -/
structure State where
  index : Index
  accesses : List Access := []

namespace Index

/-- A placeholder without a file under each reserved name. -/
def withBuiltins (modules : NameMap Module) : NameMap Module :=
  Builtin.names.foldl (fun m name => NameMap.put m name (.placeholder ⟨name, none⟩)) modules

def initial (cwd : Path) : Index :=
  ⟨.empty cwd, withBuiltins []⟩

def get? (i : Index) (name : String) : Option Module :=
  NameMap.get? i.modules name

def contains (i : Index) (name : String) : Bool :=
  NameMap.contains i.modules name

def size (i : Index) : Nat :=
  i.modules.length

def isEmpty (i : Index) : Bool :=
  i.modules.isEmpty

def names (i : Index) : List String :=
  NameMap.keys i.modules

def keys (i : Index) : List ModuleKey :=
  ModuleKey.sort (i.modules.map fun (_, m) => m.key)

def files (i : Index) : List Path :=
  i.modules.filterMap fun (_, m) => m.file

def unloaded (i : Index) : List String :=
  (i.modules.filter fun (_, m) => !m.isLoaded).map Prod.fst

def put (i : Index) (name : String) (m : Module) : Index :=
  { i with modules := NameMap.put i.modules name m }

def erase (i : Index) (name : String) : Index :=
  { i with modules := NameMap.erase i.modules name }

/-- The text that describes an index to a maintainer. -/
def describe (i : Index) : String :=
  let root (p : Path) : String :=
    String.ofList ('"' :: p.text.toList.flatMap quotedChar ++ ['"'])
  "ModuleIndex \x7b modules: " ++ Text.decimal i.size ++ ", roots: [" ++
    ", ".intercalate (i.searchPath.roots.map root) ++ "] \x7d"
where
  /-- A character as it is written between quotes. -/
  quotedChar (c : Char) : List Char :=
    if c = '"' then ['\\', '"']
    else if c = '\\' then ['\\', '\\']
    else if c = '\n' then ['\\', 'n']
    else if c = '\r' then ['\\', 'r']
    else if c = '\t' then ['\\', 't']
    else if c = '\x00' then ['\\', '0']
    else if c.toNat < 0x20 || (0x7f ≤ c.toNat && c.toNat ≤ 0xa0) || c.toNat = 0xad then
      ("\\u\x7b" ++ String.ofList (Nat.toDigits 16 c.toNat) ++ "\x7d").toList
    else [c]

end Index

end ImportAtlas
