import ImportAtlas.Json
import ImportAtlas.Module.Basic

/-!
Symbols and module keys as records for other programs.
-/

set_option autoImplicit false

namespace ImportAtlas

def SymbolKind.tag : SymbolKind → String
  | .classDef => "Class"
  | .function => "Function"
  | .attribute => "Attribute"
  | .imported => "Import"
  | .builtin => "Builtin"
  | .module => "ModuleReference"

def SymbolKind.ofTag? (tag : String) : Option SymbolKind :=
  [.classDef, .function, .attribute, .imported, .builtin, .module].find? fun kind =>
    SymbolKind.tag kind = tag

/-- The kind that a value stands for: its name, or an object with the name as its only key and null
under it. -/
def SymbolKind.ofJson? : Json → Option SymbolKind
  | .text (some tag) => ofTag? tag
  | .object [(some tag, .null)] => ofTag? tag
  | _ => none

namespace Symbol

def toJson (s : Symbol) : Json :=
  .ofFields [("representation", .ofText s.name), ("kind", .ofText s.kind.tag),
    ("module_path", .ofText s.owner), ("doc", .ofText? s.doc), ("target", .ofText? s.target)]

def ofValues (name kind owner doc target : Json) : Option Symbol := do
  let name ← name.string?
  let kind ← SymbolKind.ofJson? kind
  let owner ← owner.string?
  let doc ← doc.stringOrNull?
  let target ← target.stringOrNull?
  some { name, kind, owner, doc, target }

/-- The symbol that a record describes. In an object the documentation and the target may be left
out; in an array nothing may. -/
def ofJson? : Json → Option Symbol
  | .object fields =>
    match Json.lookup? ["representation", "kind", "module_path", "doc", "target"] fields with
    | some [some name, some kind, some owner, doc, target] =>
      ofValues name kind owner (doc.getD .null) (target.getD .null)
    | _ => none
  | .array [name, kind, owner, doc, target] => ofValues name kind owner doc target
  | _ => none

def print (s : Symbol) : String :=
  s.toJson.compress

def parse (text : String) : Option Symbol :=
  (Json.parse text).bind ofJson?

end Symbol

namespace ModuleKey

def toJson (key : ModuleKey) : Json :=
  .ofFields [("name", .ofText key.name), ("file", .ofText? (key.file.map Path.text))]

def printAll (keys : List ModuleKey) : String :=
  (Json.array (keys.map toJson)).compress

end ModuleKey

end ImportAtlas
