import ImportAtlas.Disk
import ImportAtlas.Json

/-!
Settings, and the file they are kept in. Every setting has a default and may be left out of the
file; settings are given by name, or in order in an array.
-/

set_option autoImplicit false

namespace ImportAtlas

/-- The settings of an index: its search path, whether its keys are kept between runs, and where;
without a directory they are kept in a common one. -/
structure Config where
  searchPath : String := ""
  persist : Bool := true
  cacheDir : Option Path := none
  deriving DecidableEq, Repr

inductive ConfigFailure
  | unreadable (file : Path)
  | invalid (file : Path)
  deriving DecidableEq, Repr

def ConfigFailure.message : ConfigFailure → String
  | unreadable file => "Failed to read config " ++ file.text
  | invalid file => "Invalid config " ++ file.text

namespace Config

def names : List String := ["search_path", "persist", "cache_dir"]

def toJson (c : Config) : Json :=
  .ofFields [("search_path", .ofText c.searchPath), ("persist", .bool c.persist),
    ("cache_dir", .ofText? (c.cacheDir.map Path.text))]

def setting {α : Type} (read : Json → Option α) (default : α) : Option Json → Option α
  | none => some default
  | some given => read given

def ofValues (searchPath persist cacheDir : Option Json) : Option Config := do
  let searchPath ← setting Json.string? "" searchPath
  let persist ← setting Json.bool? true persist
  let cacheDir ← setting Json.stringOrNull? none cacheDir
  some { searchPath, persist, cacheDir := cacheDir.map Path.mk }

def ofJson? : Json → Option Config
  | .object fields =>
    match Json.lookup? names fields with
    | some [searchPath, persist, cacheDir] => ofValues searchPath persist cacheDir
    | _ => none
  | .array [] => ofValues none none none
  | .array [searchPath] => ofValues (some searchPath) none none
  | .array [searchPath, persist] => ofValues (some searchPath) (some persist) none
  | .array [searchPath, persist, cacheDir] =>
    ofValues (some searchPath) (some persist) (some cacheDir)
  | _ => none

def print (c : Config) : String :=
  c.toJson.pretty

def parse (text : String) : Option Config :=
  (Json.parse text).bind ofJson?

def load (disk : Disk) (file : Path) : Except ConfigFailure Config :=
  match disk.readStrict? file with
  | none => .error (.unreadable file)
  | some text =>
    match parse text with
    | none => .error (.invalid file)
    | some c => .ok c

/-- The file system with the settings in a file; none if the file cannot be written. -/
def save (c : Config) (disk : Disk) (file : Path) : Option Disk :=
  disk.writeDeep file (Text.octets c.print)

end Config

end ImportAtlas
