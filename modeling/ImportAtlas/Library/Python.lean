import ImportAtlas.Disk
import ImportAtlas.Library
import ImportAtlas.Python.Statement

/-!
The library of a file system, whose files are read as Python.
-/

set_option autoImplicit false

namespace ImportAtlas

/-- The parser of Python; it does not tell where a mistake is. -/
def Python.parser : Parser := fun text =>
  match Python.parse text with
  | some tree => .ok tree
  | none => .error (.malformed none)

def Disk.sources (d : Disk) : Sources :=
  ⟨d.readText, d.isFile⟩

def Disk.library (d : Disk) : Library :=
  ⟨d.sources, Python.parser⟩

end ImportAtlas
