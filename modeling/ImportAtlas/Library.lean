import ImportAtlas.Failure
import ImportAtlas.Python.Tree

/-!
Where modules are read from: the texts of files, and the syntax trees of texts.
-/

set_option autoImplicit false

namespace ImportAtlas

/-- Gives the texts of files. Whether a file exists need not agree with whether it can be read. -/
structure Sources where
  read : Path → Except ReadFailure String
  contains : Path → Bool

abbrev Parser := String → Except ParseFailure (List Python.Statement)

structure Library where
  sources : Sources
  parser : Parser

inductive Access
  | read (file : Path)
  | parse (text : String)
  deriving DecidableEq, Repr

end ImportAtlas
