import ImportAtlas.Path
import ImportAtlas.Text.Decimal

/-!
What can go wrong with a module, and how it is worded.
-/

set_option autoImplicit false

namespace ImportAtlas

inductive ReadCause
  | notFound
  | permissionDenied
  | invalidData
  | timedOut
  | isDirectory
  | notDirectory
  | linkLoop
  | other
  deriving DecidableEq, Repr

/-- A failed attempt to read a file, in the words of what refused it. -/
structure ReadFailure where
  cause : ReadCause
  text : String
  deriving DecidableEq, Repr

/-- Why a text has no syntax tree. The place of a mistake in it is known to some readers only. -/
inductive ParseFailure
  | noGrammar (text : String)
  | noTree
  | malformed (place : Option (Nat × Nat))
  deriving DecidableEq, Repr

def ParseFailure.message : ParseFailure → String
  | noGrammar text => "grammar could not be loaded: " ++ text
  | noTree => "parser produced no tree"
  | malformed none => "syntax error"
  | malformed (some (line, column)) =>
    "syntax error at line " ++ Text.decimal line ++ ", column " ++ Text.decimal column

inductive Failure
  | unresolvable (name : String)
  | stale (name : String) (file : Path)
  | unparsable (origin : String) (cause : ParseFailure)
  | unreadable (file : Path) (cause : ReadFailure)
  | outside (file : Path)
  | reserved (name : String)
  | shadowed (name : String) (file : Path) (winner : Path)
  deriving DecidableEq, Repr

namespace Failure

/-- The failure of a module whose file could not be read: a missing file means that the index is out
of date. -/
def ofRead (name : String) (file : Path) (cause : ReadFailure) : Failure :=
  if cause.cause = .notFound then stale name file else unreadable file cause

def isMissing : Failure → Bool
  | unresolvable _ => true
  | stale _ _ => true
  | _ => false

def message : Failure → String
  | unresolvable name => "module `" ++ name ++ "` could not be resolved"
  | stale name file =>
    "indexed file " ++ file.text ++ " for module `" ++ name ++ "` no longer exists"
  | unparsable origin cause => "failed to parse `" ++ origin ++ "`: " ++ cause.message
  | unreadable file cause => "failed to read " ++ file.text ++ ": " ++ cause.text
  | outside file => file.text ++ " is not under any search path root"
  | reserved name => "module name `" ++ name ++ "` is reserved for a builtin module"
  | shadowed name file winner =>
    file.text ++ " is shadowed by " ++ winner.text ++ " for module `" ++ name ++ "`"

end Failure

end ImportAtlas
