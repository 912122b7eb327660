import ImportAtlas.Index.Basic

/-!
Making an index anew: from the files of a search path, or from the keys of an earlier index.
-/

set_option autoImplicit false

namespace ImportAtlas

/-- What a rebuild found: the modules (none if it was cancelled), the number of files that made no
entry, whether it was cancelled, and its progress. -/
structure RebuildReport where
  modules : Nat
  skipped : Nat
  cancelled : Bool
  events : List Event
  deriving DecidableEq, Repr

namespace Index

def rebuildTask : String := "Rebuilding module index"

structure Found where
  modules : NameMap Module := []
  skipped : Nat := 0
  events : List Event := []

/-- Takes one more file. It makes no entry if it has no name, a reserved one, or one that an earlier
file has. -/
def Found.add (s : SearchPath) (found : Found) (file : Path) : Found :=
  let events := found.events ++ [.worked 1]
  let skip (events : List Event) : Found := { found with skipped := found.skipped + 1, events }
  match s.moduleName file with
  | none => skip events
  | some name =>
    if name = "" || Builtin.isReserved name then skip events
    else
      let events := events ++ [.detail ("Found module " ++ name)]
      if NameMap.contains found.modules name then skip events
      else
        { found with
          modules := NameMap.put found.modules name (.placeholder ⟨name, some file⟩)
          events }

/-- The index of the given files under a search path. A rebuild that finds itself cancelled before
one of the files leaves the index as it was. -/
def rebuild (old : Index) (s : SearchPath) (files : List Path) (cancel : Cancellation) :
    RebuildReport × Index :=
  let found := (cancel.keep files).foldl (Found.add s) {}
  let begun := .begin rebuildTask none :: found.events
  if cancel.interrupts files.length then
    (⟨0, found.skipped, true, begun ++ [.done rebuildTask true]⟩, old)
  else
    let new : Index := ⟨s, withBuiltins found.modules⟩
    let done := Event.done rebuildTask (cancel.sees files.length)
    (⟨new.size, found.skipped, false, begun ++ [done]⟩, new)

/-- Takes one more key. It makes no entry if it has no file, if its name is reserved or not the name
of its file, or if there is an entry under that name. -/
def addKey (s : SearchPath) (modules : NameMap Module) (key : ModuleKey) : NameMap Module :=
  match key.file with
  | none => modules
  | some file =>
    if Builtin.isReserved key.name || s.moduleName file ≠ some key.name then modules
    else NameMap.putNew modules key.name (.placeholder key)

def ofKeys (s : SearchPath) (keys : List ModuleKey) : Index :=
  ⟨s, withBuiltins (keys.foldl (addKey s) [])⟩

end Index

end ImportAtlas
