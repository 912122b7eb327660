import ImportAtlas.Index.Edit

/-!
The index in use follows edits: a file has a new text, a file is gone, a directory is gone. A text
that is not in any file yet can be read as a module without touching the index.
-/

set_option autoImplicit false

namespace ImportAtlas.State

def parseText (lib : Library) (text : String) (s : State) :
    Except ParseFailure (List Python.Statement) × State :=
  (lib.parser text, { s with accesses := s.accesses ++ [.parse text] })

/-- The file that a path means, seen from the directory of the search path. -/
def fileOf (s : State) (path : Path) : Path :=
  Path.normalize s.index.searchPath.cwd path

/-- What the text of a buffer without a file is called in failures. -/
def bufferName : String := "<buffer>"

/-- Reads a text as the module of a file, or as a module without name if there is no file or the
search path does not name it. -/
def moduleOfBuffer (lib : Library) (path : Option Path) (text : String) (s : State) :
    Except Failure Module × State :=
  let file := path.map s.fileOf
  match s.parseText lib text with
  | (.error cause, s) => (.error (.unparsable ((file.map Path.text).getD bufferName) cause), s)
  | (.ok tree, s) =>
    let name := (file.bind s.index.searchPath.moduleName).getD ""
    (.ok (.source (.ofTree name file tree)), s)

def changeModule (lib : Library) (name : String) (file : Path) (text : String) (s : State) :
    Except Failure Module × State :=
  match s.parseText lib text with
  | (.error cause, s) => (.error (.unparsable file.text cause), s)
  | (.ok tree, s) =>
    match s.index.upsert lib.sources.contains name (some file) tree with
    | .ok (m, index) => (.ok m, { s with index })
    | .error e => (.error e, s)

def changeFile (lib : Library) (path : Path) (text : String) (s : State) :
    Except Failure Module × State :=
  let file := s.fileOf path
  match s.index.searchPath.moduleName file with
  | none => (.error (.outside file), s)
  | some name =>
    if name = "" then (.error (.outside file), s)
    else if Builtin.isReserved name then (.error (.reserved name), s)
    else s.changeModule lib name file text

/-- Follows the removal of a file. Tells whether it was indexed. -/
def removeFile (lib : Library) (path : Path) (s : State) : Except Failure Bool × State :=
  match s.index.remove lib.sources.contains path with
  | .ok (removed, index) => (.ok removed, { s with index })
  | .error e => (.error e, s)

/-- Follows the removal of a directory. Tells how many modules it held. -/
def removeDirectory (path : Path) (s : State) : Except Failure Nat × State :=
  match s.index.removeTree path with
  | .ok (removed, index) => (.ok removed, { s with index })
  | .error e => (.error e, s)

end ImportAtlas.State
