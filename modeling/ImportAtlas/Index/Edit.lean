import ImportAtlas.Index.Basic

/-!
Changes of single entries: a module with a new text, a file that is gone, a directory that is gone.
-/

set_option autoImplicit false

namespace ImportAtlas

namespace Index

/-- Whether the root that names `a` comes before the one that names `b`; a file under no root comes
last. -/
def precedes (s : SearchPath) (a b : Path) : Bool :=
  match s.rootIndex a, s.rootIndex b with
  | some i, some j => i < j
  | some _, none => true
  | none, _ => false

/-- Whether an indexed file keeps its place against another one of the same name: it does if it
still exists under an earlier root. -/
def keepsPlace (i : Index) (exists? : Path → Bool) (winner file : Path) : Bool :=
  !winner.same file && exists? winner && precedes i.searchPath winner file

/-- Puts the module of a syntax tree under a name, unless a file of an earlier root provides it. -/
def upsert (i : Index) (exists? : Path → Bool) (name : String) (file : Option Path)
    (tree : List Python.Statement) : Except Failure (Module × Index) :=
  if Builtin.isReserved name then .error (.reserved name)
  else
    let file := file.map (Path.normalize i.searchPath.cwd)
    let m : Module := .source (.ofTree name file tree)
    match file, (i.get? name).bind Module.file with
    | some path, some winner =>
      if i.keepsPlace exists? winner path then .error (.shadowed name path winner)
      else .ok (m, i.put name m)
    | _, _ => .ok (m, i.put name m)

/-- The file that provides a name when `gone` does not any more. -/
def successor (i : Index) (exists? : Path → Bool) (name : String) (gone : Path) : Option Path :=
  (i.searchPath.candidates name).find? fun file => !file.same gone && exists? file

/-- Removes the entry of a file, if its name is provided by that file; another file of the name may
take its place. Tells whether there was such an entry. -/
def remove (i : Index) (exists? : Path → Bool) (file : Path) : Except Failure (Bool × Index) :=
  let file := Path.normalize i.searchPath.cwd file
  match i.searchPath.moduleName file with
  | none => .error (.outside file)
  | some name =>
    if ((i.get? name).bind Module.file).any file.same then
      let left := i.erase name
      match i.successor exists? name file with
      | some next => .ok (true, left.put name (.placeholder ⟨name, some next⟩))
      | none => .ok (true, left)
    else .ok (false, i)

/-- Whether a name is `above` or lies below it, segment by segment. -/
def isBelow (above name : String) : Bool :=
  name = above || (Text.stripStart (above ++ ".").toList name.toList).isSome

/-- Whether the removal of a directory named `above` removes an entry; the directory is a root if
the name is empty. -/
def isRemoved (dir : Path) (above : String) (name : String) (m : Module) : Bool :=
  match m.file with
  | none => false
  | some file => if above = "" then file.startsWith dir else isBelow above name

/-- Removes the modules of a directory. Tells how many there were. -/
def removeTree (i : Index) (dir : Path) : Except Failure (Nat × Index) :=
  let dir := Path.normalize i.searchPath.cwd dir
  match i.searchPath.moduleName dir with
  | none => .error (.outside dir)
  | some above =>
    let left := i.modules.filter fun (name, m) => !isRemoved dir above name m
    .ok (i.modules.length - left.length, { i with modules := left })

end Index

end ImportAtlas
