import ImportAtlas.Path

/-!
The search path: an ordered list of root directories, and the module names it gives to files. A file
is named by the longest root that contains it; where two files have one name, the earlier root wins.
-/

set_option autoImplicit false

namespace ImportAtlas

/-- The roots in order of precedence. Relative paths are read from the directory `cwd`. -/
structure SearchPath where
  cwd : Path
  roots : List Path
  deriving DecidableEq, Repr

namespace SearchPath

def addRoot (roots : List Path) (root : Path) : List Path :=
  if roots.any root.same then roots else roots ++ [root]

/-- The search path of the given directories; a repeated one counts once. -/
def ofRoots (cwd : Path) (dirs : List Path) : SearchPath :=
  ⟨cwd, (dirs.map (Path.normalize cwd)).foldl addRoot []⟩

def empty (cwd : Path) : SearchPath :=
  ⟨cwd, []⟩

/-- The search path written as directories separated by colons; blank ones are left out. -/
def parse (cwd : Path) (text : String) : SearchPath :=
  ofRoots cwd (((Text.split ':' text).filter fun dir => Text.trim dir ≠ "").map Path.mk)

/-- The longest root that contains a normal path, with its position; of two equally long ones, the
later. -/
def longestRoot (s : SearchPath) (p : Path) : Option (Nat × Path) :=
  (s.roots.zipIdx.filter fun (root, _) => p.startsWith root).foldl (fun best (root, i) =>
    match best with
    | some (_, other) =>
      if other.components.length ≤ root.components.length then some (i, root) else best
    | none => some (i, root)) none

def stripSourceExtension (fileName : String) : Option String :=
  match Text.splitLast? '.' fileName.toList with
  | some (stem, ext) =>
    if Path.sourceExtensions.contains (String.ofList ext) then some (String.ofList stem) else none
  | none => none

def isSegment (s : String) : Bool :=
  s ≠ "" && !s.toList.contains '.'

/-- The segments that the components below a root stand for, and whether the last component had the
extension of a source file. -/
def segments : List Component → Option (List String × Bool)
  | [] => some ([], false)
  | [.normal part] =>
    match stripSourceExtension part with
    | some stem => if isSegment stem then some ([stem], true) else none
    | none => if isSegment part then some ([part], false) else none
  | .normal part :: rest =>
    if isSegment part then (segments rest).map fun (names, source) => (part :: names, source)
    else none
  | _ :: _ => none

def joinDots (names : List String) : String :=
  ".".intercalate names

/-- The module name that the components below a root stand for. A package is named by its directory;
its initializer directly below a root has no name. -/
def nameBelow (below : List Component) : Option String := do
  let (names, source) ← segments below
  let names := if names.getLast? = some Path.packageInit then names.dropLast else names
  if source && names.isEmpty then none else some (joinDots names)

/-- The module name of a file or directory; a root has the empty name. -/
def moduleName (s : SearchPath) (p : Path) : Option String := do
  let p := Path.normalize s.cwd p
  let (_, root) ← s.longestRoot p
  nameBelow (← Path.componentsAfter root.components p.components)

def rootIndex (s : SearchPath) (p : Path) : Option Nat :=
  (s.longestRoot (Path.normalize s.cwd p)).map Prod.fst

/-- The places for a module below one root: the package initializers, then the plain files. -/
def places (root : Path) (relative : Path) : List Path :=
  let base := root.join relative
  (Path.sourceExtensions.map fun ext => base.child (Path.packageInit ++ "." ++ ext)) ++
    Path.sourceExtensions.map base.withExtension

/-- The files that would provide `name`, whether or not they exist, in order of precedence. -/
def candidates (s : SearchPath) (name : String) : List Path :=
  if name = "" then []
  else
    let relative := (Text.split '.' name).foldl Path.child ⟨""⟩
    (s.roots.flatMap fun root => places root relative).filter fun file =>
      s.moduleName file = some name

end SearchPath

end ImportAtlas
