import ImportAtlas.Failure
import ImportAtlas.Folder
import ImportAtlas.Text.Octets

/-!
A file system: files, directories and symbolic links by their location, which is the list of names
that leads to them from the root.
-/

set_option autoImplicit false

namespace ImportAtlas

abbrev Location := List String

inductive Entry
  | file (bytes : List UInt8)
  | dir
  | link (target : Path)
  deriving DecidableEq, Repr

def Possible (location : Location) : Prop :=
  ∀ name ∈ location, Path.IsName name

instance (location : Location) : Decidable (Possible location) :=
  inferInstanceAs (Decidable (∀ name ∈ location, _))

/-- A file system. Relative paths are read from the directory `cwd`. No location has two entries. -/
structure Disk where
  cwd : Path
  entries : List (Location × Entry)
  possible : ∀ entry ∈ entries, Possible entry.1
  distinct : (entries.map Prod.fst).Nodup
  deriving DecidableEq, Repr

/-- Where a way leads: a location, what stands there, and how many links may still be met. -/
structure Stop where
  location : Location
  entry : Option Entry
  links : Nat
  deriving DecidableEq, Repr

namespace Disk

def namesOf (p : Path) : Location :=
  p.components.filterMap fun
    | .normal name => some name
    | _ => none

/-- What stands at a location; the root is always a directory. -/
def entryAt (d : Disk) (location : Location) : Option Entry :=
  if location = [] then some .dir else d.entries.lookup location

/-- The file system with `entry` at a location, in place of what was there. Nothing can be put below
an impossible name. -/
def put (d : Disk) (location : Location) (entry : Entry) : Disk :=
  if possible : Possible location then
    { cwd := d.cwd
      entries := d.entries.filter (fun (place, _) => place ≠ location) ++ [(location, entry)]
      possible := by
        intro other member
        rcases List.mem_append.mp member with old | new
        · exact d.possible other (List.mem_filter.mp old).1
        · exact List.mem_singleton.mp new ▸ possible
      distinct := by
        rw [List.map_append, List.nodup_append]
        refine ⟨(List.filter_sublist.map Prod.fst).nodup d.distinct, by simp, ?_⟩
        rintro place old other new rfl
        obtain ⟨_, kept, rfl⟩ := List.mem_map.mp old
        exact absurd (List.mem_singleton.mp new) (by simpa using (List.mem_filter.mp kept).2) }
  else d

def dropTree (d : Disk) (location : Location) : Disk where
  cwd := d.cwd
  entries := d.entries.filter fun (place, _) => !location.isPrefixOf place
  possible := fun entry member => d.possible entry (List.mem_filter.mp member).1
  distinct := (List.filter_sublist.map Prod.fst).nodup d.distinct

/-- The file system with some entries, a later one in place of an earlier one. -/
def ofEntries (cwd : Path) (entries : List (Location × Entry)) : Disk :=
  entries.foldl (fun d (location, entry) => d.put location entry)
    ⟨cwd, [], List.forall_mem_nil _, List.nodup_nil⟩

def ofHome (cwd : Path) : Disk :=
  let names := namesOf cwd
  ofEntries cwd ((List.range (names.length + 1)).map fun n => (names.take n, .dir))

/-- The components to follow for a path. A slash at its end asks for a directory. -/
def stepsOf (d : Disk) (p : Path) : List Component :=
  let cs := p.components ++ if p.text.toList.getLast? = some '/' then [.current] else []
  if p.isAbsolute then cs else d.cwd.components ++ cs

/-- How many links may be met on the way to a place. -/
def maxLinks : Nat := 40

/-- Follows components from a location, up to a link that is to be followed; `enter` goes on from
there, with the components that the link stands for ahead. The last name may be missing. With
`follow`, a link at the end is followed too. -/
def advance (d : Disk) (follow : Bool) (links : Nat)
    (enter : Location → List Component → Except ReadCause Stop) :
    Location → List Component → Except ReadCause Stop
  | here, [] => .ok ⟨here, d.entryAt here, links⟩
  | _, .root :: rest => d.advance follow links enter [] rest
  | here, .current :: rest => d.advance follow links enter here rest
  | here, .parent :: rest => d.advance follow links enter here.dropLast rest
  | here, .normal name :: rest =>
    let there := here ++ [name]
    match d.entryAt there with
    | none => if rest.isEmpty then .ok ⟨there, none, links⟩ else .error .notFound
    | some .dir => d.advance follow links enter there rest
    | some (.file bytes) =>
      if rest.isEmpty then .ok ⟨there, some (.file bytes), links⟩ else .error .notDirectory
    | some (.link target) =>
      if rest.isEmpty && !follow then .ok ⟨there, some (.link target), links⟩
      else enter here (target.components ++ rest)

def walk (d : Disk) (follow : Bool) :
    (links : Nat) → Location → List Component → Except ReadCause Stop
  | 0 => d.advance follow 0 fun _ _ => .error .linkLoop
  | links + 1 => d.advance follow (links + 1) (d.walk follow links)

/-- Where a path leads. With `follow`, a link at its end is followed too. -/
def reach (d : Disk) (follow : Bool) (p : Path) : Except ReadCause Stop :=
  if p.text = "" then .error .notFound else d.walk follow maxLinks [] (d.stepsOf p)

def locateWith (d : Disk) (follow : Bool) (p : Path) : Except ReadCause (Location × Option Entry) :=
  (d.reach follow p).map fun stop => (stop.location, stop.entry)

def locate (d : Disk) (p : Path) : Except ReadCause (Location × Option Entry) :=
  d.locateWith true p

/-- The place a path leads to, with a link at its end left alone. -/
def locateItself (d : Disk) (p : Path) : Except ReadCause (Location × Option Entry) :=
  d.locateWith false p

def causeText : ReadCause → String
  | .notFound => "No such file or directory (os error 2)"
  | .notDirectory => "Not a directory (os error 20)"
  | .isDirectory => "Is a directory (os error 21)"
  | .linkLoop => "Too many levels of symbolic links (os error 40)"
  | .permissionDenied => "Permission denied (os error 13)"
  | _ => "Input/output error (os error 5)"

def refusal (cause : ReadCause) : ReadFailure :=
  ⟨cause, causeText cause⟩

def read (d : Disk) (p : Path) : Except ReadFailure (List UInt8) :=
  match d.locate p with
  | .error cause => .error (refusal cause)
  | .ok (_, some (.file bytes)) => .ok bytes
  | .ok (_, some .dir) => .error (refusal .isDirectory)
  | .ok (_, some (.link _)) => .error (refusal .linkLoop)
  | .ok (_, none) => .error (refusal .notFound)

/-- The text of a file, with replacement characters for what is not well formed. -/
def readText (d : Disk) (p : Path) : Except ReadFailure String :=
  (d.read p).map Text.lossy

def readStrict? (d : Disk) (p : Path) : Option String :=
  match d.read p with
  | .ok bytes => Text.ofOctets? bytes
  | .error _ => none

def isFile (d : Disk) (p : Path) : Bool :=
  match d.locate p with
  | .ok (_, some (.file _)) => true
  | _ => false

def isPackage (d : Disk) (p : Path) : Bool :=
  Path.sourceExtensions.any fun ext => d.isFile (p.child (Path.packageInit ++ "." ++ ext))

def parentOf (p : Path) : Path :=
  match p.components.reverse with
  | .normal _ :: rest => Path.ofComponents rest.reverse
  | _ => p

/-- The file system with a directory at a path and all directories around it; none if something else
is in the way. -/
def makeDirs (d : Disk) (p : Path) : Option Disk :=
  let step (state : Option (Disk × Path)) (c : Component) : Option (Disk × Path) := do
    let (d, here) ← state
    let there := here.child c.text
    match d.locate there, d.locateItself there with
    | .ok (_, some .dir), _ => some (d, there)
    | _, .ok (location, none) => some (d.put location .dir, there)
    | _, _ => none
  let cs := if p.isAbsolute then p.components else d.cwd.components ++ p.components
  (cs.foldl step (some (d, ⟨""⟩))).map Prod.fst

/-- The file system with a file written; none if its directory is missing or a directory is in the
way. -/
def writeFile (d : Disk) (p : Path) (bytes : List UInt8) : Option Disk :=
  match d.locate p with
  | .ok (location, some (.file _)) => some (d.put location (.file bytes))
  | .ok (location, none) =>
    if d.entryAt location.dropLast = some .dir then some (d.put location (.file bytes)) else none
  | _ => none

def writeDeep (d : Disk) (p : Path) (bytes : List UInt8) : Option Disk := do
  (← d.makeDirs (parentOf p)).writeFile p bytes

def linkDeep (d : Disk) (p target : Path) : Option Disk := do
  let d ← d.makeDirs (parentOf p)
  match d.locateItself p with
  | .ok (location, none) => some (d.put location (.link target))
  | _ => none

/-- The file system with a file or link moved to another path, in place of any other there. -/
def rename (d : Disk) (old new : Path) : Option Disk :=
  match d.locateItself old, d.locateItself new with
  | .ok (source, some entry), .ok (target, existing) =>
    if entry = .dir || existing = some .dir || d.entryAt target.dropLast ≠ some .dir then none
    else some ((d.dropTree source).put target entry)
  | _, _ => none

/-- The file system without what a path names, and all below it; none if nothing is there. -/
def delete (d : Disk) (p : Path) : Option Disk :=
  match d.locateItself p with
  | .ok (location, some _) => some (d.dropTree location)
  | _ => none

def childNames (d : Disk) (location : Location) : List String :=
  let names := d.entries.filterMap fun (place, _) =>
    if place ≠ [] ∧ place.dropLast = location then place.getLast? else none
  names.mergeSort fun a b => decide (a ≤ b)

/-- What lies at a location to which a way leads on which `links` links may still be met. With
`follow`, links below it are followed, apart from broken ones and those that lead to a directory they
lie in (one of `around`); without, they are left out. -/
def folderAt (d : Disk) (follow : Bool) : (fuel : Nat) → (around : List Location) → (links : Nat) →
    Location → Entry → Option Folder
  | 0, _, _, _, _ => none
  | _ + 1, _, _, _, .file _ => some .file
  | _ + 1, _, _, _, .link _ => none
  | fuel + 1, around, links, location, .dir =>
    let inside := location :: around
    some <| .dir <| (d.childNames location).filterMap fun name =>
      let found := match d.walk follow links location [.normal name] with
        | .ok ⟨place, some entry, links⟩ =>
          if place ≠ location ++ [name] && inside.contains place then none
          else d.folderAt follow fuel inside links place entry
        | _ => none
      found.map fun folder => (name, folder)

/-- What lies at a path, with the link at its end followed. -/
def folder (d : Disk) (follow : Bool) (p : Path) : Option Folder :=
  match d.reach true p with
  | .ok ⟨location, some entry, links⟩ =>
    let depth := d.entries.length + 2
    d.folderAt follow (depth * depth) [] links location entry
  | _ => none

def sourceFiles (d : Disk) (roots : List Path) : List Path :=
  SearchPath.sourceFiles (d.folder true) roots

/-- All source files below a directory; links are not followed. A path to a link to a file has
none. -/
def projectFiles (d : Disk) (root : Path) : List Path :=
  match d.locateItself root, d.folder false root with
  | .ok (_, some (.link _)), some .file => []
  | _, some folder => folder.allSources root
  | _, none => []

end Disk

end ImportAtlas
