import ImportAtlas.Cache.Compression
import ImportAtlas.Cache.Digest
import ImportAtlas.Cache.KeyCodec
import ImportAtlas.Cache.Metadata
import ImportAtlas.Disk
import ImportAtlas.Program

/-!
Stored key lists. Each list of roots has a directory of its own, named by the digest of the roots;
in it the keys stand in one file and the notes on them in another. Both are written beside their
place and then moved there, the keys first, so that a list is never seen in part.
-/

set_option autoImplicit false

namespace ImportAtlas

inductive CacheFailure
  | noDirectory (dir : Path)
  | noFile (file : Path)
  | noMove (file : Path)
  | noMetadata (dir : Path)
  | badMetadata
  | incompatible (dir : Path) (version : Nat)
  | noModules (file : Path)
  | badFrame
  | badKeys
  | miscounted (noted found : Nat)
  deriving DecidableEq, Repr

namespace Cache

def version : Nat := 1

def modulesName : String := "modules.bin.zst"

def metadataName : String := "metadata.json"

/-- What tells lists of roots apart: the text of each root with a zero octet behind it. -/
def rootOctets (roots : List Path) : List UInt8 :=
  roots.flatMap fun root => Text.octets root.text ++ [0]

/-- The first sixteen hexadecimal digits of the digest of a list of roots. -/
def fingerprint (roots : List Path) : String :=
  String.ofList (Text.hexChars ((Digest.digest (rootOctets roots)).take 8))

def directory (home : Path) (roots : List Path) : Path :=
  (home.child ("v" ++ Text.decimal version)).child ("searchpath-" ++ fingerprint roots)

def modulesFile (home : Path) (roots : List Path) : Path :=
  (directory home roots).child modulesName

def metadataFile (home : Path) (roots : List Path) : Path :=
  (directory home roots).child metadataName

inductive Step
  | makeDirs (dir : Path)
  | write (file : Path) (content : List UInt8)
  | move (file target : Path)
  deriving DecidableEq, Repr

/-- The file system after a step; none if the step is refused. -/
def Step.run (disk : Disk) : Step → Option Disk
  | makeDirs dir => disk.makeDirs dir
  | write file content => disk.writeFile file content
  | move file target => disk.rename file target

def Step.failure : Step → CacheFailure
  | makeDirs dir => .noDirectory dir
  | write file _ => .noFile file
  | move _ target => .noMove target

def placeSteps (file : Path) (content : List UInt8) : List Step :=
  let beside := file.withExtension "tmp"
  [.write beside content, .move beside file]

def notes (time : Time) (roots : List Path) (keys : List ModuleKey) : Metadata :=
  { version, createdAt := time, entryCount := keys.length,
    writerVersion := programVersion, roots }

def saveSteps [Compression] (home : Path) (time : Time) (roots : List Path)
    (keys : List ModuleKey) : List Step :=
  .makeDirs (directory home roots) ::
    placeSteps (modulesFile home roots) (Compression.pack (KeyCodec.encode keys)) ++
    placeSteps (metadataFile home roots) (Text.octets (notes time roots keys).print)

/-- Runs steps until one is refused. -/
def runSteps : List Step → Disk → Except CacheFailure Unit × Disk
  | [], disk => (.ok (), disk)
  | step :: rest, disk =>
    match step.run disk with
    | some disk => runSteps rest disk
    | none => (.error step.failure, disk)

/-- Stores keys for a list of roots. Tells the directory. -/
def save [Compression] (home : Path) (time : Time) (roots : List Path) (keys : List ModuleKey)
    (disk : Disk) : Except CacheFailure Path × Disk :=
  let (result, disk) := runSteps (saveSteps home time roots keys) disk
  (result.map fun _ => directory home roots, disk)

/-- Whether two lists of roots are equal as paths. -/
def sameRoots : (a b : List Path) → Bool
  | [], [] => true
  | p :: a, q :: b => p.same q && sameRoots a b
  | _, _ => false

/-- The notes in the directory for a list of roots, if they are for these roots. -/
def loadMetadata (home : Path) (roots : List Path) (disk : Disk) : Except CacheFailure Metadata :=
  let dir := directory home roots
  match disk.read (metadataFile home roots) with
  | .error _ => .error (.noMetadata dir)
  | .ok bytes =>
    match (Text.ofOctets? bytes).bind Metadata.parse with
    | none => .error .badMetadata
    | some m =>
      if m.version = version && sameRoots m.roots roots then .ok m
      else .error (.incompatible dir m.version)

def loadModules [Compression] (home : Path) (roots : List Path) (disk : Disk) :
    Except CacheFailure (List ModuleKey) :=
  match disk.read (modulesFile home roots) with
  | .error _ => .error (.noModules (modulesFile home roots))
  | .ok bytes =>
    match Compression.unpack bytes with
    | none => .error .badFrame
    | some content =>
      match KeyCodec.decode content with
      | none => .error .badKeys
      | some keys => .ok keys

def load [Compression] (home : Path) (roots : List Path) (disk : Disk) :
    Except CacheFailure (List ModuleKey) := do
  let m ← loadMetadata home roots disk
  let keys ← loadModules home roots disk
  if keys.length = m.entryCount then .ok keys else .error (.miscounted m.entryCount keys.length)

end Cache

def CacheFailure.message : CacheFailure → String
  | noDirectory dir => "Failed to create cache directory " ++ dir.text
  | noFile file => "Failed to create " ++ file.text
  | noMove file => "Failed to move cache file into place at " ++ file.text
  | noMetadata dir => "No cache metadata in " ++ dir.text
  | badMetadata => "Failed to parse cache metadata"
  | incompatible dir version =>
    "Incompatible cache in " ++ dir.text ++ " (version " ++ Text.decimal version ++ ", expected " ++
      Text.decimal Cache.version ++ ")"
  | noModules file => "Failed to read " ++ file.text
  | badFrame => "Failed to decompress module keys"
  | badKeys => "Failed to deserialize module keys"
  | miscounted noted found =>
    "Cache entry count mismatch: metadata says " ++ Text.decimal noted ++ ", found " ++
      Text.decimal found

end ImportAtlas
