import ImportAtlas.Command
import Std.Time.DateTime.Timestamp

/-!
The program. What a run depends on is copied from the disk, the run takes place on the copy, and the
files it has made are written back.
-/

set_option autoImplicit false

namespace ImportAtlas.Main

def add (disk : Disk) (path : Path) (entry : Entry) : Disk :=
  disk.put (Disk.namesOf path) entry

def isDirectory (path : Path) : IO Bool := do
  try
    discard (← IO.FS.realPath path.text).readDir
    return true
  catch _ => return false

def copyFile (path : Path) (disk : Disk) : IO Disk := do
  try
    return add disk path (.file (← IO.FS.readBinFile path.text).toList)
  catch _ => return disk

/-- Copies a directory with the Python files below it. A directory that leads back to one around it
is left out. -/
partial def copyTree (around : List String) (path : Path) (disk : Disk) : IO Disk := do
  let real ← IO.FS.realPath path.text
  let place := real.toString
  if around.contains place then return disk
  let mut disk := add disk path .dir
  for entry in ← real.readDir do
    let child := path.child entry.fileName
    if ← isDirectory child then
      disk ← copyTree (place :: around) child disk
    else if child.isSourceFile then
      disk ← copyFile child disk
  return disk

/-- Copies what stands at a path, and the directories around it. -/
def copyPath (path : Path) (disk : Disk) : IO Disk := do
  let path := Path.normalize disk.cwd path
  let mut disk := disk
  let mut here : Path := ⟨"/"⟩
  for name in (Disk.namesOf path).dropLast do
    here := here.child name
    disk ← if ← isDirectory here then pure (add disk here .dir) else copyFile here disk
  if ← isDirectory path then copyTree [] path disk else copyFile path disk

def copyInputs (args : List String) (h : Host) : IO Host := do
  let disk ← (Command.inputs args h).foldlM (fun disk path => copyPath path disk) h.disk
  return { h with disk }

def writeEntry (location : Location) (entry : Entry) : IO Unit := do
  let path := location.foldl Path.child ⟨"/"⟩
  match entry with
  | .dir => IO.FS.createDirAll path.text
  | .file bytes =>
    let beside := path.text ++ ".new"
    IO.FS.writeBinFile beside ⟨bytes.toArray⟩
    IO.FS.rename beside path.text
  | .link _ => pure ()

/-- Writes what a run has changed; what the disk refuses is left out. -/
def writeBack (before after : Disk) : IO Unit := do
  for (location, entry) in after.entries do
    if before.entryAt location ≠ some entry then
      try writeEntry location entry catch _ => pure ()

def now : IO Time := do
  let sinceStart := (← Std.Time.Timestamp.now).toNanosecondsSinceUnixEpoch.val.toNat
  return ⟨sinceStart / Time.perSecond, sinceStart % Time.perSecond⟩

def cacheHome : IO Path := do
  match ← IO.getEnv "XDG_CACHE_HOME" with
  | some dir => if (Path.mk dir).isAbsolute then return ⟨dir⟩
  | none => pure ()
  return Path.child ⟨(← IO.getEnv "HOME").getD "/"⟩ ".cache"

def host : IO Host := do
  let cwd : Path := ⟨(← IO.currentDir).toString⟩
  return ⟨Disk.ofHome cwd, ← cacheHome, ← now⟩

def run (args : List String) : IO Command.Outcome := do
  let before ← copyInputs args (← copyInputs args (← host))
  let (outcome, after) := Command.run args before
  writeBack before.disk after.disk
  return outcome

end ImportAtlas.Main

def main (args : List String) : IO UInt32 := do
  let outcome ← ImportAtlas.Main.run args
  outcome.lines.forM IO.println
  match outcome.error with
  | some message => IO.eprintln ("Error: " ++ message)
  | none => pure ()
  return outcome.code.toUInt32
