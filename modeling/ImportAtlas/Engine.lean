import ImportAtlas.Cache.Store
import ImportAtlas.Config
import ImportAtlas.Index.Rebuild

/-!
An index with its settings. It is made anew from the files of a search path, and its keys are stored
so that the next run can begin with them.
-/

set_option autoImplicit false

namespace ImportAtlas

/-- What a run finds around it: a file system, the directory for the caches of all programs, the time,
and the library that compresses what it stores. -/
structure Host where
  disk : Disk
  cacheHome : Path
  time : Time
  [compression : Compression]

def Host.cacheDir (h : Host) : Path :=
  h.cacheHome.child programName

structure Engine where
  config : Config
  state : State

namespace Engine

/-- The engine before its first search path. -/
def initial (config : Config) (cwd : Path) : Engine :=
  ⟨config, ⟨.initial cwd, []⟩⟩

def cacheDir (e : Engine) (h : Host) : Path :=
  e.config.cacheDir.getD h.cacheDir

def withIndex (e : Engine) (index : Index) : Engine :=
  { e with state := { e.state with index } }

/-- Stores the keys of the index. Tells the directory. -/
def saveKeys (e : Engine) (h : Host) : Except CacheFailure Path × Disk :=
  letI := h.compression
  let index := e.state.index
  Cache.save (e.cacheDir h) h.time index.searchPath.roots index.keys h.disk

/-- The host with the keys of the index stored. A failure to do so goes unnoticed. -/
def store (e : Engine) (h : Host) : Host :=
  { h with disk := (e.saveKeys h).2 }

/-- Makes the index anew for a search path, and stores its keys if that is wanted. A rebuild that
was cancelled stores nothing. -/
def rebuild (e : Engine) (searchPath : String) (cancel : Cancellation) (h : Host) :
    RebuildReport × Engine × Host :=
  let s := SearchPath.parse h.disk.cwd searchPath
  let (report, index) := e.state.index.rebuild s (h.disk.sourceFiles s.roots) cancel
  let e := e.withIndex index
  (report, e, if report.cancelled || !e.config.persist then h else e.store h)

def restore (e : Engine) (cwd : Path) (searchPath : String) (keys : List ModuleKey) :
    Nat × Engine :=
  let index := Index.ofKeys (SearchPath.parse cwd searchPath) keys
  (index.size, e.withIndex index)

def storedKeys (e : Engine) (searchPath : String) (h : Host) :
    Except CacheFailure (List ModuleKey) :=
  letI := h.compression
  Cache.load (e.cacheDir h) (SearchPath.parse h.disk.cwd searchPath).roots h.disk

def restoreStored (e : Engine) (searchPath : String) (h : Host) :
    Except CacheFailure (Nat × Engine) :=
  (e.storedKeys searchPath h).map (e.restore h.disk.cwd searchPath)

/-- Makes an index for a search path: from the stored keys if there are any, or else anew. -/
def prepare (e : Engine) (searchPath : String) (h : Host) : Engine × Host :=
  match e.restoreStored searchPath h with
  | .ok (_, e) => (e, h)
  | .error _ => (e.rebuild searchPath .never h).2

end Engine

end ImportAtlas
