import ImportAtlas.SearchPath

/-!
What lies below a directory, and the source files in it.
-/

set_option autoImplicit false

namespace ImportAtlas

/-- What is found at a place: a file, or a directory with its entries in the order of their
names. -/
inductive Folder
  | file
  | dir (entries : List (String × Folder))

namespace Folder

def hasInitializer (entries : List (String × Folder)) : Bool :=
  Path.sourceExtensions.any fun ext =>
    match entries.lookup (Path.packageInit ++ "." ++ ext) with
    | some .file => true
    | _ => false

/-- Whether a directory entry is entered: any file, and the packages among the directories. -/
def isEntered : Folder → Bool
  | .file => true
  | .dir entries => hasInitializer entries

mutual
/-- The source files at a place and below it, depth first, in directories that `enter` admits. -/
def filesWhere (enter : Folder → Bool) (place : Path) : Folder → List Path
  | .file => if place.isSourceFile then [place] else []
  | .dir entries => entryFiles enter place entries

def entryFiles (enter : Folder → Bool) (place : Path) : List (String × Folder) → List Path
  | [] => []
  | (name, folder) :: rest =>
    (if enter folder then filesWhere enter (place.child name) folder else []) ++
      entryFiles enter place rest
end

/-- The source files below a root that can be imported: below the root itself, only packages are
entered. -/
def importable (root : Path) (folder : Folder) : List Path :=
  filesWhere isEntered root folder

def allSources (root : Path) (folder : Folder) : List Path :=
  filesWhere (fun _ => true) root folder

end Folder

/-- The source files below the roots of a search path, root by root; `view` tells what lies at a
root. -/
def SearchPath.sourceFiles (view : Path → Option Folder) (roots : List Path) : List Path :=
  roots.flatMap fun root =>
    match view root with
    | some folder => folder.importable root
    | none => []

end ImportAtlas
