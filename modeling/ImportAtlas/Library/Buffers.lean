import ImportAtlas.Library

/-!
Texts held in memory under the paths they stand for, such as those in the buffers of an editor.
-/

set_option autoImplicit false

namespace ImportAtlas

/-- Texts held in memory, at most one for each path. -/
structure Buffers where
  texts : List (Path × String)
  deriving DecidableEq, Repr

namespace Buffers

def empty : Buffers := ⟨[]⟩

def get? (b : Buffers) (file : Path) : Option String :=
  (b.texts.find? fun (held, _) => held.same file).map Prod.snd

def erase (b : Buffers) (file : Path) : Buffers :=
  ⟨b.texts.filter fun (held, _) => !held.same file⟩

def put (b : Buffers) (file : Path) (text : String) : Buffers :=
  ⟨(file, text) :: (b.erase file).texts⟩

def size (b : Buffers) : Nat :=
  b.texts.length

def isEmpty (b : Buffers) : Bool :=
  b.texts.isEmpty

def read (b : Buffers) (file : Path) : Except ReadFailure String :=
  match b.get? file with
  | some text => .ok text
  | none => .error ⟨.notFound, file.text ++ " not in memory"⟩

def sources (b : Buffers) : Sources :=
  ⟨b.read, fun file => (b.get? file).isSome⟩

end Buffers

end ImportAtlas
