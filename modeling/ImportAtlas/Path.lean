import ImportAtlas.Text.Blank

/-!
File paths. A path keeps the spelling it was made with, and compares by its components.
-/

set_option autoImplicit false

namespace ImportAtlas

inductive Component
  | root
  | current
  | parent
  | normal (name : String)
  deriving DecidableEq, Repr

def Component.text : Component → String
  | .root => "/"
  | .current => "."
  | .parent => ".."
  | .normal name => name

def Component.rank : Component → Nat
  | .root => 0
  | .current => 1
  | .parent => 2
  | .normal _ => 3

/-- Components in order: the root, `.`, `..`, then names by their characters. -/
def Component.compare (a b : Component) : Ordering :=
  match a, b with
  | .normal s, .normal t => Ord.compare s t
  | _, _ => Ord.compare a.rank b.rank

/-- A path as it is spelled. -/
structure Path where
  text : String
  deriving DecidableEq, Repr, Inhabited

namespace Path

def IsName (name : String) : Prop :=
  name ≠ "" ∧ name ≠ "." ∧ name ≠ ".." ∧ '/' ∉ name.toList

instance (name : String) : Decidable (IsName name) :=
  inferInstanceAs (Decidable (_ ∧ _))

def isAbsolute (p : Path) : Bool :=
  p.text.toList.head? == some '/'

/-- The component of one piece between slashes; empty pieces and `.` have none. -/
def componentOf (piece : String) : Option Component :=
  if piece = "" || piece = "." then none
  else if piece = ".." then some .parent
  else some (.normal piece)

/-- The components of a path. A `.` counts only at the start of a relative path. -/
def components (p : Path) : List Component :=
  let pieces := Text.split '/' p.text
  let named := pieces.filterMap componentOf
  if p.isAbsolute then .root :: named
  else if pieces.head? = some "." then .current :: named
  else named

/-- Whether two paths have the same components. -/
def same (p q : Path) : Bool :=
  p.components == q.components

def compareComponents : List Component → List Component → Ordering
  | [], [] => .eq
  | [], _ :: _ => .lt
  | _ :: _, [] => .gt
  | a :: as, b :: bs => (a.compare b).then (compareComponents as bs)

def compare (p q : Path) : Ordering :=
  compareComponents p.components q.components

/-- The components behind `base`, when they begin with it. -/
def componentsAfter : (base cs : List Component) → Option (List Component)
  | [], cs => some cs
  | _ :: _, [] => none
  | b :: base, c :: cs => if b = c then componentsAfter base cs else none

/-- Whether `p` is `base` or lies below it. -/
def startsWith (p base : Path) : Bool :=
  (componentsAfter base.components p.components).isSome

/-- The path `q` seen from the directory `p`; an absolute `q` stands for itself. -/
def join (p q : Path) : Path :=
  if q.isAbsolute then q
  else if p.text = "" || p.text.toList.getLast? = some '/' then ⟨p.text ++ q.text⟩
  else ⟨p.text ++ "/" ++ q.text⟩

def child (p : Path) (name : String) : Path :=
  p.join ⟨name⟩

/-- The last component, if it is a name. -/
def fileName? (p : Path) : Option String :=
  match p.components.getLast? with
  | some (.normal name) => some name
  | _ => none

/-- The parts of a file name before and behind its last dot. A dot at the start does not count. -/
def splitExtension (name : String) : String × Option String :=
  match Text.splitLast? '.' name.toList with
  | some ([], _) => (name, none)
  | some (stem, ext) => (String.ofList stem, some (String.ofList ext))
  | none => (name, none)

def stem? (p : Path) : Option String :=
  p.fileName?.map fun name => (splitExtension name).1

def extension? (p : Path) : Option String :=
  p.fileName?.bind fun name => (splitExtension name).2

/-- The text up to the end of the last component. -/
def withoutTail (p : Path) : List Char :=
  let rec go : List Char → List Char
    | '/' :: r => go r
    | '.' :: '/' :: r => go ('/' :: r)
    | r => r
  (go p.text.toList.reverse).reverse

/-- The path with `ext` in place of its extension; a path without a file name stays as it is. -/
def withExtension (p : Path) (ext : String) : Path :=
  match p.fileName? with
  | none => p
  | some name =>
    let stem := (splitExtension name).1
    let before := p.withoutTail.take (p.withoutTail.length - name.length)
    ⟨String.ofList before ++ stem ++ "." ++ ext⟩

def ofComponents (cs : List Component) : Path :=
  cs.foldl (fun p c => p.child c.text) ⟨""⟩

/-- Components with `.` left out and each `..` taken together with the name before it; at the root
`..` leads nowhere. -/
def resolveDots (cs : List Component) : List Component :=
  (cs.foldl (fun (stack : List Component) c =>
    match c, stack with
    | .current, _ => stack
    | .parent, .normal _ :: below => below
    | .parent, _ => stack
    | c, _ => c :: stack) []).reverse

/-- The absolute path, without `.`, `..` and needless slashes, that `p` means in the working
directory `cwd`. The empty path means nothing and stays empty. -/
def normalize (cwd p : Path) : Path :=
  if p.isAbsolute then ofComponents (resolveDots p.components)
  else if p.text = "" then p
  else ofComponents (resolveDots (cwd.components ++ p.components))

def sourceExtensions : List String := ["py", "pyw"]

/-- The file stem that makes a directory a package. -/
def packageInit : String := "__init__"

def isSourceFile (p : Path) : Bool :=
  match p.extension? with
  | some ext => sourceExtensions.contains ext
  | none => false

def isPackageInit (p : Path) : Bool :=
  p.isSourceFile && p.stem? == some packageInit

end Path

end ImportAtlas
