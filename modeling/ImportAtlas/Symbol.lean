/-!
Symbols: the records that completions consist of, and sets of them that keep the order in which
symbols came and the first of several with one identity.
-/

set_option autoImplicit false

namespace ImportAtlas

inductive SymbolKind
  | classDef
  | function
  | attribute
  | imported
  | builtin
  | module
  deriving DecidableEq, Repr

def SymbolKind.label : SymbolKind → String
  | .classDef => "class"
  | .function => "function"
  | .attribute => "attribute"
  | .imported => "import"
  | .builtin => "builtin"
  | .module => "module"

/-- One symbol: how it is written, what it is, the module it comes from (empty for a text without
name), its documentation, and for an import the dotted path it stands for. -/
structure Symbol where
  name : String
  kind : SymbolKind
  owner : String
  doc : Option String := none
  target : Option String := none
  deriving DecidableEq, Repr

/-- What tells two symbols apart: documentation and target do not. -/
structure SymbolId where
  name : String
  kind : SymbolKind
  owner : String
  deriving DecidableEq, Repr

namespace Symbol

def id (s : Symbol) : SymbolId :=
  ⟨s.name, s.kind, s.owner⟩

def path (s : Symbol) : String :=
  s.target.getD s.name

end Symbol

/-- Symbols in the order in which they came, and in step with them the identities that have been
seen. -/
structure SymbolSet where
  toList : List Symbol
  seen : List SymbolId
  inStep : seen = toList.map Symbol.id
  deriving DecidableEq, Repr

namespace SymbolSet

def empty : SymbolSet := ⟨[], [], rfl⟩

def contains (s : SymbolSet) (x : Symbol) : Bool :=
  s.seen.contains x.id

/-- The set with the symbol added at its end, unless one of the same identity is in it. -/
def insert (s : SymbolSet) (x : Symbol) : SymbolSet :=
  if s.contains x then s
  else ⟨s.toList ++ [x], s.seen ++ [x.id], by rw [s.inStep, List.map_append, List.map_singleton]⟩

def insertNew (s : SymbolSet) (x : Symbol) : Bool × SymbolSet :=
  (!s.contains x, s.insert x)

def insertAll (s : SymbolSet) (xs : List Symbol) : SymbolSet :=
  xs.foldl insert s

def size (s : SymbolSet) : Nat :=
  s.toList.length

def isEmpty (s : SymbolSet) : Bool :=
  s.toList.isEmpty

theorem ext {s t : SymbolSet} (same : s.toList = t.toList) : s = t := by
  obtain ⟨xs, seen, step⟩ := s
  obtain ⟨ys, seen', step'⟩ := t
  obtain rfl : xs = ys := same
  obtain rfl := step.trans step'.symm
  rfl

@[simp] theorem toList_empty : empty.toList = [] := rfl

@[simp] theorem insertAll_nil (s : SymbolSet) : s.insertAll [] = s := rfl

@[simp] theorem insertAll_cons (s : SymbolSet) (x : Symbol) (xs : List Symbol) :
    s.insertAll (x :: xs) = (s.insert x).insertAll xs := rfl

theorem insertAll_append (s : SymbolSet) (xs ys : List Symbol) :
    s.insertAll (xs ++ ys) = (s.insertAll xs).insertAll ys :=
  List.foldl_append

theorem insert_of_contains {s : SymbolSet} {x : Symbol} (h : s.contains x) : s.insert x = s := by
  simp [insert, h]

theorem toList_insert_of_not_contains {s : SymbolSet} {x : Symbol} (h : s.contains x = false) :
    (s.insert x).toList = s.toList ++ [x] := by
  simp [insert, h]

theorem contains_iff {s : SymbolSet} {x : Symbol} :
    s.contains x ↔ x.id ∈ s.toList.map Symbol.id := by
  rw [contains, List.contains_iff_mem, s.inStep]

end SymbolSet

end ImportAtlas
