import ImportAtlas.Index.Resolve
import ImportAtlas.Text.Lowercase

/-!
What can be written next inside an import statement.
-/

set_option autoImplicit false

namespace ImportAtlas.Completion

/-- The dotted name typed so far, without white space around it and one dot behind it. -/
def typedName (raw : String) : String :=
  let cs := Text.trimChars raw.toList
  String.ofList (Text.trimChars ((Text.stripEnd ['.'] cs).getD cs))

/-- What remains of a text behind a number of octets, if a character begins there. -/
def behindOctets : Nat → List Char → Option (List Char)
  | 0, cs => some cs
  | _ + 1, [] => none
  | n + 1, c :: cs => if c.utf8Size ≤ n + 1 then behindOctets (n + 1 - c.utf8Size) cs else none
termination_by _ cs => cs.length

/-- What remains of a module name behind a beginning given in lower case, whatever the case of the
name's letters. It keeps its own spelling where the beginning is as long as its lower case. -/
def tailBehind (lowered : String) (name : String) : Option (List Char) := do
  let rest ← Text.stripStart lowered.toList (Text.lower name).toList
  match behindOctets lowered.utf8ByteSize name.toList with
  | some own => if (Text.lower (String.ofList own)).toList = rest then some own else some rest
  | none => some rest

def nextSegment (lowered : String) (name : String) : Option String := do
  let rest ← tailBehind lowered name
  let rest ← if lowered = "" then some rest else Text.stripStart ['.'] rest
  match rest.takeWhile (· != '.') with
  | [] => none
  | segment => some (String.ofList segment)

/-- The segments that come next in some module names, in order and without repetition. -/
def nextSegments (lowered : String) (names : List String) : List String :=
  NameMap.keys ((names.filterMap (nextSegment lowered)).foldl
    (fun (m : NameMap Unit) segment => m.put segment ()) [])

/-- The symbols that can follow a dotted name in an import: the next segments of module names, and
the symbols of the module of that name. -/
def inImport (lib : Library) (raw : String) (s : State) : List Symbol × State :=
  let typed := typedName raw
  let lowered := Text.lower typed
  let segments := (nextSegments lowered s.index.names).map fun name =>
    ({ name, kind := .imported, owner := typed } : Symbol)
  let set := SymbolSet.empty.insertAll segments
  if lowered = "" then (set.toList, s)
  else
    match s.resolve lib typed with
    | (.ok m, s) => ((set.insertAll m.globals).toList, s)
    | (.error _, s) => (set.toList, s)

end ImportAtlas.Completion
