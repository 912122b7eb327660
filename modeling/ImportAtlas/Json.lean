import ImportAtlas.Text.Decimal
import ImportAtlas.Text.Hexadecimal

/-!
JSON values, read from text and written to it. A string whose escapes spell no text is well formed
but unreadable: it is accepted where nothing asks for its content.
-/

set_option autoImplicit false

namespace ImportAtlas

/-- A JSON value. A number is kept as it is written; a string or key is none if it is unreadable. -/
inductive Json
  | null
  | bool (b : Bool)
  | number (literal : List Char)
  | text (s : Option String)
  | array (items : List Json)
  | object (fields : List (Option String × Json))

namespace Json

def ofText (s : String) : Json := text (some s)

def ofNat (n : Nat) : Json := number (Text.decimalChars n)

def ofText? : Option String → Json
  | some s => ofText s
  | none => null

def ofFields (fields : List (String × Json)) : Json :=
  object (fields.map fun (key, value) => (some key, value))

/-! Reading. -/

def isSpace (c : Char) : Bool :=
  c == ' ' || c == '\n' || c == '\t' || c == '\r'

/-- A piece of a string: a character, or a unit of sixteen bits given by its number. -/
inductive Piece
  | char (c : Char)
  | unit (n : Nat)
  deriving DecidableEq

def escaped? (c : Char) : Option Char :=
  match c with
  | '"' => some '"'
  | '\\' => some '\\'
  | '/' => some '/'
  | 'b' => some '\x08'
  | 'f' => some '\x0c'
  | 'n' => some '\n'
  | 'r' => some '\r'
  | 't' => some '\t'
  | _ => none

def pieces : List Char → Option (List Piece × List Char)
  | '"' :: r => some ([], r)
  | '\\' :: 'u' :: a :: b :: c :: d :: r => do
    let high := (← Text.hexValue a) * 16 + (← Text.hexValue b)
    let low := (← Text.hexValue c) * 16 + (← Text.hexValue d)
    let (rest, r) ← pieces r
    some (.unit (high * 256 + low) :: rest, r)
  | '\\' :: e :: r => do
    let c ← escaped? e
    let (rest, r) ← pieces r
    some (.char c :: rest, r)
  | c :: r =>
    if c.toNat < 0x20 || c == '\\' then none
    else do
      let (rest, r) ← pieces r
      some (.char c :: rest, r)
  | [] => none

/-- The characters of some pieces; two units that make one character must stand side by side. -/
def joinPieces : List Piece → Option (List Char)
  | [] => some []
  | .char c :: rest => (joinPieces rest).map (c :: ·)
  | .unit high :: .unit low :: rest =>
    if 0xd800 ≤ high ∧ high < 0xdc00 then
      if 0xdc00 ≤ low ∧ low < 0xe000 then
        (joinPieces rest).map
          (Char.ofNat (0x10000 + (high - 0xd800) * 0x400 + (low - 0xdc00)) :: ·)
      else none
    else if 0xdc00 ≤ high ∧ high < 0xe000 then none
    else (joinPieces (.unit low :: rest)).map (Char.ofNat high :: ·)
  | .unit n :: rest =>
    if 0xd800 ≤ n ∧ n < 0xe000 then none else (joinPieces rest).map (Char.ofNat n :: ·)

def stringTail (cs : List Char) : Option (Option String × List Char) := do
  let (ps, r) ← pieces cs
  some ((joinPieces ps).map String.ofList, r)

/-- The digits at the start of a text, of which there must be one, and what follows them. -/
def someDigits (cs : List Char) : Option (List Char × List Char) :=
  match cs.takeWhile Char.isDigit with
  | [] => none
  | ds => some (ds, cs.dropWhile Char.isDigit)

/-- Reads the whole part of a number, which has no needless zeros. -/
def wholePart : List Char → Option (List Char × List Char)
  | '0' :: r => some (['0'], r)
  | cs => someDigits cs

def fraction : List Char → Option (List Char × List Char)
  | '.' :: r => (someDigits r).map fun (ds, r) => ('.' :: ds, r)
  | r => some ([], r)

def exponent (cs : List Char) : Option (List Char × List Char) :=
  match cs with
  | e :: r =>
    if e == 'e' || e == 'E' then
      match r with
      | s :: r' =>
        if s == '+' || s == '-' then (someDigits r').map fun (ds, r) => (e :: s :: ds, r)
        else (someDigits r).map fun (ds, r) => (e :: ds, r)
      | [] => none
    else some ([], cs)
  | [] => some ([], [])

def unsigned (cs : List Char) : Option (List Char × List Char) := do
  let (whole, r) ← wholePart cs
  let (part, r) ← fraction r
  let (power, r) ← exponent r
  some (whole ++ part ++ power, r)

def keyword (cs : List Char) : Option (Json × List Char) :=
  match cs with
  | 'n' :: 'u' :: 'l' :: 'l' :: r => some (null, r)
  | 't' :: 'r' :: 'u' :: 'e' :: r => some (bool true, r)
  | 'f' :: 'a' :: 'l' :: 's' :: 'e' :: r => some (bool false, r)
  | _ => none

def skipSpace (cs : List Char) : List Char :=
  cs.dropWhile isSpace

mutual
def value : (fuel : Nat) → List Char → Option (Json × List Char)
  | 0, _ => none
  | fuel + 1, cs =>
    match skipSpace cs with
    | '"' :: r => (stringTail r).map fun (s, r) => (text s, r)
    | '[' :: r =>
      match skipSpace r with
      | ']' :: r => some (array [], r)
      | r => (items fuel r).map fun (xs, r) => (array xs, r)
    | '{' :: r =>
      match skipSpace r with
      | '}' :: r => some (object [], r)
      | r => (fields fuel r).map fun (xs, r) => (object xs, r)
    | '-' :: r => (unsigned r).map fun (n, r) => (number ('-' :: n), r)
    | c :: r =>
      if c.isDigit then (unsigned (c :: r)).map fun (n, r) => (number n, r)
      else keyword (c :: r)
    | [] => none

def items : (fuel : Nat) → List Char → Option (List Json × List Char)
  | 0, _ => none
  | fuel + 1, cs => do
    let (x, r) ← value fuel cs
    match skipSpace r with
    | ',' :: r => (items fuel r).map fun (xs, r) => (x :: xs, r)
    | ']' :: r => some ([x], r)
    | _ => none

def fields : (fuel : Nat) → List Char → Option (List (Option String × Json) × List Char)
  | 0, _ => none
  | fuel + 1, cs =>
    match skipSpace cs with
    | '"' :: r => do
      let (key, r) ← stringTail r
      match skipSpace r with
      | ':' :: r =>
        let (x, r) ← value fuel r
        match skipSpace r with
        | ',' :: r => (fields fuel r).map fun (xs, r) => ((key, x) :: xs, r)
        | '}' :: r => some ([(key, x)], r)
        | _ => none
      | _ => none
    | _ => none
end

def parse (s : String) : Option Json := do
  let cs := s.toList
  let (x, r) ← value (cs.length + 1) cs
  if (skipSpace r).isEmpty then some x else none

/-! Looking into values. -/

def string? : Json → Option String
  | text s => s
  | _ => none

def stringOrNull? : Json → Option (Option String)
  | null => some none
  | text (some s) => some (some s)
  | _ => none

def bool? : Json → Option Bool
  | bool b => some b
  | _ => none

/-- A natural number below `bound`, written in digits alone. -/
def natBelow? (bound : Nat) : Json → Option Nat
  | number literal => (Text.decimal? literal).filter (· < bound)
  | _ => none

/-- The values of the named fields of an object, each none if it is missing. The keys must be
readable, and none of the names may come twice; other keys do not count. -/
def lookup? (names : List String) (fields : List (Option String × Json)) :
    Option (List (Option Json)) :=
  let once (name : String) := (fields.filter fun (key, _) => key = some name).length ≤ 1
  if fields.all (fun (key, _) => key.isSome) && names.all (fun name => once name) then
    some (names.map fun name => fields.lookup (some name))
  else none

/-! Writing. -/

def escapeChar (c : Char) : List Char :=
  if c = '"' then ['\\', '"']
  else if c = '\\' then ['\\', '\\']
  else if c = '\n' then ['\\', 'n']
  else if c = '\r' then ['\\', 'r']
  else if c = '\t' then ['\\', 't']
  else if c = '\x08' then ['\\', 'b']
  else if c = '\x0c' then ['\\', 'f']
  else if c.toNat < 0x20 then
    ['\\', 'u', '0', '0', Text.hexChar (c.toNat / 16), Text.hexChar (c.toNat % 16)]
  else [c]

def quoted (s : String) : List Char :=
  '"' :: s.toList.flatMap escapeChar ++ ['"']

/-- How values are laid out: on one line, or with each item on a line of its own, indented by two
spaces for each bracket around it. -/
inductive Layout
  | compact
  | lines (depth : Nat)

def Layout.deeper : Layout → Layout
  | compact => compact
  | lines depth => lines (depth + 1)

def Layout.lineBreak : Layout → List Char
  | compact => []
  | lines depth => '\n' :: List.replicate (2 * depth) ' '

def Layout.colon : Layout → List Char
  | compact => [':']
  | lines _ => [':', ' ']

mutual
/-- The text of a value. An unreadable string is written as an empty one. -/
def render (l : Layout) : Json → List Char
  | null => "null".toList
  | bool true => "true".toList
  | bool false => "false".toList
  | number literal => literal
  | text s => quoted (s.getD "")
  | array [] => ['[', ']']
  | array (x :: xs) =>
    '[' :: l.deeper.lineBreak ++ render l.deeper x ++ renderItems l.deeper xs ++
      l.lineBreak ++ [']']
  | object [] => ['{', '}']
  | object ((key, x) :: xs) =>
    '{' :: l.deeper.lineBreak ++ quoted (key.getD "") ++ l.colon ++ render l.deeper x ++
      renderFields l.deeper xs ++ l.lineBreak ++ ['}']

def renderItems (l : Layout) : List Json → List Char
  | [] => []
  | x :: xs => ',' :: l.lineBreak ++ render l x ++ renderItems l xs

def renderFields (l : Layout) : List (Option String × Json) → List Char
  | [] => []
  | (key, x) :: xs =>
    ',' :: l.lineBreak ++ quoted (key.getD "") ++ l.colon ++ render l x ++ renderFields l xs
end

def compress (j : Json) : String :=
  String.ofList (render .compact j)

def pretty (j : Json) : String :=
  String.ofList (render (.lines 0) j)

end Json

end ImportAtlas
