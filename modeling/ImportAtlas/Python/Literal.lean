import ImportAtlas.Python.Cursor
import ImportAtlas.Text.Hexadecimal

/-!
The inside of a string literal: plain characters, escape sequences, and the replacement fields of
formatted strings, whose expressions are read by a function given from outside.
-/

set_option autoImplicit false

namespace ImportAtlas.Python.Literal

/-- Repeats `step` until it has nothing more to add; `fuel` bounds the number of rounds. -/
def repeatStep {α : Type} (step : α → Cursor → Option (Option (α × Cursor))) :
    (fuel : Nat) → α → Cursor → Option (α × Cursor)
  | 0, _, _ => none
  | fuel + 1, a, c =>
    match step a c with
    | none => none
    | some none => some (a, c)
    | some (some (a, c)) => repeatStep step fuel a c

/-- How far a run of plain characters reaches: up to a place where something else begins, or through
the closing delimiter, or nowhere. -/
inductive Run
  | upTo (rest : List Char)
  | closed (rest : List Char)
  | nothing

def skipLineEnd : List Char → List Char
  | '\r' :: '\n' :: r => r
  | '\r' :: r => r
  | '\n' :: r => r
  | r => r

theorem skipLineEnd_length_le (cs : List Char) : (skipLineEnd cs).length ≤ cs.length := by
  fun_cases skipLineEnd cs with
  | case1 r => exact Nat.le_add_right _ 2
  | case2 r _ => exact Nat.le_succ _
  | case3 r => exact Nat.le_succ _
  | case4 => exact Nat.le_refl _

/-- What a backslash of a raw literal takes with it: a delimiter or backslash, and a line end. -/
def skipGuarded (q : Quote) : List Char → List Char
  | c :: r => if c == q.mark || c == '\\' then skipLineEnd r else skipLineEnd (c :: r)
  | [] => []

theorem skipGuarded_length_le (q : Quote) (cs : List Char) :
    (skipGuarded q cs).length ≤ cs.length := by
  unfold skipGuarded
  split
  · split
    · exact Nat.le_succ_of_le (skipLineEnd_length_le _)
    · exact skipLineEnd_length_le _
  · exact Nat.le_refl _

/-- What stands at a delimiter character of a literal whose delimiter is three of them. One or two
of them are plain characters. -/
def tripleAt (q : Quote) (nonempty : Bool) (c : Char) (r : List Char) : Run :=
  match r with
  | d :: e :: after =>
    if d == q.mark && e == q.mark then if nonempty then .upTo (c :: r) else .closed after
    else if d == q.mark then .upTo (e :: after)
    else .upTo r
  | [d] => if d == q.mark then .upTo [] else .upTo r
  | [] => .upTo r

/-- Reads plain characters; `nonempty` tells whether any have been read. A line end inside a literal
of one line is admitted only as its first plain character. In a literal of bytes, a backslash before
one of `N`, `u` and `U` is plain, and takes one more character with it. -/
def run (q : Quote) (nonempty : Bool) : List Char → Run
  | [] => .nothing
  | c :: r =>
    if c == '\\' then
      if q.raw then run q nonempty (skipGuarded q r)
      else
        let named := match r with
          | d :: _ => q.bytes && (d == 'N' || d == 'u' || d == 'U')
          | [] => false
        if named then run q true (r.drop 2)
        else if nonempty then .upTo (c :: r) else .nothing
    else if q.format && (c == '{' || c == '}') then
      if nonempty then .upTo (c :: r) else .nothing
    else if c == q.mark then
      if q.triple then tripleAt q nonempty c r
      else if nonempty then .upTo (c :: r) else .closed r
    else if c == '\n' && nonempty && !q.triple then .nothing
    else run q true r
termination_by cs => cs.length
decreasing_by
  · have := skipGuarded_length_le q r
    simp only [List.length_cons]
    omega
  · simp only [List.length_cons, List.length_drop]
    omega
  · simp

def hexDigits : Nat → List Char → Option (List Char)
  | 0, r => some r
  | n + 1, c :: r =>
    if Text.isHexDigit c then hexDigits n r else none
  | _ + 1, [] => none

/-- What follows an escape sequence, its backslash already read; an unknown one is the backslash
alone. -/
def afterEscape (cs : List Char) : List Char :=
  match cs with
  | 'u' :: r => (hexDigits 4 r).getD cs
  | 'U' :: r => (hexDigits 8 r).getD cs
  | 'x' :: r => (hexDigits 2 r).getD cs
  | '\r' :: '\n' :: r => r
  | 'N' :: '{' :: d :: r =>
    if d == '}' then cs
    else match r.dropWhile (· != '}') with
      | _ :: r => r
      | [] => cs
  | c :: r =>
    if ['\n', '\'', '"', 'a', 'b', 'f', 'r', 'n', 't', 'v', '\\'].contains c then r
    else match cs with
      | a :: b :: d :: r => if a.isDigit && b.isDigit && d.isDigit then r else cs
      | _ => cs
  | [] => []

inductive Piece
  | past (rest : List Char)
  | field (rest : List Char)
  | closed (rest : List Char)
  | broken

def piece (q : Quote) (cs : List Char) : Piece :=
  let other : Piece := match cs with
    | '\\' :: r => .past (afterEscape r)
    | '{' :: r => .field r
    | _ => .broken
  let plain : Piece := match run q false cs with
    | .upTo r => .past r
    | .closed r => .closed r
    | .nothing => other
  if q.format then
    match cs with
    | '{' :: '{' :: r => .past r
    | '}' :: '}' :: r => .past r
    | '{' :: r => .field r
    | '}' :: _ => .broken
    | _ => plain
  else plain

def specification (field : Cursor → Option Cursor) (fuel : Nat) (c : Cursor) : Option Cursor :=
  (repeatStep (fun (_ : Unit) c =>
    match c.rest with
    | '{' :: r => (field (c.moveTo r)).map fun c => some ((), c)
    | '}' :: _ => some none
    | '\n' :: r => some (some ((), c.moveTo r))
    | _ :: r => some (some ((), c.moveTo (r.dropWhile fun c => c != '{' && c != '}' && c != '\n')))
    | [] => none) fuel () c).map Prod.snd

def field (expressions : Cursor → Option Cursor) : (fuel : Nat) → Cursor → Option Cursor
  | 0, _ => none
  | fuel + 1, c => do
    let inside : Admits := { closer := true }
    let c ← expressions c
    let c := (c.sign? inside "=").getD c
    let c := (c.sign? inside "!").getD c
    match c.sign? inside ":" with
    | some c => (← specification (field expressions fuel) fuel c).sign? inside "\x7d"
    | none => c.sign? inside "\x7d"

def read (expressions : Cursor → Option Cursor) (fuel : Nat) (q : Quote) (c : Cursor) :
    Option Cursor := do
  let step (_ : Bool) (c : Cursor) : Option (Option (Bool × Cursor)) :=
    match piece q c.rest with
    | .past r => some (some (false, c.moveTo r))
    | .field r => (field expressions fuel (c.moveTo r)).map fun c => some (false, c)
    | .closed _ => some none
    | .broken => none
  let (_, c) ← repeatStep step fuel false c
  match piece q c.rest with
  | .closed r => some (c.moveTo r)
  | _ => none

end ImportAtlas.Python.Literal
