import ImportAtlas.Python.Expression

/-!
The patterns of match statements. They bind no symbols, so only their form is checked.
-/

set_option autoImplicit false

namespace ImportAtlas.Python

open Literal (repeatStep)

def restOfDottedName (fuel : Nat) (a : Admits) (c : Cursor) : Option Cursor :=
  (repeatStep (fun (_ : Unit) c =>
    match c.sign? a "." with
    | some c => c.name?.map fun (_, c) => some ((), c)
    | none => some none) fuel () c).map Prod.snd

/-- What follows a number, with a second one joined to it as an imaginary part. -/
def restOfNumber (a : Admits) (c : Cursor) : Option Cursor :=
  match c.next a with
  | some t =>
    if t.sign = "+" || t.sign = "-" then
      match t.after.next {} with
      | some ⟨.number, _, _, after⟩ => some after
      | _ => none
    else some c
  | none => none

def mappingEntry (pattern : Found → Option Cursor) (key : Found → Option Cursor) (t : Found) :
    Option (Unit × Cursor) :=
  if t.sign = "*" || t.sign = "**" then t.after.name?.map fun (_, c) => ((), c)
  else do
    let c ← (← key t).sign? {} ":"
    some ((), ← pattern (← c.next operand))

/-- Reads a pattern other than an alternative, keyword or alias; `nested` reads the patterns in
it. -/
def closedPattern (fuel : Nat) (self : ExpressionReader)
    (nested : Follow → Found → Option Cursor)
    (f : Follow) (t : Found) : Option Cursor :=
  let inside (t : Found) : Option (Unit × Cursor) := (nested .inside t).map fun c => ((), c)
  let listed (closer : String) (c : Cursor) : Option Cursor := do
    let t ← c.next element
    if t.sign = closer then some t.after
    else (elementsUntil fuel inside closer t).map Prod.snd
  match t.lexeme with
  | .quote q => (strings fuel self f q t.start t.after).map Prod.snd
  | .number => restOfNumber f.admits t.after
  | .word w =>
    if constants.contains w then some t.after
    else do
      let c ← restOfDottedName fuel f.admits t.after
      match c.sign? f.admits "(" with
      | some c => listed ")" c
      | none => some c
  | .sign s =>
    if s = "[" then listed "]" t.after
    else if s = "(" then listed ")" t.after
    else if s = "\x7b" then do
      let t ← t.after.next element
      if t.sign = "\x7d" then some t.after
      else (elementsUntil fuel (mappingEntry (nested .inside) (nested .more)) "\x7d" t).map Prod.snd
    else if s = "*" || s = "**" then t.after.name?.map Prod.snd
    else if s = "-" then
      match t.after.next {} with
      | some ⟨.number, _, _, after⟩ => restOfNumber f.admits after
      | _ => none
    else none
  | _ => none

def casePattern (self : ExpressionReader) : (fuel : Nat) → Follow → Found → Option Cursor
  | 0, _, _ => none
  | fuel + 1, f, t => do
    let nested := casePattern self fuel
    let alternatives (t : Found) : Option Cursor := do
      let c ← closedPattern fuel self nested f t
      let (_, c) ← repeatStep (fun _ c =>
        match c.sign? f.admits "|" with
        | some c => do some (some ((), ← closedPattern fuel self nested f (← c.next operand)))
        | none => some none) fuel () c
      some c
    let keyword : Option Cursor :=
      if t.word = "" || constants.contains t.word then none
      else t.after.sign? f.admits "="
    let c ← match keyword with
      | some c => do alternatives (← c.next operand)
      | none => alternatives t
    let (_, c) ← repeatStep (fun _ c =>
      match c.word? f.admits "as" with
      | some c => c.name?.map fun (_, c) => some ((), c)
      | none => some none) fuel () c
    some c

def caseHead (fuel : Nat) (self : ExpressionReader) (c : Cursor) : Option Cursor := do
  let pattern := casePattern self fuel
  let c ← pattern .more (← c.next operand)
  let (_, c) ← repeatStep (fun ended c =>
    if ended then some none
    else match c.sign? {} "," with
      | some c => do
        let t ← c.next operand
        if t.sign = ":" || t.word = "if" then some (some (true, c))
        else some (some (false, ← pattern .more t))
      | none => some none) fuel false c
  match c.word? {} "if" with
  | some c => (self.at .more c).map Prod.snd
  | none => some c

end ImportAtlas.Python
