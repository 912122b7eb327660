import ImportAtlas.Python.Tree
import ImportAtlas.Python.Literal

/-!
Expressions, parameters and annotations. A reader checks the form of what it reads and keeps only
what symbols depend on: whether an expression can be assigned to, and whether it is one string
literal. Readers are written over a reader `self` of the expressions nested in them; `expression`
ties the knot, with a bound on the nesting.
-/

set_option autoImplicit false

namespace ImportAtlas.Python

open Literal (repeatStep)

/-- What an expression is to the statement around it. -/
inductive Form
  | target (t : Target)
  | text (literal : String)
  | other

/-- What the place behind an expression admits, and whether a conditional expression may follow. -/
structure Follow where
  lineEnd : Bool := false
  closer : Bool := false
  noIf : Bool := false

def Follow.inside : Follow := { closer := true }

def Follow.line : Follow := { lineEnd := true }

def Follow.more : Follow := {}

def Follow.admits (f : Follow) : Admits :=
  { lineEnd := f.lineEnd, closer := f.closer }

def Follow.maybe (f : Follow) : Admits :=
  { lineEnd := f.lineEnd, closer := f.closer, quote := true }

def operand : Admits := { quote := true }

def element : Admits := { quote := true, closer := true }

abbrev ExpressionReader := Follow → Found → Option (Form × Cursor)

def constants : List String := ["True", "False", "None"]

def Found.sign (t : Found) : String :=
  match t.lexeme with
  | .sign s => s
  | _ => ""

def Found.word (t : Found) : String :=
  match t.lexeme with
  | .word w => w
  | _ => ""

def ExpressionReader.at (self : ExpressionReader) (f : Follow) (c : Cursor) :
    Option (Form × Cursor) := do
  self f (← c.next operand)

/-- The targets among bracketed forms, with the comments before each; none if a form is no
target. -/
def targetsOf : List (List String × Form) → Option (List Target)
  | [] => some []
  | (comments, .target t) :: rest =>
    (targetsOf rest).map fun ts => comments.map Target.comment ++ t :: ts
  | _ :: _ => none

/-- Reads expressions separated by commas. A comma at the end is admitted and reads as one more
expression that is none. -/
def expressionList (fuel : Nat) (self : ExpressionReader) (f : Follow) (t : Found) :
    Option (List (Option Form) × Cursor) := do
  let (first, c) ← self f t
  let ((forms, _), c) ← repeatStep (fun (forms, ended) c =>
    if ended then some none
    else match c.sign? f.admits "," with
      | none => some none
      | some c =>
        match c.next f.maybe >>= self f with
        | some (form, c) => some (some ((some form :: forms, false), c))
        | none => some (some ((none :: forms, true), c)))
    fuel ([some first], false) c
  some (forms.reverse, c)

def yieldRest (fuel : Nat) (self : ExpressionReader) (f : Follow) (c : Cursor) : Option Cursor :=
  match c.next f.maybe with
  | none => none
  | some t =>
    if t.word = "from" then (self.at f t.after).map Prod.snd
    else match expressionList fuel self f t with
      | some (_, c) => some c
      | none => some c

def collectionElement (fuel : Nat) (self : ExpressionReader) (t : Found) :
    Option (Form × Cursor) :=
  if t.word = "yield" then (yieldRest fuel self .inside t.after).map fun c => (.other, c)
  else if t.sign = "*" then do
    let (form, c) ← self.at .inside t.after
    match form with
    | .target (.name n) => some (.target (.starred (.name n)), c)
    | .target (.attribute o n) => some (.target (.starred (.attribute o n)), c)
    | .target .subscript => some (.target (.starred .subscript), c)
    | _ => some (.other, c)
  else self .inside t

/-- Reads the elements behind the first one, which are separated by commas, through the closing sign
`closer`; each element comes with the comments before it. -/
def moreElements {α : Type} (fuel : Nat) (read : Found → Option (α × Cursor)) (closer : String)
    (first : List String × α) (c : Cursor) : Option (List (List String × α) × Cursor) := do
  let ((items, _), c) ← repeatStep (fun (items, ended) c =>
    if ended then some none
    else do
      let t ← c.next element
      if t.sign = closer then some (some ((items, true), t.after))
      else if t.sign = "," then
        let t ← t.after.next element
        if t.sign = closer then some (some ((items, true), t.after))
        else
          let (item, c) ← read t
          some (some (((t.comments, item) :: items, false), c))
      else none)
    fuel ([first], false) c
  some (items.reverse, c)

def elementsUntil {α : Type} (fuel : Nat) (read : Found → Option (α × Cursor))
    (closer : String) (t : Found) : Option (List (List String × α) × Cursor) := do
  let (first, c) ← read t
  moreElements fuel read closer (t.comments, first) c

/-- Reads a primary expression: an atom with its attributes, subscripts and calls. Given `primary`,
a function that also tells whether a star may stand before what it read. -/
def starredPrimary (primary : Follow → Found → Option ((Form × Bool) × Cursor)) (f : Follow)
    (c : Cursor) : Option (Form × Cursor) := do
  let ((form, starrable), c) ← primary f (← c.next operand)
  if starrable then
    match form with
    | .target t => some (.target (.starred t), c)
    | _ => some (.other, c)
  else none

def loopTargets (fuel : Nat) (primary : Follow → Found → Option ((Form × Bool) × Cursor))
    (c : Cursor) : Option (Target × Cursor) := do
  let one (t : Found) : Option (Target × Cursor) := do
    let (form, c) ←
      if t.sign = "*" then starredPrimary primary .more t.after
      else (primary .more t).map fun ((form, _), c) => (form, c)
    match form with
    | .target t => some (t, c)
    | _ => none
  let (first, c) ← one (← c.next operand)
  let ((targets, comma, _), c) ← repeatStep (fun (targets, comma, ended) c =>
    if ended then some none
    else do
      let t ← c.next {}
      if t.word = "in" then some (some ((targets, comma, true), t.after))
      else if t.sign = "," then
        let t ← t.after.next operand
        if t.word = "in" then some (some ((targets, true, true), t.after))
        else
          let (target, c) ← one t
          some (some ((target :: targets, true, false), c))
      else none)
    fuel ([first], false, false) c
  match targets, comma with
  | [target], false => some (target, c)
  | targets, _ => some (.bare targets.reverse, c)

def comprehension (fuel : Nat) (self : ExpressionReader)
    (primary : Follow → Found → Option ((Form × Bool) × Cursor)) (c : Cursor) :
    Option Cursor := do
  let f : Follow := { closer := true, noIf := true }
  let sources (c : Cursor) : Option Cursor := do
    let (_, c) ← self.at f c
    let (_, c) ← repeatStep (fun ended c =>
      if ended then some none
      else match c.sign? f.admits "," with
        | none => some none
        | some c =>
          match c.next f.maybe with
          | none => none
          | some t =>
            if ["for", "async", "if"].contains t.word then some (some (true, c))
            else match self f t with
              | some (_, c) => some (some (false, c))
              | none => some (some (true, c)))
      fuel false c
    some c
  let (_, c) ← repeatStep (fun _ c =>
    match c.next f.admits with
    | none => none
    | some t =>
      if t.word = "for" then do
        let (_, c) ← loopTargets fuel primary t.after
        some (some ((), ← sources c))
      else if t.word = "async" then do
        let (_, c) ← loopTargets fuel primary (← t.after.word? {} "for")
        some (some ((), ← sources c))
      else if t.word = "if" then do
        let (_, c) ← self.at f t.after
        some (some ((), c))
      else some none)
    fuel () c
  some c

def comprehensionNext (c : Cursor) : Bool :=
  match c.next { closer := true } with
  | some t => t.word = "for" || t.word = "async"
  | none => false

def collection (fuel : Nat) (self : ExpressionReader)
    (primary : Follow → Found → Option ((Form × Bool) × Cursor)) (closer : String)
    (wrap : List Target → Form) (c : Cursor) : Option (Form × Cursor) := do
  let t ← c.next element
  if t.sign = closer then some (wrap (t.comments.map Target.comment), t.after)
  else
    let (first, c) ← collectionElement fuel self t
    if comprehensionNext c then
      let c ← comprehension fuel self primary c
      some (.other, ← c.sign? { closer := true } closer)
    else
      let element := collectionElement fuel self
      let (items, c) ← moreElements fuel element closer (t.comments, first) c
      match targetsOf items with
      | some targets => some (wrap targets, c)
      | none => some (.other, c)

def dictionaryEntry (self : ExpressionReader) (t : Found) : Option (Unit × Cursor) :=
  if t.sign = "**" then (self.at .inside t.after).map fun (_, c) => ((), c)
  else do
    let (_, c) ← self .inside t
    let (_, c) ← self.at .inside (← c.sign? { closer := true } ":")
    some ((), c)

def braces (fuel : Nat) (self : ExpressionReader)
    (primary : Follow → Found → Option ((Form × Bool) × Cursor)) (c : Cursor) :
    Option Cursor := do
  let closer := "\x7d"
  let t ← c.next element
  let rest {α : Type} (read : Found → Option (α × Cursor)) (first : α) (c : Cursor) :=
    (moreElements fuel read closer ([], first) c).map Prod.snd
  if t.sign = closer then some t.after
  else if t.sign = "," then t.after.sign? { closer := true } closer
  else if t.sign = "**" then
    let (first, c) ← dictionaryEntry self t
    rest (dictionaryEntry self) first c
  else
    let (first, c) ← collectionElement fuel self t
    match c.sign? { closer := true } ":" with
    | some c =>
      let (_, c) ← self.at .inside c
      if comprehensionNext c then
        (← comprehension fuel self primary c).sign? { closer := true } closer
      else rest (dictionaryEntry self) () c
    | none =>
      if comprehensionNext c then
        (← comprehension fuel self primary c).sign? { closer := true } closer
      else rest (collectionElement fuel self) first c

def argument (self : ExpressionReader) (t : Found) : Option (Unit × Cursor) :=
  if t.sign = "*" || t.sign = "**" then (self.at .inside t.after).map fun (_, c) => ((), c)
  else do
    let (form, c) ← self .inside t
    match form with
    | .target (.name _) =>
      match c.sign? { closer := true } "=" with
      | some c => (self.at .inside c).map fun (_, c) => ((), c)
      | none => some ((), c)
    | _ => some ((), c)

def arguments (fuel : Nat) (self : ExpressionReader)
    (primary : Follow → Found → Option ((Form × Bool) × Cursor)) (c : Cursor) :
    Option Cursor := do
  let t ← c.next element
  if t.sign = ")" then some t.after
  else if t.sign = "," then t.after.sign? { closer := true } ")"
  else
    let (first, c) ← argument self t
    if comprehensionNext c then
      (← comprehension fuel self primary c).sign? { closer := true } ")"
    else (moreElements fuel (argument self) ")" (t.comments, first) c).map Prod.snd

def subscript (self : ExpressionReader) (t : Found) : Option (Unit × Cursor) := do
  let bound (c : Cursor) : Option Cursor := do
    let t ← c.next element
    if [",", "]", ":"].contains t.sign then some c
    else (self .inside t).map Prod.snd
  let c ← if t.sign = ":" then some t.start else (self .inside t).map Prod.snd
  match c.sign? { closer := true } ":" with
  | none => some ((), c)
  | some c =>
    let c ← bound c
    match c.sign? { closer := true } ":" with
    | none => some ((), c)
    | some c => (bound c).map fun c => ((), c)

def shownExpressions (fuel : Nat) (self : ExpressionReader) (c : Cursor) : Option Cursor := do
  let t ← c.next operand
  if t.word = "yield" then yieldRest fuel self .inside t.after
  else (expressionList fuel self .inside t).map Prod.snd

/-- Reads string literals that follow one another, behind the first delimiter. The form is the
literal's text if there is only one. -/
def strings (fuel : Nat) (self : ExpressionReader) (f : Follow) (q : Quote) (start c : Cursor) :
    Option (Form × Cursor) := do
  let shown := shownExpressions fuel self
  let c ← Literal.read shown fuel q c
  let (single, last) ← repeatStep (fun _ c =>
    match c.next f.maybe with
    | some ⟨.quote q, _, _, after⟩ =>
      (Literal.read shown fuel q after).map fun c => some (false, c)
    | _ => some none)
    fuel true c
  some (if single then .text (start.textTo c) else .other, last)

def atom (fuel : Nat) (self : ExpressionReader)
    (primary : Follow → Found → Option ((Form × Bool) × Cursor)) (f : Follow) (t : Found) :
    Option (Form × Cursor) :=
  match t.lexeme with
  | .word w => some (if constants.contains w then .other else .target (.name w), t.after)
  | .number => some (.other, t.after)
  | .quote q => strings fuel self f q t.start t.after
  | .sign s =>
    if s = "(" then collection fuel self primary ")" (fun ts => .target (.tuple ts)) t.after
    else if s = "[" then collection fuel self primary "]" (fun ts => .target (.list ts)) t.after
    else if s = "\x7b" then (braces fuel self primary t.after).map fun c => (.other, c)
    else if s = "..." then some (.other, t.after)
    else none
  | _ => none

/-- Reads an atom with the attributes, subscripts and calls behind it. Tells whether a star may
stand before it: behind a name, and behind any attribute or subscript. -/
def primaryWithin : (nesting : Nat) → (fuel : Nat) → ExpressionReader → Follow → Found →
    Option ((Form × Bool) × Cursor)
  | 0, _, _, _, _ => none
  | nesting + 1, fuel, self, f, t => do
    let primary := primaryWithin nesting fuel self
    let (form, c) ← atom fuel self primary f t
    let isName := match t.lexeme, form with
      | .word _, .target _ => true
      | _, _ => false
    repeatStep (fun (_, starrable) c =>
      match c.next f.maybe with
      | some ⟨.sign s, _, _, after⟩ =>
        if s = "." then do
          let (name, after) ← after.name?
          some (some ((.target (.attribute (t.start.textTo c) name), true), after))
        else if s = "[" then do
          let s ← after.next operand
          let (_, after) ← elementsUntil fuel (subscript self) "]" s
          some (some ((.target .subscript, true), after))
        else if s = "(" then do
          let after ← arguments fuel self primary after
          some (some ((.other, starrable), after))
        else some none
      | _ => some none)
      fuel (form, isName) c

def binarySigns : List String :=
  ["+", "-", "*", "@", "/", "%", "//", "**", "|", "&", "^", "<<", ">>"]

def comparisonSigns : List String := ["<", "<=", "==", "!=", ">=", ">", "<>"]

/-- Reads an operand: a primary expression behind any signs, stars and awaits. An `await` with
nothing to wait for is a name. -/
def signed (fuel : Nat) (self : ExpressionReader) : (nesting : Nat) → Follow → Found →
    Option (Form × Cursor)
  | 0, _, _ => none
  | nesting + 1, f, t =>
    let primary := primaryWithin fuel fuel self
    if ["+", "-", "~"].contains t.sign then do
      let (_, c) ← signed fuel self nesting f (← t.after.next operand)
      some (.other, c)
    else if t.sign = "*" then starredPrimary primary f t.after
    else
      let awaited := if t.word = "await" then t.after.next f.maybe >>= signed fuel self nesting f
        else none
      match awaited with
      | some (_, c) => some (.other, c)
      | none => (primary f t).map fun ((form, _), c) => (form, c)

def arithmetic (fuel : Nat) (self : ExpressionReader) (f : Follow) (t : Found) :
    Option (Form × Cursor) := do
  let (form, c) ← signed fuel self fuel f t
  repeatStep (fun _ c =>
    match c.next f.admits with
    | some ⟨.sign s, _, _, after⟩ =>
      if binarySigns.contains s then do
        let (_, c) ← signed fuel self fuel f (← after.next operand)
        some (some (.other, c))
      else some none
    | _ => some none)
    fuel form c

def comparisonSign (f : Follow) (c : Cursor) : Option Cursor := do
  let t ← c.next f.admits
  if comparisonSigns.contains t.sign || t.word = "in" then some t.after
  else if t.word = "is" then some ((t.after.word? operand "not").getD t.after)
  else if t.word = "not" then t.after.word? {} "in"
  else none

def comparison (fuel : Nat) (self : ExpressionReader) (f : Follow) (t : Found) :
    Option (Form × Cursor) := do
  let (form, c) ← arithmetic fuel self f t
  repeatStep (fun _ c =>
    match comparisonSign f c with
    | some c => do
      let (_, c) ← arithmetic fuel self f (← c.next operand)
      some (some (.other, c))
    | none => some none)
    fuel form c

/-- Reads an annotation. Where `bounded` holds, a colon with an upper bound may follow. -/
def typeHint (self : ExpressionReader) (bounded : Bool) : (fuel : Nat) → Follow → Found →
    Option Cursor
  | 0, _, _ => none
  | fuel + 1, f, t => do
    let starredType : Option Cursor :=
      if t.sign = "*" || t.sign = "**" then t.after.name?.map Prod.snd else none
    let generic : Option Cursor := do
      if t.word = "" then none
      else
        let s ← (← t.after.sign? f.admits "[").next operand
        (elementsUntil fuel (fun t => (typeHint self true fuel .inside t).map fun c => ((), c))
          "]" s).map Prod.snd
    let c ← ((self f t).map Prod.snd).orElse fun _ => starredType.orElse fun _ => generic
    let (_, c) ← repeatStep (fun _ c =>
      match c.next f.admits with
      | some ⟨.sign s, _, _, after⟩ =>
        if s = "|" || (s = ":" && bounded) then do
          let t ← after.next operand
          some (some ((), ← typeHint self bounded fuel f t))
        else if s = "." then (after.name?).map fun (_, c) => some ((), c)
        else some none
      | _ => some none)
      fuel () c
    some c

/-- Reads one parameter. Only the parameters of a definition may be `annotated`. -/
def parameter (fuel : Nat) (self : ExpressionReader) (annotated : Bool) (t : Found) :
    Option (Parameter × Cursor) := do
  let f : Follow := if annotated then .inside else .more
  let primary := primaryWithin fuel fuel self
  let withHint (c : Cursor) : Option Cursor :=
    if annotated then
      match c.sign? f.admits ":" with
      | some c => do typeHint self true fuel f (← c.next operand)
      | none => some c
    else some c
  let withDefault (c : Cursor) : Option Cursor :=
    match c.sign? f.admits "=" with
    | some c => (self.at f c).map Prod.snd
    | none => some c
  if t.sign = "/" then some (.unnamed, t.after)
  else if t.sign = "*" then
    match t.after.next f.admits with
    | some ⟨.word _, _, _, _⟩ =>
      let (_, c) ← starredPrimary primary f t.after
      some (.unnamed, ← withHint c)
    | _ => some (.unnamed, t.after)
  else if t.sign = "**" then
    let (_, c) ← starredPrimary primary f t.after
    some (.unnamed, ← withHint c)
  else if t.sign = "(" then
    let ((form, _), c) ← primary f t
    match form with
    | .target (.tuple _) => some (.unnamed, ← withDefault c)
    | _ => none
  else
    match t.lexeme with
    | .word w => some (.named w, ← withDefault (← withHint t.after))
    | _ => none

def lambdaParameters (fuel : Nat) (self : ExpressionReader) (c : Cursor) : Option Cursor := do
  let t ← c.next {}
  if t.sign = ":" then some t.after
  else (elementsUntil fuel (parameter fuel self false) ":" t).map Prod.snd

def simpleExpression (fuel : Nat) (self : ExpressionReader) (f : Follow) (t : Found) :
    Option (Form × Cursor) :=
  if t.word = "not" then (self.at f t.after).map fun (_, c) => (.other, c)
  else if t.word = "lambda" then do
    let (_, c) ← self.at f (← lambdaParameters fuel self t.after)
    some (.other, c)
  else do
    let (form, c) ← comparison fuel self f t
    match form with
    | .target (.name _) =>
      match c.sign? f.admits ":=" with
      | some c => (self.at f c).map fun (_, c) => (.other, c)
      | none => some (form, c)
    | _ => some (form, c)

def expressionWith (fuel : Nat) (self : ExpressionReader) : ExpressionReader := fun f t => do
  let (form, c) ← simpleExpression fuel self f t
  repeatStep (fun _ c =>
    match c.next f.admits with
    | some ⟨.word w, _, _, after⟩ =>
      if w = "and" || w = "or" || w = "as" then
        (self.at f after).map fun (_, c) => some (.other, c)
      else if w = "if" && !f.noIf then do
        let (_, c) ← self.at .more after
        let (_, c) ← self.at f (← c.word? {} "else")
        some (some (.other, c))
      else some none
    | _ => some none)
    fuel form c

/-- Reads an expression whose parts are nested at most `fuel` levels deep. -/
def expression : (fuel : Nat) → ExpressionReader
  | 0 => fun _ _ => none
  | fuel + 1 => expressionWith fuel (expression fuel)

end ImportAtlas.Python
