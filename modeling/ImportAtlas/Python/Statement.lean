import ImportAtlas.Python.CasePattern

/-!
Statements and blocks, and the reading of a whole text.
-/

set_option autoImplicit false

namespace ImportAtlas.Python

open Literal (repeatStep)

def gapBetween (a b : Cursor) : SpelledName :=
  let gap := a.textTo b
  if gap = "" then [] else [.gap gap]

def spelledName (fuel : Nat) (a : Admits) (first : String) (c : Cursor) :
    Option (SpelledName × Cursor) := do
  let (parts, c) ← repeatStep (fun (parts : List SpelledName) c =>
    match c.next a with
    | some t =>
      if t.sign = "." then
        match t.after.next {} with
        | some ⟨.word w, _, start, after⟩ =>
          let more := gapBetween c t.start ++ [.dot] ++ gapBetween t.after start ++ [.word w]
          some (some (more :: parts, after))
        | _ => none
      else some none
    | none => some none) fuel [[.word first]] c
  some (parts.reverse.flatten, c)

def importItem (fuel : Nat) (a : Admits) (t : Found) : Option (ImportItem × Cursor) :=
  match t.lexeme with
  | .word w => do
    let (name, c) ← spelledName fuel a w t.after
    match c.word? a "as" with
    | some c => c.name?.map fun (localName, c) => (.aliased name localName, c)
    | none => some (.name name, c)
  | _ => none

def importItems (fuel : Nat) (a : Admits) (t : Found) : Option (List ImportItem × Cursor) := do
  let (first, c) ← importItem fuel a t
  let start := t.comments.map ImportItem.comment ++ [first]
  let ((items, _), c) ← repeatStep (fun (items, ended) c =>
    if ended then some none
    else match c.sign? a "," with
      | none => some none
      | some c =>
        match c.next a with
        | some t =>
          match t.lexeme with
          | .word _ => do
            let (item, c) ← importItem fuel a t
            some (some ((items ++ t.comments.map ImportItem.comment ++ [item], false), c))
          | _ => some (some ((items, true), c))
        | none => none) fuel (start, false) c
  some (items, c)

/-- Reads the dots of a relative name, with the identifiers behind them, through the word
`import`. -/
def relativeName (fuel : Nat) (c : Cursor) : Option (SpelledName × Cursor) := do
  let ((name, _), c) ← repeatStep (fun ((name : SpelledName), ended) c =>
    if ended then some none
    else do
      let t ← c.next {}
      let gap := if name.isEmpty then [] else gapBetween c t.start
      if t.sign = "." then some (some ((name ++ gap ++ [.dot], false), t.after))
      else if t.sign = "..." then
        some (some ((name ++ gap ++ [.dot, .dot, .dot], false), t.after))
      else if t.word = "import" then some (some ((name, true), t.after))
      else match t.lexeme with
        | .word w => do
          let (rest, c) ← spelledName fuel {} w t.after
          some (some ((name ++ gap ++ rest, true), ← c.word? {} "import"))
        | _ => none) fuel ([], false) c
  some (name, c)

def fromImport (fuel : Nat) (c : Cursor) : Option (Statement × Cursor) := do
  let t ← c.next {}
  let names (c : Cursor) (wrap : List ImportItem → Statement) : Option (Statement × Cursor) := do
    let t ← c.next {}
    if t.sign = "(" then
      let inside : Admits := { closer := true }
      let (items, c) ← importItems fuel inside (← t.after.next {})
      some (wrap items, ← c.sign? inside ")")
    else
      let (items, c) ← importItems fuel { lineEnd := true } t
      some (wrap items, c)
  if t.word = "__future__" then names (← t.after.word? {} "import") fun _ => .plain
  else
    let (source, c) ←
      match t.lexeme with
      | .word w => do
        let (source, c) ← spelledName fuel {} w t.after
        some (source, ← c.word? {} "import")
      | _ => relativeName fuel t.start
    match c.sign? {} "*" with
    | some c => some (.importAll source, c)
    | none => names c (.importFrom source)

def targetOf : List (Option Form) → Option Target
  | [some (.target t)] => some t
  | forms =>
    let targets := forms.filterMap fun
      | some (.target t) => some t
      | _ => none
    let others := forms.filter fun
      | some (.target _) => false
      | some _ => true
      | none => false
    if others.isEmpty then some (.bare targets) else none

def augmentedSigns : List String :=
  ["+=", "-=", "*=", "/=", "@=", "//=", "%=", "**=", ">>=", "<<=", "&=", "^=", "|="]

def expressionStatement (fuel : Nat) (self : ExpressionReader) (t : Found) :
    Option (Statement × Cursor) :=
  let line : Admits := { lineEnd := true }
  if t.word = "yield" then (yieldRest fuel self .line t.after).map fun c => (.plain, c)
  else do
    let (forms, c) ← expressionList fuel self .line t
    let value (c : Cursor) : Option (Option Target × Cursor) := do
      let t ← c.next operand
      if t.word = "yield" then (yieldRest fuel self .line t.after).map fun c => (none, c)
      else
        let (forms, c) ← expressionList fuel self .line t
        some (targetOf forms, c)
    let ((targets, _), c) ← repeatStep (fun ((targets : List Target), last) c =>
      match last, c.next line with
      | some target, some ⟨.sign s, _, _, after⟩ =>
        if s = "=" || augmentedSigns.contains s then do
          let (next, c) ← value after
          some (some ((target :: targets, next), c))
        else if s = ":" then do
          let c ← typeHint self true fuel .line (← after.next operand)
          match c.sign? line "=" with
          | some c => do
            let (next, c) ← value c
            some (some ((target :: targets, next), c))
          | none => some (some ((target :: targets, none), c))
        else some none
      | _, _ => some none) fuel ([], targetOf forms) c
    match targets, forms with
    | [], some (.text literal) :: _ => some (.text literal, c)
    | [], _ => some (.plain, c)
    | _, _ => some (.assign targets.reverse, c)

def operands (fuel : Nat) (self : ExpressionReader) (c : Cursor) : Option Cursor := do
  let (_, c) ← self.at .line c
  let (_, c) ← repeatStep (fun _ c =>
    match c.sign? { lineEnd := true } "," with
    | some c => (self.at .line c).map fun (_, c) => some ((), c)
    | none => some none) fuel () c
  some c

def names (fuel : Nat) (c : Cursor) : Option Cursor := do
  let (_, c) ← c.name?
  let (_, c) ← repeatStep (fun _ c =>
    match c.sign? { lineEnd := true } "," with
    | some c => c.name?.map fun (_, c) => some ((), c)
    | none => some none) fuel () c
  some c

def endsStatement (c : Cursor) : Bool :=
  match c.next { lineEnd := true } with
  | some ⟨.lineEnd, _, _, _⟩ => true
  | some t => t.sign = ";"
  | none => false

def optionalExpressions (fuel : Nat) (self : ExpressionReader) (c : Cursor) : Option Cursor :=
  if endsStatement c then some c
  else do
    let (_, c) ← expressionList fuel self .line (← c.next operand)
    some c

def raised (fuel : Nat) (self : ExpressionReader) (c : Cursor) : Option Cursor := do
  let line : Admits := { lineEnd := true }
  let c ← if (c.word? line "from").isSome then some c else optionalExpressions fuel self c
  match c.word? line "from" with
  | some c => (self.at .line c).map Prod.snd
  | none => some c

/-- Reads the statement of the given old or new keyword, which may also be an ordinary name. -/
def softStatement (fuel : Nat) (self : ExpressionReader) (t : Found) :
    Option (Statement × Cursor) :=
  let finished (r : Option (Statement × Cursor)) : Option (Statement × Cursor) :=
    r.filter fun (_, c) => endsStatement c
  let ordinary := finished (expressionStatement fuel self t)
  let c := t.after
  if t.word = "print" then
    ordinary.orElse fun _ => do
      let (_, c) ← expressionList fuel self .line (← c.next operand)
      some (.plain, c)
  else if t.word = "exec" then
    ordinary.orElse fun _ => do
      let c ← match (← c.next operand) with
        | ⟨.quote q, _, _, after⟩ => Literal.read (shownExpressions fuel self) fuel q after
        | ⟨.word _, _, _, after⟩ => some after
        | _ => none
      match c.word? { lineEnd := true } "in" with
      | some c => (operands fuel self c).map fun c => (.plain, c)
      | none => some (.plain, c)
  else
    let aliased : Option (Statement × Cursor) := do
      let c ← typeHint self true fuel .more (← c.next operand)
      let c ← c.sign? {} "="
      let c ← typeHint self true fuel .line (← c.next operand)
      some (.plain, c)
    (finished aliased).orElse fun _ => ordinary

def simpleStatement (fuel : Nat) (self : ExpressionReader) (t : Found) :
    Option (Statement × Cursor) :=
  let plain (r : Option Cursor) : Option (Statement × Cursor) := r.map fun c => (.plain, c)
  match t.lexeme with
  | .word "import" => do
    let (items, c) ← importItems fuel { lineEnd := true } (← t.after.next {})
    some (.importNames items, c)
  | .word "from" => fromImport fuel t.after
  | .word "assert" => plain (operands fuel self t.after)
  | .word "return" => plain (optionalExpressions fuel self t.after)
  | .word "del" => plain do
    let (_, c) ← expressionList fuel self .line (← t.after.next operand)
    some c
  | .word "raise" => plain (raised fuel self t.after)
  | .word "pass" => some (.plain, t.after)
  | .word "break" => some (.plain, t.after)
  | .word "continue" => some (.plain, t.after)
  | .word "global" => plain (names fuel t.after)
  | .word "nonlocal" => plain (names fuel t.after)
  | .word "print" => softStatement fuel self t
  | .word "exec" => softStatement fuel self t
  | .word "type" => softStatement fuel self t
  | _ => expressionStatement fuel self t

def simpleLine (fuel : Nat) (self : ExpressionReader) (t : Found) :
    Option (List Statement × Cursor) := do
  let (first, c) ← simpleStatement fuel self t
  let ((statements, _), c) ← repeatStep (fun ((statements : List Statement), ended) c =>
    if ended then some none
    else do
      let t ← c.next { lineEnd := true }
      match t.lexeme with
      | .lineEnd => some (some ((statements, true), t.after))
      | .sign ";" =>
        let t ← t.after.next { lineEnd := true, quote := true }
        match t.lexeme with
        | .lineEnd => some (some ((statements, true), t.after))
        | _ => do
          let (next, c) ← simpleStatement fuel self t
          some (some ((next :: statements, false), c))
      | _ => none) fuel ([first], false) c
  some (statements.reverse, c)

abbrev BlockReader := Cursor → Option (List Statement × Cursor)

/-- Reads a colon and the statements it introduces: a deeper block, or the rest of the line, or
nothing. -/
def suite (fuel : Nat) (self : ExpressionReader) (block : BlockReader) (c : Cursor) :
    Option (List Statement × Cursor) := do
  let c ← c.sign? {} ":"
  let t ← c.next { lineEnd := true, deeper := true, quote := true }
  match t.lexeme with
  | .deeper => block t.after
  | .lineEnd => some ([], t.after)
  | _ => simpleLine fuel self t

def behindBlock (inBlock : Bool) : Admits :=
  { shallower := inBlock, quote := true }

def optionalClause (fuel : Nat) (self : ExpressionReader) (block : BlockReader) (inBlock : Bool)
    (word : String) (clauses : List Clause) (c : Cursor) : Option (List Clause × Cursor) :=
  match c.word? (behindBlock inBlock) word with
  | some c => do
    let (body, c) ← suite fuel self block c
    some (clauses ++ [.mk word body], c)
  | none => some (clauses, c)

def conditional (fuel : Nat) (self : ExpressionReader) (block : BlockReader) (word : String)
    (c : Cursor) : Option (Clause × Cursor) := do
  let (_, c) ← self.at .more c
  let (body, c) ← suite fuel self block c
  some (.mk word body, c)

def ifStatement (fuel : Nat) (self : ExpressionReader) (block : BlockReader) (inBlock : Bool)
    (c : Cursor) : Option (Statement × Cursor) := do
  let (first, c) ← conditional fuel self block "if" c
  let (clauses, c) ← repeatStep (fun (clauses : List Clause) c =>
    match c.word? (behindBlock inBlock) "elif" with
    | some c => do
      let (clause, c) ← conditional fuel self block "elif" c
      some (some (clauses ++ [clause], c))
    | none => some none) fuel [first] c
  let (clauses, c) ← optionalClause fuel self block inBlock "else" clauses c
  some (.compound clauses, c)

def whileStatement (fuel : Nat) (self : ExpressionReader) (block : BlockReader) (inBlock : Bool)
    (c : Cursor) : Option (Statement × Cursor) := do
  let (first, c) ← conditional fuel self block "while" c
  let (clauses, c) ← optionalClause fuel self block inBlock "else" [first] c
  some (.compound clauses, c)

def forStatement (fuel : Nat) (self : ExpressionReader) (block : BlockReader) (inBlock : Bool)
    (c : Cursor) : Option (Statement × Cursor) := do
  let (_, c) ← loopTargets fuel (primaryWithin fuel fuel self) c
  let (_, c) ← expressionList fuel self .more (← c.next operand)
  let (body, c) ← suite fuel self block c
  let (clauses, c) ← optionalClause fuel self block inBlock "else" [.mk "for" body] c
  some (.compound clauses, c)

def withStatement (fuel : Nat) (self : ExpressionReader) (block : BlockReader) (c : Cursor) :
    Option (Statement × Cursor) := do
  let (_, c) ← expressionList fuel self .more (← c.next operand)
  let (body, c) ← suite fuel self block c
  some (.compound [.mk "with" body], c)

def handler (fuel : Nat) (self : ExpressionReader) (block : BlockReader) (grouped : Bool)
    (c : Cursor) : Option (Clause × Cursor) := do
  let word := if grouped then "except*" else "except"
  let t ← c.next operand
  let c ←
    if t.sign = ":" && !grouped then some c
    else do
      let (_, c) ← self .more t
      match c.sign? {} "," with
      | some c => if grouped then none else (self.at .more c).map Prod.snd
      | none => some c
  let (body, c) ← suite fuel self block c
  some (.mk word body, c)

/-- The place behind the keyword of a handler; that of a handler of groups includes the star that
directly follows the word. -/
def handlerWord? (a : Admits) (grouped : Bool) (c : Cursor) : Option Cursor :=
  match c.word? a "except" with
  | none => none
  | some c =>
    if grouped then
      match c.rest with
      | '*' :: r => some (c.moveTo r)
      | _ => none
    else some c

def tryStatement (fuel : Nat) (self : ExpressionReader) (block : BlockReader) (inBlock : Bool)
    (c : Cursor) : Option (Statement × Cursor) := do
  let (body, c) ← suite fuel self block c
  let first : Admits := { handler := true }
  let grouped := (handlerWord? first true c).isSome
  let (handlers, c) ← repeatStep (fun (handlers : List Clause) c =>
    let a := if handlers.isEmpty then first else { behindBlock inBlock with handler := true }
    match handlerWord? a grouped c with
    | some c => do
      let (clause, c) ← handler fuel self block grouped c
      some (some (handlers ++ [clause], c))
    | none => some none) fuel [] c
  let start := .mk "try" body :: handlers
  if handlers.isEmpty then do
    let (body, c) ← suite fuel self block (← c.word? first "finally")
    some (.compound (start ++ [.mk "finally" body]), c)
  else do
    let (clauses, c) ← optionalClause fuel self block inBlock "else" start c
    let (clauses, c) ← optionalClause fuel self block inBlock "finally" clauses c
    some (.compound clauses, c)

def matchStatement (fuel : Nat) (self : ExpressionReader) (block : BlockReader) (c : Cursor) :
    Option (Statement × Cursor) := do
  let (_, c) ← expressionList fuel self .more (← c.next operand)
  let c ← c.sign? {} ":"
  let t ← c.next { lineEnd := true, deeper := true }
  match t.lexeme with
  | .lineEnd => some (.cases [], t.after)
  | .deeper =>
    let ((clauses, _), c) ← repeatStep (fun ((clauses : List Clause), ended) c =>
      if ended then some none
      else do
        let t ← c.next { shallower := true }
        match t.lexeme with
        | .shallower => some (some ((clauses, true), t.after))
        | .word "case" =>
          let (body, c) ← suite fuel self block (← caseHead fuel self t.after)
          some (some ((clauses ++ [.mk "case" body], false), c))
        | _ => none) fuel ([], false) t.after
    some (.cases clauses, c)
  | _ => none

def typeParameters (fuel : Nat) (self : ExpressionReader) (c : Cursor) : Option Cursor :=
  match c.sign? {} "[" with
  | some c => do
    let read (t : Found) := (typeHint self true fuel .inside t).map fun c => ((), c)
    (elementsUntil fuel read "]" (← c.next operand)).map Prod.snd
  | none => some c

def classDefinition (fuel : Nat) (self : ExpressionReader) (block : BlockReader)
    (decorators : List Decorator) (c : Cursor) : Option (Statement × Cursor) := do
  let (name, c) ← c.name?
  let c ← typeParameters fuel self c
  let c ← match c.sign? {} "(" with
    | some c => arguments fuel self (primaryWithin fuel fuel self) c
    | none => some c
  let (body, c) ← suite fuel self block c
  some (.classDef decorators name body, c)

def functionDefinition (fuel : Nat) (self : ExpressionReader) (block : BlockReader)
    (decorators : List Decorator) (c : Cursor) : Option (Statement × Cursor) := do
  let (name, c) ← c.name?
  let c ← typeParameters fuel self c
  let t ← (← c.sign? {} "(").next element
  let (parameters, c) ←
    if t.sign = ")" then some (t.comments.map Parameter.comment, t.after)
    else do
      let (items, c) ← elementsUntil fuel (parameter fuel self true) ")" t
      some (items.flatMap fun (comments, p) => comments.map Parameter.comment ++ [p], c)
  let c ← match c.sign? {} "->" with
    | some c => do typeHint self false fuel .more (← c.next operand)
    | none => some c
  let (body, c) ← suite fuel self block c
  some (.functionDef decorators name parameters body, c)

def definition? (fuel : Nat) (self : ExpressionReader) (block : BlockReader)
    (decorators : List Decorator) (t : Found) : Option (Statement × Cursor) :=
  if t.word = "class" then classDefinition fuel self block decorators t.after
  else if t.word = "def" then functionDefinition fuel self block decorators t.after
  else if t.word = "async" then do
    functionDefinition fuel self block decorators (← t.after.word? {} "def")
  else none

def decorated (fuel : Nat) (self : ExpressionReader) (block : BlockReader) (t : Found) :
    Option (Statement × Cursor) := do
  let (decorators, c) ← repeatStep (fun (decorators : List Decorator) c =>
    match c.sign? {} "@" with
    | none => some none
    | some c => do
      let first ← c.next operand
      let (_, c) ← self .line first
      match (← c.next { lineEnd := true }).lexeme with
      | .lineEnd => some (some (⟨first.comments, first.start.textTo c⟩ :: decorators, c))
      | _ => none) fuel [] t.start
  definition? fuel self block decorators.reverse (← c.next {})

/-- Reads a compound statement, or none if the first lexeme begins none. -/
def compoundStatement (fuel : Nat) (self : ExpressionReader) (block : BlockReader) (inBlock : Bool)
    (t : Found) : Option (Option (Statement × Cursor)) :=
  match t.lexeme with
  | .sign "@" => (decorated fuel self block t).map some
  | .word "if" => (ifStatement fuel self block inBlock t.after).map some
  | .word "for" => (forStatement fuel self block inBlock t.after).map some
  | .word "while" => (whileStatement fuel self block inBlock t.after).map some
  | .word "try" => (tryStatement fuel self block inBlock t.after).map some
  | .word "with" => (withStatement fuel self block t.after).map some
  | .word "class" => (definition? fuel self block [] t).map some
  | .word "def" => (definition? fuel self block [] t).map some
  | .word "async" =>
    match t.after.next { lineEnd := true } with
    | some ⟨.word "def", _, _, _⟩ => (definition? fuel self block [] t).map some
    | some ⟨.word "for", _, _, after⟩ => (forStatement fuel self block inBlock after).map some
    | some ⟨.word "with", _, _, after⟩ => (withStatement fuel self block after).map some
    | _ => some none
  | .word "match" => some (matchStatement fuel self block t.after)
  | _ => some none

/-- Reads the statements of one level of indentation: of a block through its end, or of the whole
text. Blocks are nested at most `fuel` levels deep. -/
def level : (fuel : Nat) → (inBlock : Bool) → BlockReader
  | 0, _, _ => none
  | fuel + 1, inBlock, c => do
    let self := expression (fuel + 1)
    let block : BlockReader := level fuel true
    let ((statements, _), c) ← repeatStep (fun ((statements : List (List Statement)), ended) c =>
      if ended then some none
      else do
        let t ← c.next (behindBlock inBlock)
        let comments := t.comments.map Statement.comment
        match t.lexeme with
        | .shallower => some (some ((comments :: statements, true), t.after))
        | .finish => if inBlock then none else some (some ((comments :: statements, true), t.after))
        | _ =>
          match (← compoundStatement (fuel + 1) self block inBlock t) with
          | some (statement, c) =>
            some (some (([statement] :: comments :: statements, false), c))
          | none => do
            let (line, c) ← simpleLine (fuel + 1) self t
            some (some ((line :: comments :: statements, false), c)))
      (fuel + 1) ([], false) c
    some (statements.reverse.flatten, c)

/-- The syntax tree of a text, or none if the text is no well-formed program. -/
def parse (text : String) : Option (List Statement) :=
  let start := Cursor.start text
  if start.rest.contains '\x00' then none
  else (level (start.rest.length + 2) false start).map Prod.fst

end ImportAtlas.Python
