/-!
The syntax tree of a Python text, reduced to what its symbol tables depend on. Comments are part of
the tree wherever a list of statements, parameters, import names or targets can hold one.
-/

set_option autoImplicit false

namespace ImportAtlas.Python

/-- A piece of a dotted name as it is spelled: identifiers, dots, and whatever stands between them
(white space, line continuations, comments). -/
inductive NamePart
  | word (text : String)
  | dot
  | gap (text : String)
  deriving DecidableEq, Repr

def NamePart.text : NamePart → String
  | .word s => s
  | .dot => "."
  | .gap s => s

def NamePart.isGap : NamePart → Bool
  | .gap _ => true
  | _ => false

/-- A dotted name, possibly relative, with its layout. -/
abbrev SpelledName := List NamePart

def SpelledName.text (n : SpelledName) : String :=
  String.join (n.map NamePart.text)

def SpelledName.path (n : SpelledName) : String :=
  SpelledName.text (n.filter fun p => !p.isGap)

inductive ImportItem
  | name (path : SpelledName)
  | aliased (path : SpelledName) (localName : String)
  | comment (text : String)
  deriving Repr

/-- What an assignment can assign to. `bare` is a list of targets without brackets; a single target
in parentheses is a `tuple` of one. -/
inductive Target
  | name (text : String)
  | attribute (object : String) (name : String)
  | subscript
  | starred (target : Target)
  | bare (items : List Target)
  | tuple (items : List Target)
  | list (items : List Target)
  | comment (text : String)

/-- One entry of a parameter list. A parameter with an annotation or a default is still `named`;
starred parameters, separators and bracketed parameters are `unnamed`. -/
inductive Parameter
  | named (text : String)
  | unnamed
  | comment (text : String)
  deriving Repr

/-- A decorator: the comments between the sign and the expression, and the expression's source
text. -/
structure Decorator where
  comments : List String
  expression : String
  deriving Repr

mutual
/-- A statement. `text` is an expression statement whose first expression is one string literal;
`assign` lists the targets of a chain of assignments from left to right; `compound` is a statement
of the families if, try, with, for and while with all its clauses; `cases` is a match statement;
`plain` is any other statement. -/
inductive Statement
  | comment (text : String)
  | text (literal : String)
  | assign (targets : List Target)
  | importNames (items : List ImportItem)
  | importFrom (source : SpelledName) (items : List ImportItem)
  | importAll (source : SpelledName)
  | compound (clauses : List Clause)
  | cases (clauses : List Clause)
  | classDef (decorators : List Decorator) (name : String) (body : List Statement)
  | functionDef (decorators : List Decorator) (name : String) (parameters : List Parameter)
      (body : List Statement)
  | plain

inductive Clause
  | mk (keyword : String) (body : List Statement)
end

def Clause.body : Clause → List Statement
  | .mk _ body => body

end ImportAtlas.Python
