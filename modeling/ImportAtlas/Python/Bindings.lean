import ImportAtlas.Python.Tree
import ImportAtlas.Text.Blank

/-!
What statements bind: the names an assignment target holds, the attributes a method sets on its
receiver, and the documentation at the start of a block.
-/

set_option autoImplicit false

namespace ImportAtlas.Python

def literalLetters : List Char := ['r', 'R', 'u', 'U', 'b', 'B', 'f', 'F']

def literalMarks : List String := ["\x22\x22\x22", "'''", "\x22", "'"]

/-- What stands between the delimiters of a string literal, without white space at its ends. -/
def literalText (literal : String) : String :=
  let body := literal.toList.dropWhile literalLetters.contains
  let inner := literalMarks.findSome? fun mark =>
    Text.stripStart mark.toList body >>= Text.stripEnd mark.toList
  String.ofList (Text.trimChars (inner.getD body))

/-- The documentation of a block: its first statement, when that is a string with text in it. -/
def documentation : List Statement → Option String
  | .comment _ :: rest => documentation rest
  | .text literal :: _ =>
    let text := literalText literal
    if text = "" then none else some text
  | _ => none

mutual
/-- The names a target binds, however they are bracketed or starred. -/
def Target.names : Target → List String
  | .name text => [text]
  | .starred target => names target
  | .bare items => namesAll items
  | .tuple items => namesAll items
  | .list items => namesAll items
  | .attribute _ _ => []
  | .subscript => []
  | .comment _ => []

def Target.namesAll : List Target → List String
  | [] => []
  | target :: rest => names target ++ namesAll rest
end

def Target.attributeOf (receiver : String) : Target → Option String
  | .attribute object field => if object = receiver then some field else none
  | _ => none

/-- The attributes of `receiver` that an assignment to a target sets: the target itself, or the
items of a list of targets without brackets or in parentheses. -/
def Target.attributesOf (receiver : String) : Target → List String
  | .bare items => items.filterMap (attributeOf receiver)
  | .tuple items => items.filterMap (attributeOf receiver)
  | target => (attributeOf receiver target).toList

mutual
/-- The attributes of `receiver` that a statement sets, without those set in definitions inside
it. -/
def receiverAttributes (receiver : String) : Statement → List String
  | .assign targets => targets.flatMap (Target.attributesOf receiver)
  | .compound clauses => clauseAttributes receiver clauses
  | .cases clauses => clauseAttributes receiver clauses
  | _ => []

def blockAttributes (receiver : String) : List Statement → List String
  | [] => []
  | statement :: rest => receiverAttributes receiver statement ++ blockAttributes receiver rest

def clauseAttributes (receiver : String) : List Clause → List String
  | [] => []
  | .mk _ body :: rest => blockAttributes receiver body ++ clauseAttributes receiver rest
end

/-- The first parameter, when it is an ordinary one. -/
def receiverOf : List Parameter → Option String
  | .named text :: _ => some text
  | _ => none

def isStatic (decorators : List Decorator) : Bool :=
  decorators.any fun d => d.comments.isEmpty && d.expression == "staticmethod"

end ImportAtlas.Python
