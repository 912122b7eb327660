import ImportAtlas.Text.NameChar
import ImportAtlas.Python.Number

/-!
Reading lexemes off a Python text. Line ends and changes of indentation are lexemes only where the
grammar admits one, so each read says what is admitted at that place; everywhere else a line end is
white space.
-/

set_option autoImplicit false

namespace ImportAtlas.Python

/-- A place in a text: the characters still to read, and the indentation of the open blocks,
innermost first. -/
structure Cursor where
  rest : List Char
  levels : List Nat

def Cursor.start (text : String) : Cursor :=
  ⟨text.toList, []⟩

def Cursor.level (c : Cursor) : Nat :=
  c.levels.headD 0

def Cursor.moveTo (c : Cursor) (rest : List Char) : Cursor :=
  { c with rest }

def Cursor.textTo (a b : Cursor) : String :=
  String.ofList (a.rest.take (a.rest.length - b.rest.length))

/-- What may come next: the end of a line, the first line of a deeper block, the end of the current
block, a closing bracket, a string literal, an exception handler. -/
structure Admits where
  lineEnd : Bool := false
  deeper : Bool := false
  shallower : Bool := false
  closer : Bool := false
  quote : Bool := false
  handler : Bool := false

/-- Whether comment lines are passed over to find the indentation of the next line of code. -/
def Admits.looksPastComments (a : Admits) : Bool :=
  a.lineEnd || a.deeper || a.shallower || a.handler

/-- The delimiter of a string literal and what its letters mark it as. -/
structure Quote where
  mark : Char
  triple : Bool
  format : Bool
  raw : Bool
  bytes : Bool

inductive Lexeme
  | lineEnd
  | deeper
  | shallower
  | finish
  | word (text : String)
  | number
  | quote (q : Quote)
  | sign (text : String)

structure Found where
  lexeme : Lexeme
  comments : List String
  start : Cursor
  after : Cursor

/-- The blanks before a lexeme: whether they hold a line end, the indentation of the last line, and
the indentation of the first comment line. `blocked` means that the blanks end at a comment behind
code or at a stray backslash. -/
structure Blanks where
  lineEnd : Bool
  indent : Nat
  firstComment : Option Nat
  blocked : Bool
  rest : List Char

def dropLine : List Char → List Char
  | [] => []
  | '\n' :: r => r
  | _ :: r => dropLine r

theorem dropLine_length_le (cs : List Char) : (dropLine cs).length ≤ cs.length := by
  fun_induction dropLine cs with
  | case1 => exact Nat.le_refl _
  | case2 r => exact Nat.le_succ _
  | case3 c r _ ih => exact Nat.le_succ_of_le ih

/-- Measures the blanks at the start of a text. A tab counts eight columns, and a carriage return or
form feed starts the count again. A backslash before a line end joins two lines. -/
def blanks (pastComments : Bool) (lineEnd : Bool) (indent : Nat) (firstComment : Option Nat) :
    List Char → Blanks
  | [] => ⟨true, 0, firstComment, false, []⟩
  | '\n' :: r => blanks pastComments true 0 firstComment r
  | ' ' :: r => blanks pastComments lineEnd (indent + 1) firstComment r
  | '\t' :: r => blanks pastComments lineEnd (indent + 8) firstComment r
  | '\r' :: r => blanks pastComments lineEnd 0 firstComment r
  | '\x0c' :: r => blanks pastComments lineEnd 0 firstComment r
  | '\\' :: '\r' :: '\n' :: r => blanks pastComments lineEnd indent firstComment r
  | '\\' :: '\n' :: r => blanks pastComments lineEnd indent firstComment r
  | ['\\', '\r'] => ⟨true, 0, firstComment, false, []⟩
  | ['\\'] => ⟨true, 0, firstComment, false, []⟩
  | '\\' :: r => ⟨lineEnd, indent, firstComment, true, '\\' :: r⟩
  | '#' :: r =>
    if !pastComments then ⟨lineEnd, indent, firstComment, false, '#' :: r⟩
    else if !lineEnd then ⟨lineEnd, indent, firstComment, true, '#' :: r⟩
    else blanks pastComments lineEnd 0 (firstComment.orElse fun _ => some indent) (dropLine r)
  | c :: r => ⟨lineEnd, indent, firstComment, false, c :: r⟩
termination_by cs => cs.length
decreasing_by all_goals simp_all <;> have := dropLine_length_le r <;> omega

def quoteMarks : List Char := ['\'', '"', '\x60']

def quoteLetters : List Char := ['f', 'F', 'r', 'R', 'b', 'B', 'u', 'U']

def openQuote? (cs : List Char) : Option (Quote × List Char) :=
  let letters := cs.takeWhile quoteLetters.contains
  let has (a b : Char) := letters.contains a || letters.contains b
  let opened (mark : Char) (triple : Bool) : Quote :=
    ⟨mark, triple, has 'f' 'F', has 'r' 'R', has 'b' 'B'⟩
  match cs.dropWhile quoteLetters.contains with
  | '\'' :: '\'' :: '\'' :: r => some (opened '\'' true, r)
  | '"' :: '"' :: '"' :: r => some (opened '"' true, r)
  | q :: r => if quoteMarks.contains q then some (opened q false, r) else none
  | [] => none

def shortSigns : List Char :=
  ['(', ')', '[', ']', '{', '}', ',', ':', '.', ';', '@', '=', '+', '-', '*', '/', '%', '&', '|',
    '^', '~', '<', '>']

/-- Signs of two and three characters, longer ones first. -/
def longSigns : List String :=
  ["**=", "//=", ">>=", "<<=", "...", "**", "//", ">>", "<<", "<=", ">=", "==", "!=", "<>", "->",
    ":=", "+=", "-=", "*=", "/=", "%=", "@=", "&=", "|=", "^="]

def startsWith : (sign cs : List Char) → Bool
  | [], _ => true
  | _ :: _, [] => false
  | a :: sign, c :: cs => a == c && startsWith sign cs

/-- The longest sign at the start of the text; an exclamation mark takes one letter with it. -/
def sign? (cs : List Char) : Option (String × List Char) :=
  match longSigns.find? fun s => startsWith s.toList cs with
  | some s => some (s, cs.drop s.length)
  | none =>
    match cs with
    | '!' :: c :: r => if 'a' ≤ c && c ≤ 'z' then some ("!", r) else none
    | c :: r => if shortSigns.contains c then some (String.singleton c, r) else none
    | [] => none

def plainLexeme? (cs : List Char) : Option (Lexeme × List Char) :=
  match cs with
  | [] => some (.finish, [])
  | c :: r =>
    if isNameStart c then
      some (.word (String.ofList (c :: r.takeWhile Text.isNameChar)), r.dropWhile Text.isNameChar)
    else
      match Number.read cs with
      | some after => some (.number, after)
      | none => (sign? cs).map fun (s, after) => (.sign s, after)
where
  isNameStart := Text.isNameStart

/-- White space between lexemes, apart from line continuations and comments. -/
def isFiller (c : Char) : Bool :=
  c == ' ' || (9 ≤ c.toNat && c.toNat ≤ 13) || c.toNat == 0xfeff || c.toNat == 0x2060 ||
    c.toNat == 0x200b

/-- The lexeme that the layout alone decides, given the blanks before the next code: a deeper block
opens only where one is admitted; a line left of the current block closes it, and where neither
the block nor the line can end, no bracket is open and no string comes next, nothing is read. -/
inductive LayoutStep
  | found (lexeme : Lexeme) (after : Cursor)
  | refused
  | none

def layoutStep (a : Admits) (c : Cursor) (b : Blanks) : LayoutStep :=
  if b.blocked || !b.lineEnd then .none
  else
    let quoteNext := match b.rest with
      | q :: _ => quoteMarks.contains q
      | [] => false
    let closes := b.indent < c.level && (match b.firstComment with
      | some n => n < c.level
      | none => true)
    if a.deeper && c.level < b.indent then
      .found .deeper { c with levels := b.indent :: c.levels }
    else if closes && a.shallower then .found .shallower { c with levels := c.levels.tail }
    else if closes && !a.lineEnd && !(a.quote && quoteNext) && !a.closer then .refused
    else if a.lineEnd then .found .lineEnd c
    else .none

def Cursor.nextBehind (a : Admits) (comments : List String) (c : Cursor) : Option Found :=
  let b := blanks a.looksPastComments false 0 none c.rest
  match layoutStep a c b with
  | .found lexeme after => some ⟨lexeme, comments.reverse, c, after⟩
  | .refused => none
  | .none =>
    let quote :=
      if a.quote && !b.blocked && b.firstComment.isNone then openQuote? b.rest else none
    match quote with
    | some (q, rest) =>
      some ⟨.quote q, comments.reverse, c.moveTo b.rest, c.moveTo rest⟩
    | none =>
      match _h : c.rest.dropWhile isFiller with
      | '#' :: r =>
        let text := String.ofList ('#' :: r.takeWhile (· != '\n'))
        Cursor.nextBehind a (text :: comments) (c.moveTo (r.dropWhile (· != '\n')))
      | '\\' :: '\n' :: after => Cursor.nextBehind a comments (c.moveTo after)
      | '\\' :: '\r' :: '\n' :: after => Cursor.nextBehind a comments (c.moveTo after)
      | code =>
        (plainLexeme? code).map fun (lexeme, after) =>
          ⟨lexeme, comments.reverse, c.moveTo code, c.moveTo after⟩
termination_by c.rest.length
decreasing_by
  all_goals
    have := (List.dropWhile_sublist (l := c.rest) isFiller).length_le
    simp only [Cursor.moveTo, _h, List.length_cons] at *
  · have := (List.dropWhile_sublist (l := r) (· != '\n')).length_le
    omega
  all_goals omega

def Cursor.next (c : Cursor) (a : Admits) : Option Found :=
  Cursor.nextBehind a [] c

def Cursor.sign? (c : Cursor) (a : Admits) (s : String) : Option Cursor :=
  match c.next a with
  | some ⟨.sign t, _, _, after⟩ => if s = t then some after else none
  | _ => none

def Cursor.word? (c : Cursor) (a : Admits) (w : String) : Option Cursor :=
  match c.next a with
  | some ⟨.word t, _, _, after⟩ => if w = t then some after else none
  | _ => none

/-- An identifier; every word is one where the grammar asks for nothing else. -/
def Cursor.name? (c : Cursor) : Option (String × Cursor) :=
  match c.next {} with
  | some ⟨.word t, _, _, after⟩ => some (t, after)
  | _ => none

end ImportAtlas.Python
