import ImportAtlas.Text.Hexadecimal

/-!
Number literals. Every reader returns what follows the longest literal it finds at the start.
-/

set_option autoImplicit false

namespace ImportAtlas.Python.Number

/-- Digits in which single underscores may stand between digits and one may stand at the end; the
first digit has been read. -/
def digitsTail (p : Char → Bool) : List Char → List Char
  | '_' :: d :: r => if p d then digitsTail p r else d :: r
  | ['_'] => []
  | d :: r => if p d then digitsTail p r else d :: r
  | [] => []

def digits : List Char → Option (List Char)
  | d :: r => if d.isDigit then some (digitsTail Char.isDigit r) else none
  | [] => none

/-- Digits of another base, each run of them optionally behind one underscore. -/
def baseTail (p : Char → Bool) : List Char → List Char
  | '_' :: d :: r => if p d then baseTail p r else '_' :: d :: r
  | d :: r => if p d then baseTail p r else d :: r
  | [] => []

def baseDigits (p : Char → Bool) : List Char → Option (List Char)
  | '_' :: d :: r => if p d then some (baseTail p r) else none
  | d :: r => if p d then some (baseTail p r) else none
  | [] => none

def skipOne (s : List Char) : List Char → List Char
  | c :: r => if s.contains c then r else c :: r
  | [] => []

def exponent : List Char → Option (List Char)
  | e :: r => if e == 'e' || e == 'E' then digits (skipOne ['+', '-'] r) else none
  | [] => none

def basedInteger : List Char → Option (List Char)
  | '0' :: x :: r =>
    let p : Char → Bool :=
      if x == 'x' || x == 'X' then Text.isHexDigit
      else if x == 'o' || x == 'O' then fun c => '0' ≤ c && c ≤ '7'
      else if x == 'b' || x == 'B' then fun c => c == '0' || c == '1'
      else fun _ => false
    (baseDigits p r).map (skipOne ['L', 'l'])
  | _ => none

def decimalInteger (cs : List Char) : Option (List Char) :=
  (digits cs).map (skipOne ['L', 'l', 'j', 'J'])

def pointed (cs : List Char) : Option (List Char) :=
  let withExponent (r : List Char) := skipOne ['j', 'J'] ((exponent r).getD r)
  match digits cs with
  | some ('.' :: r) => some (withExponent ((digits r).getD r))
  | some _ => none
  | none =>
    match cs with
    | '.' :: r => (digits r).map withExponent
    | _ => none

def scientific (cs : List Char) : Option (List Char) :=
  (digits cs >>= exponent).map (skipOne ['j', 'J'])

/-- What follows the longest number literal at the start of the text. An integer in base ten is the
beginning of any other literal that starts with the same digits. -/
def read (cs : List Char) : Option (List Char) :=
  (((basedInteger cs).orElse fun _ => pointed cs).orElse fun _ => scientific cs).orElse fun _ =>
    decimalInteger cs

end ImportAtlas.Python.Number
