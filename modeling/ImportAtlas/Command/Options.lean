import ImportAtlas.Text.Blank

/-!
Reading a command line: options with and without values, in their long and short spellings, and
operands.
-/

set_option autoImplicit false

namespace ImportAtlas.Command

/-- What an option takes: nothing, any text, or a path, which is not empty. -/
inductive ValueKind
  | none
  | text
  | path
  deriving DecidableEq, Repr

/-- An option: its long name, its letter, what it takes, what the value is called, what it is for,
and the value that holds without it. -/
structure OptionSpec where
  long : String
  short : Option Char := Option.none
  takes : ValueKind := .none
  valueName : String := ""
  about : String := ""
  default : Option String := Option.none
  required : Bool := false
  deriving DecidableEq, Repr

/-- What may stand on a command line: options, up to a number of operands, or the name of a command
with a line of its own. -/
structure LineSpec where
  options : List OptionSpec
  operands : Nat
  commands : List String
  deriving DecidableEq, Repr

inductive Interruption
  | usage
  | help
  | version
  deriving DecidableEq, Repr

/-- What stands on a line: values by the long names of their options, operands, and a command with
what follows it. -/
structure Line where
  values : List (String × String) := []
  operands : List String := []
  command : Option (String × List String) := Option.none
  deriving DecidableEq, Repr

namespace Line

def value? (l : Line) (long : String) : Option String :=
  l.values.lookup long

def has (l : Line) (long : String) : Bool :=
  (l.value? long).isSome

/-- The line with the value of an option, which is not given twice. -/
def give (l : Line) (o : OptionSpec) (value : String) : Except Interruption Line :=
  if l.has o.long || (o.takes = .path && value = "") then .error .usage
  else .ok { l with values := l.values ++ [(o.long, value)] }

end Line

/-- Whether an argument is read as an option wherever it stands. -/
def looksLikeOption (arg : String) : Bool :=
  match arg.toList with
  | '-' :: _ :: _ => true
  | _ => false

def splitLong (body : List Char) : String × Option String :=
  let name := String.ofList (body.takeWhile (· != '='))
  match body.dropWhile (· != '=') with
  | _ :: value => (name, some (String.ofList value))
  | [] => (name, Option.none)

def takeValue (o : OptionSpec) (attached : Option String) (rest : List String) (l : Line) :
    Except Interruption (Line × List String) :=
  match attached, rest with
  | some value, _ => (l.give o value).map fun l => (l, rest)
  | Option.none, value :: rest =>
    if looksLikeOption value then .error .usage else (l.give o value).map fun l => (l, rest)
  | Option.none, [] => .error .usage

def readLong (spec : LineSpec) (body : List Char) (rest : List String) (l : Line) :
    Except Interruption (Line × List String) :=
  let (name, attached) := splitLong body
  match spec.options.find? fun o => o.long = name with
  | some o =>
    if o.takes = .none then
      if attached.isSome then .error .usage else (l.give o "").map fun l => (l, rest)
    else takeValue o attached rest l
  | Option.none =>
    if attached.isSome then .error .usage
    else if name = "help" then .error .help
    else if name = "version" then .error .version
    else .error .usage

/-- Reads options by their letters; the letters behind one with a value are the value. -/
def readShort (spec : LineSpec) : List Char → List String → Line →
    Except Interruption (Line × List String)
  | [], rest, l => .ok (l, rest)
  | c :: cs, rest, l =>
    match spec.options.find? fun o => o.short = some c with
    | some o =>
      if o.takes = .none then do readShort spec cs rest (← l.give o "")
      else
        match cs with
        | [] => takeValue o Option.none rest l
        | '=' :: value => takeValue o (some (String.ofList value)) rest l
        | value => takeValue o (some (String.ofList value)) rest l
    | Option.none =>
      if c = 'h' then .error .help else if c = 'V' then .error .version else .error .usage

def readOperand (spec : LineSpec) (arg : String) (l : Line) : Except Interruption Line :=
  if l.operands.length < spec.operands then .ok { l with operands := l.operands ++ [arg] }
  else .error .usage

/-- Reads a line up to its end or its command. -/
def readLine (spec : LineSpec) : (fuel : Nat) → List String → Line → Except Interruption Line
  | 0, _, l => .ok l
  | _ + 1, [], l => .ok l
  | fuel + 1, arg :: rest, l =>
    if arg = "--" then rest.foldlM (fun l arg => readOperand spec arg l) l
    else if spec.commands.contains arg then .ok { l with command := some (arg, rest) }
    else
      match arg.toList with
      | '-' :: '-' :: body => do
        let (l, rest) ← readLong spec body rest l
        readLine spec fuel rest l
      | '-' :: c :: cs => do
        let (l, rest) ← readShort spec (c :: cs) rest l
        readLine spec fuel rest l
      | _ => do readLine spec fuel rest (← readOperand spec arg l)

def LineSpec.read (spec : LineSpec) (args : List String) : Except Interruption Line := do
  let l ← readLine spec args.length args {}
  if spec.options.any fun o => o.required && !l.has o.long then .error .usage else .ok l

end ImportAtlas.Command
