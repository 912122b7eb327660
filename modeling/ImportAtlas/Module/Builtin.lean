import ImportAtlas.Symbol

/-!
The modules that exist without a source file: the namespace every program can use unqualified, and
the module of the running system.
-/

set_option autoImplicit false

namespace ImportAtlas.Builtin

/-- The namespace that is visible everywhere. -/
def ambientName : String := "__builtin__"

def systemName : String := "sys"

def names : List String := [ambientName, systemName]

def isReserved (name : String) : Bool :=
  names.contains name

def functions : List String :=
  ["__import__", "abs", "all", "any", "ascii", "bin", "bool", "breakpoint", "bytearray", "bytes",
    "callable", "chr", "classmethod", "compile", "complex", "delattr", "dict", "dir", "divmod",
    "enumerate", "eval", "exec", "filter", "float", "format", "frozenset", "getattr", "globals",
    "hasattr", "hash", "help", "hex", "id", "input", "int", "isinstance", "issubclass", "iter",
    "len", "list", "locals", "map", "max", "memoryview", "min", "next", "object", "oct", "open",
    "ord", "pow", "print", "property", "range", "repr", "reversed", "round", "set", "setattr",
    "slice", "sorted", "staticmethod", "str", "sum", "super", "tuple", "type", "vars", "zip"]

def constants : List String :=
  ["True", "False", "None", "NotImplemented", "Ellipsis", "__debug__"]

def exceptions : List String :=
  ["BaseException", "Exception", "ArithmeticError", "AssertionError", "AttributeError", "EOFError",
    "ImportError", "IndexError", "KeyError", "KeyboardInterrupt", "LookupError", "NameError",
    "NotImplementedError", "OSError", "RuntimeError", "StopIteration", "SyntaxError", "SystemExit",
    "TypeError", "ValueError", "ZeroDivisionError"]

def stringMethods : List String :=
  ["capitalize", "center", "count", "encode", "endswith", "find", "format", "index", "isalnum",
    "isalpha", "isdigit", "islower", "isspace", "isupper", "join", "lower", "lstrip", "partition",
    "replace", "rfind", "rsplit", "rstrip", "split", "splitlines", "startswith", "strip",
    "swapcase", "title", "upper", "zfill"]

def listMethods : List String :=
  ["append", "clear", "copy", "count", "extend", "index", "insert", "pop", "remove", "reverse",
    "sort"]

def dictionaryMethods : List String :=
  ["clear", "copy", "fromkeys", "get", "items", "keys", "pop", "popitem", "setdefault", "update",
    "values"]

def setMethods : List String :=
  ["add", "clear", "copy", "difference", "discard", "intersection", "isdisjoint", "issubset",
    "issuperset", "pop", "remove", "symmetric_difference", "union", "update"]

def tupleMethods : List String :=
  ["count", "index"]

def systemAttributes : List String :=
  ["argv", "byteorder", "builtin_module_names", "executable", "flags", "float_info", "maxsize",
    "modules", "path", "platform", "prefix", "stderr", "stdin", "stdout", "version", "version_info"]

def systemFunctions : List String :=
  ["exc_info", "exit", "getdefaultencoding", "getrecursionlimit", "getrefcount", "getsizeof",
    "intern", "setrecursionlimit", "settrace"]

/-- A module without a file, with its documentation, symbols and scopes. -/
structure Table where
  name : String
  doc : String
  globals : List Symbol
  scopes : List (String × List Symbol)
  deriving DecidableEq, Repr

def symbols (owner : String) (kind : SymbolKind) (names : List String) : List Symbol :=
  names.map fun name => { name, kind, owner }

/-- The namespace that is visible everywhere; the methods of its basic types are its scopes. -/
def ambient : Table where
  name := ambientName
  doc := "Built-in functions, exceptions, and other objects."
  globals := symbols ambientName .builtin (functions ++ constants ++ exceptions)
  scopes :=
    [("str", stringMethods), ("list", listMethods), ("dict", dictionaryMethods),
      ("set", setMethods), ("tuple", tupleMethods)].map fun (scope, methods) =>
        (scope, symbols ambientName .function methods)

def system : Table where
  name := systemName
  doc := "System-specific parameters and functions."
  globals :=
    symbols systemName .attribute systemAttributes ++ symbols systemName .function systemFunctions
  scopes := []

def ofName? (name : String) : Option Table :=
  if name = ambientName then some ambient
  else if name = systemName then some system
  else none

def Table.members (t : Table) (scope : String) : List Symbol :=
  (t.scopes.lookup scope).getD []

theorem isReserved_iff {name : String} : isReserved name ↔ (ofName? name).isSome := by
  have hne : systemName ≠ ambientName := by decide
  unfold isReserved ofName? names
  by_cases h : name = ambientName
  · simp [h]
  · by_cases h' : name = systemName
    · simp [h', hne]
    · simp [h, h']

end ImportAtlas.Builtin
