import ImportAtlas.Command.Options
import ImportAtlas.Program

/-!
The commands of the program with their options, and the help on them.
-/

set_option autoImplicit false

namespace ImportAtlas.Command

def programAbout : String := "Python module index and completion engine"

def commonOptions : List OptionSpec := [
  { long := "config", short := some 'c', takes := .path, valueName := "CONFIG",
    about := "JSON configuration file" },
  { long := "search-path", short := some 'p', takes := .text, valueName := "SEARCH_PATH",
    about := "Search path (platform path-separator delimited); overrides the config file" },
  { long := "cache-dir", takes := .path, valueName := "CACHE_DIR",
    about := "Cache directory; overrides the config file" },
  { long := "no-persist", about := "Do not persist the index after rebuilding" },
  { long := "log-level", takes := .text, valueName := "LOG_LEVEL",
    about := "Log level for stderr (otherwise RUST_LOG, else \"info\")" },
  { long := "no-color", about := "Disable ANSI colors in log output" },
  { long := "log-file", about := "Write a DEBUG-level session log to the user cache directory" }]

structure OperandSpec where
  name : String
  about : String
  default : String
  deriving DecidableEq, Repr

structure CommandSpec where
  name : String
  about : String
  options : List OptionSpec := []
  operand : Option OperandSpec := none
  deriving DecidableEq, Repr

def indexCommand : CommandSpec :=
  { name := "index"
    about := "Rebuild the index and print module counts (Ctrl-C cancels)"
    options := [{ long := "preload", about := "Parse every module after enumerating" }] }

def modulesCommand : CommandSpec :=
  { name := "modules", about := "List indexed module keys" }

def importsCommand : CommandSpec :=
  { name := "imports"
    about := "Complete the next segment of a module name in an import statement"
    operand := some { name := "PREFIX", about := "Partial dotted module name", default := "" } }

def completeCommand : CommandSpec :=
  { name := "complete"
    about := "Complete at a cursor inside a file"
    options := [
      { long := "file", short := some 'f', takes := .path, valueName := "FILE",
        about := "File providing the completion context", required := true },
      { long := "activation", short := some 'a', takes := .text, valueName := "ACTIVATION",
        about := "Dotted expression before the cursor", default := some "" },
      { long := "qualifier", short := some 'q', takes := .text, valueName := "QUALIFIER",
        about := "Partial identifier at the cursor", default := some "" }] }

def commands : List CommandSpec :=
  [indexCommand, modulesCommand, importsCommand, completeCommand]

def helpCommand : CommandSpec :=
  { name := "help", about := "Print this message or the help of the given subcommand(s)" }

def mainLine : LineSpec :=
  ⟨commonOptions, 0, commands.map CommandSpec.name ++ [helpCommand.name]⟩

def CommandSpec.line (c : CommandSpec) : LineSpec :=
  ⟨c.options ++ commonOptions, c.operand.toList.length, []⟩

def explanations : List OptionSpec := [
  { long := "help", short := some 'h', about := "Print help" },
  { long := "version", short := some 'V', about := "Print version" }]

def OptionSpec.form (o : OptionSpec) : String :=
  if o.takes = .none then "--" ++ o.long else "--" ++ o.long ++ " <" ++ o.valueName ++ ">"

/-- An option with its letter, or with room for one. -/
def OptionSpec.fullForm (o : OptionSpec) : String :=
  match o.short with
  | some c => String.ofList ['-', c, ',', ' '] ++ o.form
  | none => "    " ++ o.form

def withDefault (about : String) : Option String → String
  | some value => about ++ " [default: " ++ value ++ "]"
  | none => about

def columns (rows : List (String × String)) : List String :=
  let width := rows.foldl (fun n (left, _) => max n left.length) 0
  rows.map fun (left, right) =>
    "  " ++ left ++ String.ofList (List.replicate (width - left.length) ' ') ++ "  " ++ right

/-- The options of a command in the order of the help on it: each of its own options behind the
common one at its place, or before it if its letter or name comes first. -/
def CommandSpec.listed (c : CommandSpec) : List OptionSpec :=
  merge (c.options, commonOptions) ++ explanations
where
  /-- Whether one option is listed before another at the same place. -/
  precedes (a b : OptionSpec) : Bool :=
    sortKey a < sortKey b
  /-- The letter of an option, or else its name. -/
  sortKey (o : OptionSpec) : String :=
    match o.short with
    | some c => String.ofList [c, '0']
    | none => o.long
  /-- Goes through both lists place by place. -/
  merge : List OptionSpec × List OptionSpec → List OptionSpec
    | ([], common) => common
    | (own, []) => own
    | (a :: own, b :: common) => (if precedes a b then [a, b] else [b, a]) ++ merge (own, common)

def optionSection (options : List OptionSpec) : List String :=
  "" :: "Options:" ::
    columns (options.map fun o => (o.fullForm, withDefault o.about o.default))

def CommandSpec.help (c : CommandSpec) : List String :=
  let required := c.options.filter OptionSpec.required
  let usage := ["Usage:", programName, c.name, "[OPTIONS]"] ++ required.map OptionSpec.form ++
    (c.operand.map fun o => "[" ++ o.name ++ "]").toList
  let operands := match c.operand with
    | some o =>
      "" :: "Arguments:" :: columns [("[" ++ o.name ++ "]", withDefault o.about (some o.default))]
    | none => []
  [c.about, "", " ".intercalate usage] ++ operands ++ optionSection c.listed

def helpOnHelp : List String :=
  [helpCommand.about, "", "Usage: " ++ programName ++ " help [COMMAND]...", "", "Arguments:",
    "  [COMMAND]...  Print help for the subcommand(s)"]

def mainHelp : List String :=
  let rows := (commands ++ [helpCommand]).map fun c => (c.name, c.about)
  [programAbout, "", "Usage: " ++ programName ++ " [OPTIONS] <COMMAND>", "", "Commands:"] ++
    columns rows ++ optionSection (commonOptions ++ explanations)

/-- The line that tells the version of the program, or of a command of it. -/
def versionLine (command : Option String) : String :=
  programName ++ ((command.map fun name => "-" ++ name).getD "") ++ " " ++ programVersion

end ImportAtlas.Command
