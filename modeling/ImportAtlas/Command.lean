import ImportAtlas.Cache.Frame
import ImportAtlas.Command.Manual
import ImportAtlas.Completion.Cursor
import ImportAtlas.Completion.Imports
import ImportAtlas.Engine
import ImportAtlas.Index.Update
import ImportAtlas.Library.Python

/-!
The commands on a host: what they print, and what they leave on its disk.
-/

set_option autoImplicit false

namespace ImportAtlas.Command

/-- How a run of the program ends: its exit code, the lines it prints, and the message of its
failure. -/
structure Outcome where
  code : Nat
  lines : List String := []
  error : Option String := none
  deriving DecidableEq, Repr

namespace Outcome

def success (lines : List String) : Outcome :=
  { code := 0, lines }

def failure (message : String) : Outcome :=
  { code := 1, error := some message }

def misuse : Outcome :=
  { code := 2, error := some "the command line is not understood" }

end Outcome

inductive Query
  | modules
  | imports (typed : String)
  | complete (file : Path) (activation : String)
  deriving DecidableEq, Repr

inductive Request
  | index (preload : Bool)
  | query (q : Query)
  deriving DecidableEq, Repr

def symbolLine (s : Symbol) : String :=
  s.name ++ "\t" ++ s.kind.label ++ "\t" ++ s.owner

def keyLine (key : ModuleKey) : String :=
  key.name ++ "\t" ++ (key.file.map Path.text).getD "<builtin>"

def rebuildLine (r : RebuildReport) : String :=
  "modules: " ++ Text.decimal r.modules ++ "  skipped: " ++ Text.decimal r.skipped ++
    "  cancelled: " ++ if r.cancelled then "true" else "false"

def preloadLine (r : PreloadReport) : String :=
  "loaded: " ++ Text.decimal r.loaded ++ "  failed: " ++ Text.decimal r.failed

def runIndex (e : Engine) (preload : Bool) (h : Host) : Outcome × Host :=
  let (report, e, h) := e.rebuild e.config.searchPath .never h
  let loaded :=
    if preload && !report.cancelled then
      [preloadLine (e.state.preload h.disk.library .never).1]
    else []
  (.success (rebuildLine report :: loaded), h)

/-- The symbols at a cursor in a file of the disk, by the index in use. -/
def completeIn (disk : Disk) (file : Path) (activation : String) (s : State) :
    Except String (List Symbol) :=
  match disk.readStrict? file with
  | none => .error ("Failed to read " ++ file.text)
  | some text =>
    match s.moduleOfBuffer disk.library (some file) text with
    | (.error e, _) => .error e.message
    | (.ok m, s) => .ok (Completion.atCursor disk.library m activation s).1

def Query.answer (disk : Disk) (s : State) : Query → Outcome
  | modules => .success (s.index.keys.map keyLine)
  | imports typed => .success ((Completion.inImport disk.library typed s).1.map symbolLine)
  | complete file activation =>
    match completeIn disk file activation s with
    | .ok symbols => .success (symbols.map symbolLine)
    | .error message => .failure message

def Request.run (config : Config) (h : Host) : Request → Outcome × Host
  | index preload => runIndex (.initial config h.disk.cwd) preload h
  | query q =>
    let (e, h) := (Engine.initial config h.disk.cwd).prepare config.searchPath h
    (q.answer h.disk e.state, h)

/-- The settings of a command line: those of its file, and over them those it gives itself. -/
def settings (value? : String → Option String) (disk : Disk) : Except ConfigFailure Config := do
  let kept ← match value? "config" with
    | some file => Config.load disk ⟨file⟩
    | none => .ok {}
  .ok
    { searchPath := (value? "search-path").getD kept.searchPath
      persist := kept.persist && (value? "no-persist").isNone
      cacheDir := ((value? "cache-dir").map Path.mk).orElse fun _ => kept.cacheDir }

def CommandSpec.request (c : CommandSpec) (l : Line) : Request :=
  if c.name = indexCommand.name then .index (l.has "preload")
  else if c.name = importsCommand.name then .query (.imports (l.operands.head?.getD ""))
  else if c.name = completeCommand.name then
    .query (.complete ⟨(l.value? "file").getD ""⟩ ((l.value? "activation").getD ""))
  else .query .modules

/-- The host with the directory of session logs; none if it cannot be made. The logs themselves are
not kept. -/
def openLog (h : Host) : Option Host :=
  (h.disk.makeDirs (h.cacheDir.child "logs")).map fun disk => { h with disk }

/-- The value of an option behind a command, or else before it. -/
def valueIn (before behind : Line) (long : String) : Option String :=
  (behind.value? long).orElse fun _ => before.value? long

def perform (c : CommandSpec) (before behind : Line) (h : Host) : Outcome × Host :=
  let value? := valueIn before behind
  match if (value? "log-file").isSome then openLog h else some h with
  | none => (.failure "Failed to initialize logging", h)
  | some h =>
    match settings value? h.disk with
    | .error e => (.failure e.message, h)
    | .ok config => (c.request behind).run config h

def interrupted (help : List String) (command : Option String) : Interruption → Outcome
  | .usage => .misuse
  | .help => .success help
  | .version => .success [versionLine command]

def explain : List String → Outcome
  | [] => .success mainHelp
  | [name] =>
    if name = helpCommand.name then .success helpOnHelp
    else
      match commands.find? fun c => c.name = name with
      | some c => .success c.help
      | none => .misuse
  | _ => .misuse

/-- The command on a command line with the options before and behind its name; or, where no command
is to be run, what is answered instead. -/
def readCommand (args : List String) : Except Outcome (CommandSpec × Line × Line) := do
  let before ← (mainLine.read args).mapError (interrupted mainHelp none)
  match before.command with
  | none => .error .misuse
  | some (name, rest) =>
    if name = helpCommand.name then .error (explain rest)
    else
      match commands.find? fun c => c.name = name with
      | none => .error .misuse
      | some c =>
        let behind ← (c.line.read rest).mapError (interrupted c.help (some name))
        .ok (c, before, behind)

def run (args : List String) (h : Host) : Outcome × Host :=
  match readCommand args with
  | .error outcome => (outcome, h)
  | .ok (c, before, behind) => perform c before behind h

/-- The paths whose content a run depends on, as far as the disk tells: the file of settings is
needed to know all others. -/
def inputs (args : List String) (h : Host) : List Path :=
  match readCommand args with
  | .error _ => []
  | .ok (_, before, behind) =>
    let value? := valueIn before behind
    let given := ((value? "config").toList ++ (behind.value? "file").toList).map Path.mk
    match settings value? h.disk with
    | .error _ => given
    | .ok config =>
      let roots := (SearchPath.parse h.disk.cwd config.searchPath).roots
      let home := config.cacheDir.getD h.cacheDir
      given ++ roots ++ [Cache.metadataFile home roots, Cache.modulesFile home roots]

end ImportAtlas.Command
