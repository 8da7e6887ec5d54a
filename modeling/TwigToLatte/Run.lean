import TwigToLatte.CommandLine
import TwigToLatte.Config
import TwigToLatte.Conversion
import TwigToLatte.Disk
import TwigToLatte.Path

/-!
# Runs

* `run` — does what a call asks for, on a disk.
* `RunError` — why a run fails, and its wording.
* `Journal` — what a run prints and logs, also where it fails.

A converted template replaces an older one only after that has been moved aside.
-/

namespace TwigToLatte

/-- Why a run fails. -/
inductive RunError where
  | missingInput (path : String)
  | unreadable (path : String) (failure : Disk.Failure)
  | inaccessible (path : String) (failure : Disk.Failure)
  /-- The file with the settings holds something else. -/
  | invalidConfig (path : String)
  /-- The template at the path cannot be converted. -/
  | conversion (path : String) (error : Latte.RenderError)
  deriving DecidableEq, Repr

def RunError.message : RunError → String
  | missingInput path => "File not found: " ++ path
  | unreadable path failure => "Failed to read " ++ path ++ ": " ++ failure.message
  | inaccessible path failure => "Failed to access " ++ path ++ ": " ++ failure.message
  | invalidConfig path => "Invalid config " ++ path
  | conversion path error => error.display path

/-- What a run tells. -/
structure Journal where
  /-- The printed text. -/
  printed : String := ""
  log : Array Log.Record := #[]
  deriving DecidableEq, Repr

/-- A run on a disk in the monad `m`. -/
abbrev Run (m : Type → Type) (α : Type) := ExceptT RunError (StateT Journal m) α

namespace Run

variable {m : Type → Type} [Monad m]

def print (text : String) : Run m Unit :=
  modify fun journal => { journal with printed := journal.printed ++ text }

def logAll (records : Array Log.Record) : Run m Unit :=
  modify fun journal => { journal with log := journal.log ++ records }

/-- A file operation whose failure ends the run. -/
def attempt {α : Type} (describe : Disk.Failure → RunError)
    (operation : m (Except Disk.Failure α)) : Run m α := do
  match ← (liftM operation : Run m (Except Disk.Failure α)) with
  | .ok a => return a
  | .error failure => throw (describe failure)

/-- The settings in a file, by a reader of their format. -/
def loadConfig (disk : Disk m) (readConfig : String → Option Config) : Option String → Run m Config
  | none => return {}
  | some path => do
    let text ← attempt (.inaccessible path) (disk.read path)
    match readConfig text with
    | none => throw (.invalidConfig path)
    | some config =>
      logAll #[⟨.debug, "Loaded converter config",
        [("path", path), ("filters", toString config.filters.length),
          ("functions", toString config.functions.length)]⟩]
      return config

def convertFile (disk : Disk m) (dialect : Dialect) (path : String) : Run m Conversion := do
  if !(← (liftM (disk.isFile path) : Run m Bool)) then throw (.missingInput path)
  let text ← attempt (.unreadable path) (disk.read path)
  let converted :=
    convert dialect { text, name := (Path.fileName? path).getD path, path := some path }
  logAll converted.log
  match converted.result with
  | .ok conversion => return conversion
  | .error e => throw (.conversion path e)

/-- Moves a file aside, if there is one. -/
def backUp (disk : Disk m) (path : String) : Run m Unit := do
  if ← (liftM (disk.contains path) : Run m Bool) then
    let backup := Path.backup path
    attempt (.inaccessible path) (disk.rename path backup)
    logAll #[⟨.info, "Backed up previous output", [("path", backup)]⟩]

/-- Converts a template and writes the result. -/
def convertTo (disk : Disk m) (dialect : Dialect) (input output : String) : Run m Unit := do
  let conversion ← convertFile disk dialect input
  backUp disk output
  attempt (.inaccessible output) (disk.write output conversion.code)
  logAll #[⟨.debug, "Wrote template",
    [("input", input), ("output", output), ("mappings", toString conversion.lineMap.size)]⟩]

/-- Does what a command asks for. -/
def command (disk : Disk m) (dialect : Dialect) : Command → Run m Unit
  | .convert input output => do
    let output := output.getD (Path.defaultOutput input)
    convertTo disk dialect input output
    print ("Saved to " ++ output ++ "\n")
  | .check input => do
    let _ ← convertFile disk dialect input
    print ("OK: " ++ input ++ "\n")

/-- Reads the settings and does what a call asks for. -/
def call (disk : Disk m) (readConfig : String → Option Config) (arguments : Arguments) :
    Run m Unit := do
  let config ← loadConfig disk readConfig arguments.config
  let dialect := config.dialect arguments.lenient
  logAll #[dialect.readyRecord]
  command disk dialect arguments.command

end Run

/-- Does what a call asks for. -/
def run {m : Type → Type} [Monad m] (disk : Disk m) (arguments : Arguments)
    (readConfig : String → Option Config := Config.read?) : m (Except RunError Unit × Journal) :=
  (Run.call disk readConfig arguments).run.run {}

end TwigToLatte
