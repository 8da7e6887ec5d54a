import TwigToLatte.Run

/-!
# The program

Reads the command line, works on the files of the working directory, and prints what the run
tells: results to the standard output, log records and errors to the standard error output.
-/

namespace TwigToLatte.Main

/-- The wording of a failed file operation. -/
def failure : IO.Error → Disk.Failure
  | .noFileOrDirectory .. | .noSuchThing .. => .notFound
  | .inappropriateType .. => .notDirectory
  | e => .other e.toString

/-- Runs a file operation. -/
def attempt {α : Type} (operation : IO α) : IO (Except Disk.Failure α) := do
  try return .ok (← operation) catch e => return .error (failure e)

/-- The files of the working directory. -/
def disk : Disk IO where
  isFile path := do
    let file := (← IO.currentDir) / path
    try return (← file.metadata).type == .file catch _ => return false
  contains path := do
    let file := (← IO.currentDir) / path
    file.pathExists
  read path := do
    match ← attempt (IO.FS.readBinFile path) with
    | .error e => return .error e
    | .ok bytes =>
      match String.fromUTF8? bytes with
      | some text => return .ok text
      | none => return .error .notText
  rename source destination := attempt (IO.FS.rename source destination)
  write path text := attempt (IO.FS.writeFile path text)

/-- The records that a named level shows. -/
def shown (level : String) (log : Array Log.Record) : Array Log.Record :=
  match level.toLower with
  | "off" | "error" => #[]
  | name => Log.atLeast ((Log.Level.ofName? name).getD .warn) log

/-- Whether a level has this name. -/
def isLevel (level : String) : Bool :=
  ["off", "error", "warn", "info", "debug", "trace"].contains level.toLower

def usage : String :=
  "Usage: twig-to-latte [--config FILE] [--lenient] [--log-level LEVEL] "
    ++ "(convert INPUT [OUTPUT] | check INPUT)"

/-- Runs the program and answers with its exit code. -/
def call (arguments : List String) : IO UInt32 := do
  match Arguments.parse? arguments with
  | none =>
    IO.eprintln usage
    return 2
  | some arguments =>
    if !isLevel arguments.logLevel then
      IO.eprintln ("Invalid log level: " ++ arguments.logLevel ++ ". Using 'warn' instead.")
    let (result, journal) ← run disk arguments
    for record in shown arguments.logLevel journal.log do
      IO.eprintln record.line
    IO.print journal.printed
    match result with
    | .ok _ => return 0
    | .error e =>
      IO.eprintln ("Error: " ++ e.message)
      return 1

end TwigToLatte.Main

def main (arguments : List String) : IO UInt32 := TwigToLatte.Main.call arguments
