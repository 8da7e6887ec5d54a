/-!
# Log records

* `Log.Level` — severities, `warn` being the most severe.
* `Log.Record` — one message with named values, and `Record.line`, its written form.
* `Log.atLeast` — the records of a severity and of the more severe ones.
* `Logged` — the outcome of an operation together with the records that it wrote.
-/

namespace TwigToLatte.Log

inductive Level where
  | warn
  | info
  | debug
  | trace
  deriving DecidableEq, Repr

/-- Position in the order from severe to detailed. -/
def Level.rank : Level → Nat
  | .warn => 0
  | .info => 1
  | .debug => 2
  | .trace => 3

def Level.label : Level → String
  | .warn => "WARN"
  | .info => "INFO"
  | .debug => "DEBUG"
  | .trace => "TRACE"

/-- The level with the given lower-case name. -/
def Level.ofName? : String → Option Level
  | "warn" => some .warn
  | "info" => some .info
  | "debug" => some .debug
  | "trace" => some .trace
  | _ => none

/-- A message with named values in a fixed order. -/
structure Record where
  level : Level
  message : String
  fields : List (String × String) := []
  deriving DecidableEq, Repr

/-- The record on one line: level, message, then `name=value` for each field. -/
def Record.line (r : Record) : String :=
  r.fields.foldl (fun text field => text ++ " " ++ field.1 ++ "=" ++ field.2)
    (r.level.label ++ " " ++ r.message)

/-- The records at `level` or more severe, in order. -/
def atLeast (level : Level) (records : Array Record) : Array Record :=
  records.filter fun r => r.level.rank ≤ level.rank

end TwigToLatte.Log

/-- The outcome of an operation and what it logged, also where it failed. -/
structure TwigToLatte.Logged (ε α : Type) where
  result : Except ε α
  log : Array TwigToLatte.Log.Record := #[]
