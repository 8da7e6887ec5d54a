import TwigToLatte.Dialect.Core
import TwigToLatte.Toml.Reader

/-!
# Settings

* `Config` — the settings of a conversion: leniency, names of filters and functions in Latte, and
  simplifications.
* `Config.read?` — the settings of a document. Unknown keys and values of other types are refused.
* `Config.dialect` — the dialect that settings describe.
-/

namespace TwigToLatte

/-- The settings of a conversion. -/
structure Config where
  /-- Accept filters and functions that are not known. -/
  lenient : Bool := false
  /-- Latte names of filters. -/
  filters : List (String × String) := []
  /-- Latte names of functions. -/
  functions : List (String × String) := []
  optimizations : Optimizations := {}
  deriving DecidableEq, Repr

namespace Config

def boolean? : Toml → Option Bool
  | .boolean value => some value
  | _ => none

/-- The key under which a date counts as a table. -/
def dateTimeKey : String := "$__toml_private_datetime"

/-- A table of names. A date or a time counts as a table with its written form. -/
def names? : Toml → Option (List (String × String))
  | .dateTime value => some [(dateTimeKey, value.display)]
  | .table _ entries => entries.mapM fun (key, value) =>
    match value with
    | .string name => some (key, name)
    | _ => none
  | _ => none

/-- One setting of the simplifications. -/
def setOptimization (settings : Optimizations) (entry : String × Toml) : Option Optimizations := do
  let value ← boolean? entry.2
  match entry.1 with
  | "for_loop" => return { settings with loopContext := value }
  | "raw_filter" => return { settings with rawFilter := value }
  | _ => none

/-- Simplifications as a table, or as a list of values in a fixed order. -/
def optimizations? : Toml → Option Optimizations
  | .table _ entries => entries.foldlM setOptimization {}
  | .array items => (["for_loop", "raw_filter"].zip items).foldlM setOptimization {}
  | _ => none

/-- One setting. -/
def set (config : Config) (entry : String × Toml) : Option Config :=
  match entry.1 with
  | "lenient" => (boolean? entry.2).map fun lenient => { config with lenient }
  | "filters" => (names? entry.2).map fun filters => { config with filters }
  | "functions" => (names? entry.2).map fun functions => { config with functions }
  | "optimizations" =>
    (optimizations? entry.2).map fun optimizations => { config with optimizations }
  | _ => none

/-- The settings of a document. -/
def read? (text : String) : Option Config :=
  (Toml.read? text).bind fun entries => entries.foldlM set {}

/-- The dialect of the settings; `lenient` asks for leniency whatever they say. -/
def dialect (config : Config) (lenient : Bool) : Dialect :=
  let accept := lenient || config.lenient
  let start : Dialect :=
    { Dialect.core with
      acceptFilters := accept
      acceptFunctions := accept
      optimizations := config.optimizations }
  let named := config.filters.foldl (fun d entry => d.renameFilter entry.1 entry.2) start
  config.functions.foldl (fun d entry => d.renameFunction entry.1 entry.2) named

end Config

end TwigToLatte
