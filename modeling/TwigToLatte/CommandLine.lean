/-!
# The command line

* `Arguments` — what a call asks for.
* `Arguments.parse?` — reads the arguments of a call; nothing where they are no proper call.

Options may stand before and after the command. One that is given on both sides counts as given
after the command, and on one side it may be given only once.
-/

namespace TwigToLatte

inductive Command where
  /-- Convert a template and write the result, by default beside it. -/
  | convert (input : String) (output : Option String)
  /-- Convert a template and write nothing. -/
  | check (input : String)
  deriving DecidableEq, Repr

structure Arguments where
  command : Command
  /-- The file with the settings. -/
  config : Option String := none
  lenient : Bool := false
  logLevel : String := "warn"
  deriving DecidableEq, Repr

namespace Arguments

/-- A word of a call. -/
inductive Word where
  | config (path : String)
  | lenient
  | logLevel (level : String)
  | value (text : String)
  /-- A value after the mark that ends the options. -/
  | plain (text : String)
  deriving DecidableEq, Repr

/-- Whether a word looks like an option. -/
def isOption (word : String) : Bool :=
  match word.toList with
  | '-' :: _ :: _ => true
  | _ => false

/-- What follows an equals sign after an option's name. -/
def attached? (option word : String) : Option String :=
  let start := option.toList ++ ['=']
  if start.isPrefixOf word.toList then some (String.ofList (word.toList.drop start.length))
  else none

/-- A word that needs no further one. -/
def single? (word : String) : Option Word :=
  match attached? "--config" word, attached? "--log-level" word with
  | some path, _ => some (.config path)
  | none, some level => some (.logLevel level)
  | none, none =>
    if word == "--lenient" then some .lenient
    else if isOption word then none
    else some (.value word)

def words? : List String → Option (List Word)
  | [] => some []
  | "--" :: rest => some (rest.map .plain)
  | ["--config"] => none
  | ["--log-level"] => none
  | "--config" :: path :: rest =>
    if isOption path then none else (words? rest).map (.config path :: ·)
  | "--log-level" :: level :: rest =>
    if isOption level then none else (words? rest).map (.logLevel level :: ·)
  | word :: rest => (single? word).bind fun word => (words? rest).map (word :: ·)

def Word.isValue : Word → Bool
  | .value _ | .plain _ => true
  | _ => false

/-- The options on one side of the command. -/
structure Options where
  config : Option String := none
  lenient : Bool := false
  logLevel : Option String := none
  deriving DecidableEq, Repr

/-- Adds an option that is not there yet. A path is not empty. -/
def Options.add (options : Options) : Word → Option Options
  | .config path =>
    if options.config.isSome || path.isEmpty then none
    else some { options with config := some path }
  | .lenient => if options.lenient then none else some { options with lenient := true }
  | .logLevel level =>
    if options.logLevel.isSome then none else some { options with logLevel := some level }
  | _ => some options

def options? (words : List Word) : Option Options := words.foldlM Options.add {}

def values (words : List Word) : List String :=
  words.filterMap fun
    | .value text | .plain text => some text
    | _ => none

/-- The command of a name with its values. -/
def command? : String → List String → Option Command
  | "convert", [input] => some (.convert input none)
  | "convert", [input, output] => some (.convert input (some output))
  | "check", [input] => some (.check input)
  | _, _ => none

def parse? (call : List String) : Option Arguments := do
  let words ← words? call
  let before ← options? (words.takeWhile fun word => !word.isValue)
  match words.dropWhile fun word => !word.isValue with
  | .value name :: rest =>
    let after ← options? rest
    let paths := values rest
    if paths.any String.isEmpty then none
    else
      return {
        command := ← command? name paths
        config := after.config <|> before.config
        lenient := after.lenient || before.lenient
        logLevel := (after.logLevel <|> before.logLevel).getD "warn" }
  | _ => none

end Arguments

end TwigToLatte
