import TwigToLatte.Dialect

/-!
# The core dialect

* `Dialect.core` — the operators, filters, functions, tests and tags of Twig, and the few
  callables that have another name in Latte.
-/

namespace TwigToLatte.Dialect

def required (name : String) : Param := { name }

def optional (name : String) (default : Value) : Param := { name, default := some default }

/-- A parameter whose default is null. -/
def nullable (name : String) : Param := optional name .null

def coreUnary : List (String × UnaryOperator) :=
  [("not", ⟨50, .not⟩), ("-", ⟨500, .neg⟩), ("+", ⟨500, .pos⟩)]

def infixLeft (precedence : Precedence) (op : BinaryOp) : BinaryOperator :=
  ⟨precedence, .left, .binary op⟩

def infixRight (precedence : Precedence) (op : BinaryOp) : BinaryOperator :=
  ⟨precedence, .right, .binary op⟩

def coreBinary : List (String × BinaryOperator) :=
  [("or", infixLeft 10 .or),
   ("and", infixLeft 15 .and),
   ("b-or", infixLeft 16 .bitOr),
   ("b-xor", infixLeft 17 .bitXor),
   ("b-and", infixLeft 18 .bitAnd),
   ("==", infixLeft 20 .equal),
   ("!=", infixLeft 20 .notEqual),
   ("<=>", infixLeft 20 .spaceship),
   ("<", infixLeft 20 .less),
   (">", infixLeft 20 .greater),
   (">=", infixLeft 20 .greaterEqual),
   ("<=", infixLeft 20 .lessEqual),
   ("not in", infixLeft 20 .notIn),
   ("in", infixLeft 20 .isIn),
   ("matches", infixLeft 20 .matchesPattern),
   ("starts with", infixLeft 20 .startsWith),
   ("ends with", infixLeft 20 .endsWith),
   ("..", infixLeft 25 .range),
   ("+", infixLeft 30 .add),
   ("-", infixLeft 30 .sub),
   ("~", infixLeft 40 .concat),
   ("*", infixLeft 60 .mul),
   ("/", infixLeft 60 .div),
   ("//", infixLeft 60 .floorDiv),
   ("%", infixLeft 60 .mod),
   ("is", ⟨100, .left, .test⟩),
   ("is not", ⟨100, .left, .notTest⟩),
   ("**", infixRight 200 .power),
   ("??", infixRight 300 .nullCoalesce)]

/-- A filter without a signature. -/
def filter (name : String) : Callable FilterKind := { name, kind := .generic }

def filterWith (name : String) (params : List Param) : Callable FilterKind :=
  { name, kind := .generic, signature := some { params } }

def escapeParams : List Param :=
  [optional "strategy" (.string "html"), nullable "charset", optional "autoescape" (.bool false)]

def coreFilters : List (Callable FilterKind) :=
  [filter "abs",
   filterWith "batch" [required "size", nullable "fill", optional "preserve_keys" (.bool true)],
   filter "capitalize",
   filterWith "column" [required "name", nullable "index"],
   filterWith "convert_encoding" [required "to", required "from"],
   filterWith "data_uri" [nullable "mime", optional "parameters" (.array [])],
   filterWith "date" [nullable "format", nullable "timezone"],
   filterWith "date_modify" [required "modifier"],
   { name := "default", kind := .fallback,
     signature := some { params := [optional "default" (.string "")] } },
   filterWith "e" escapeParams,
   filterWith "escape" escapeParams,
   filterWith "filter" [required "arrow"],
   filter "first",
   { name := "format", kind := .generic, signature := some { variadic := true } },
   filterWith "join" [optional "glue" (.string ""), nullable "and"],
   filterWith "json_encode" [nullable "options"],
   filter "keys",
   filter "last",
   filter "length",
   filter "lower",
   filterWith "map" [required "arrow"],
   filterWith "merge" [required "arr2"],
   filter "nl2br",
   filterWith "number_format"
     [nullable "decimal", nullable "decimal_point", nullable "thousand_sep"],
   filter "raw",
   filterWith "reduce" [required "arrow", nullable "initial"],
   filterWith "replace" [required "from"],
   filterWith "reverse" [optional "preserve_keys" (.bool false)],
   filterWith "round" [optional "precision" (.int 0), optional "method" (.string "common")],
   filterWith "slice"
     [required "start", nullable "length", optional "preserve_keys" (.bool false)],
   filterWith "sort" [nullable "arrow"],
   { name := "spaceless", kind := .generic, deprecation := some { since := some "3.12" } },
   filterWith "split" [required "delimiter", nullable "limit"],
   filterWith "striptags" [nullable "allowable_tags"],
   filter "title",
   filterWith "trim" [nullable "character_mask", optional "side" (.string "both")],
   filter "upper",
   filter "url_encode"]

/-- A function without a signature. -/
def function (name : String) : Callable FunctionKind := { name, kind := .generic }

def functionWith (name : String) (params : List Param) : Callable FunctionKind :=
  { name, kind := .generic, signature := some { params } }

def coreFunctions : List (Callable FunctionKind) :=
  [functionWith "constant" [required "constant", nullable "object"],
   functionWith "cycle" [required "values", required "position"],
   functionWith "date" [nullable "date", nullable "timezone"],
   { name := "dump", kind := .generic, signature := some { variadic := true } },
   function "html_classes",
   { name := "include", kind := .inclusion,
     signature := some
       { params :=
           [required "template", optional "variables" (.array []),
            optional "with_context" (.bool true), optional "ignore_missing" (.bool false),
            optional "sandboxed" (.bool false)] } },
   function "max",
   function "min",
   functionWith "random" [nullable "values", nullable "max"],
   functionWith "range" [required "low", required "high", optional "step" (.int 1)],
   functionWith "source" [required "name", optional "ignore_missing" (.bool false)]]

/-- A test without arguments. -/
def test (name : String) (kind : TestKind) : Callable TestKind := { name, kind }

def coreTests : List (Callable TestKind) :=
  [{ name := "constant", kind := .constant,
     signature := some { params := [required "constant", nullable "object"] } },
   test "defined" .defined,
   { name := "divisible by", kind := .divisibleBy,
     signature := some { params := [required "num"] }, oneArgument := true },
   test "empty" .generic,
   test "even" .even,
   test "iterable" .generic,
   test "none" .null,
   test "null" .null,
   test "odd" .odd,
   { name := "same as", kind := .sameAs,
     signature := some { params := [required "value"] }, oneArgument := true }]

def register {α : Type} (name : α → String) (entries : List α) : Registry α :=
  Registry.empty.insertAll (entries.map fun entry => (name entry, entry))

/-- The dialect of plain Twig. -/
def core : Dialect :=
  { unary := Registry.empty.insertAll coreUnary
    binary := Registry.empty.insertAll coreBinary
    filters := register (·.name) coreFilters
    functions := register (·.name) coreFunctions
    tests := register (·.name) coreTests
    latteFilters :=
      Registry.empty.insertAll
        [("striptags", "stripHtml"), ("raw", "noescape"), ("title", "capitalize"),
         ("url_encode", "query")]
    latteFunctions :=
      Registry.empty.insertAll [("iterable", "is_iterable"), ("source", "file_get_contents")]
    tags := register Tag.keyword Tag.all }

end TwigToLatte.Dialect
