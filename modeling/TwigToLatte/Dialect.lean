import TwigToLatte.Log
import TwigToLatte.Signature

/-!
# Dialects

* `Dialect` — what a template may use: operators, filters, functions, tests and tags, the Latte
  names of callables that are spelled differently there, and the options of the conversion.
* `Tag` — the statements that a dialect offers, each with its keyword.
* `Dialect.filter?`, `Dialect.function?` — look-up; a lenient dialect takes every name.
-/

namespace TwigToLatte

/-- How tightly an operator binds. -/
abbrev Precedence := UInt32

inductive Associativity where
  | left
  | right
  deriving DecidableEq, Repr

structure UnaryOperator where
  precedence : Precedence
  op : UnaryOp
  deriving DecidableEq, Repr

/-- What an infix operator builds. -/
inductive OperatorKind where
  | binary (op : BinaryOp)
  /-- What follows is the name of a test. -/
  | test
  | notTest
  deriving DecidableEq, Repr

structure BinaryOperator where
  precedence : Precedence
  associativity : Associativity
  kind : OperatorKind
  deriving DecidableEq, Repr

/-- The tags of templates. -/
inductive Tag where
  | apply
  | autoescape
  | block
  | cache
  | deprecated
  | evaluate
  | embed
  | inherit
  | flush
  | loop
  | importNames
  | branch
  | importAs
  | inclusion
  | defineMacro
  | sandbox
  | assign
  | useBlocks
  | scope
  deriving DecidableEq, Repr

def Tag.keyword : Tag → String
  | .apply => "apply"
  | .autoescape => "autoescape"
  | .block => "block"
  | .cache => "cache"
  | .deprecated => "deprecated"
  | .evaluate => "do"
  | .embed => "embed"
  | .inherit => "extends"
  | .flush => "flush"
  | .loop => "for"
  | .importNames => "from"
  | .branch => "if"
  | .importAs => "import"
  | .inclusion => "include"
  | .defineMacro => "macro"
  | .sandbox => "sandbox"
  | .assign => "set"
  | .useBlocks => "use"
  | .scope => "with"

/-- All tags, in the order of their keywords' registration. -/
def Tag.all : List Tag :=
  [.apply, .autoescape, .block, .cache, .deprecated, .evaluate, .embed, .inherit, .flush, .loop,
   .importNames, .branch, .importAs, .inclusion, .defineMacro, .sandbox, .assign, .useBlocks,
   .scope]

/-- Which simplifications a conversion makes. -/
structure Optimizations where
  /-- Mark only the loops that may use the loop variable. -/
  loopContext : Bool := true
  /-- Drop filters that switch escaping off. -/
  rawFilter : Bool := true
  deriving DecidableEq, Repr

/-- What templates may use and how it is converted. -/
structure Dialect where
  unary : Registry UnaryOperator := {}
  binary : Registry BinaryOperator := {}
  filters : Registry (Callable FilterKind) := {}
  functions : Registry (Callable FunctionKind) := {}
  tests : Registry (Callable TestKind) := {}
  /-- Latte names of filters. -/
  latteFilters : Registry String := {}
  /-- Latte names of functions. -/
  latteFunctions : Registry String := {}
  tags : Registry Tag := {}
  /-- Take unknown filters for generic ones. -/
  acceptFilters : Bool := false
  /-- Take unknown functions for generic ones. -/
  acceptFunctions : Bool := false
  optimizations : Optimizations := {}

namespace Dialect

/-- Every symbol that reads as an operator. -/
def operatorSymbols (dialect : Dialect) : List String :=
  "=" :: (dialect.unary.keys ++ dialect.binary.keys)

def filter? (dialect : Dialect) (name : String) : Option (Callable FilterKind) :=
  match dialect.filters.get? name with
  | some filter => some filter
  | none => if dialect.acceptFilters then some { name, kind := .generic } else none

def function? (dialect : Dialect) (name : String) : Option (Callable FunctionKind) :=
  match dialect.functions.get? name with
  | some function => some function
  | none => if dialect.acceptFunctions then some { name, kind := .generic } else none

def test? (dialect : Dialect) (name : String) : Option (Callable TestKind) :=
  dialect.tests.get? name

def tag? (dialect : Dialect) (keyword : String) : Option Tag := dialect.tags.get? keyword

def latteFilter (dialect : Dialect) (name : String) : String :=
  (dialect.latteFilters.get? name).getD name

def latteFunction (dialect : Dialect) (name : String) : String :=
  (dialect.latteFunctions.get? name).getD name

def addFilter (dialect : Dialect) (filter : Callable FilterKind) : Dialect :=
  { dialect with filters := dialect.filters.insert filter.name filter }

def addFunction (dialect : Dialect) (function : Callable FunctionKind) : Dialect :=
  { dialect with functions := dialect.functions.insert function.name function }

def addTest (dialect : Dialect) (test : Callable TestKind) : Dialect :=
  { dialect with tests := dialect.tests.insert test.name test }

def addUnary (dialect : Dialect) (symbol : String) (operator : UnaryOperator) : Dialect :=
  { dialect with unary := dialect.unary.insert symbol operator }

def addBinary (dialect : Dialect) (symbol : String) (operator : BinaryOperator) : Dialect :=
  { dialect with binary := dialect.binary.insert symbol operator }

def renameFilter (dialect : Dialect) (name latte : String) : Dialect :=
  { dialect with latteFilters := dialect.latteFilters.insert name latte }

def renameFunction (dialect : Dialect) (name latte : String) : Dialect :=
  { dialect with latteFunctions := dialect.latteFunctions.insert name latte }

/-- The record that a dialect has been set up. -/
def readyRecord (dialect : Dialect) : Log.Record :=
  { level := .debug
    message := "Environment ready"
    fields :=
      [("filters", toString dialect.filters.size), ("functions", toString dialect.functions.size),
       ("tests", toString dialect.tests.size), ("tags", toString dialect.tags.size)] }

end Dialect

end TwigToLatte
