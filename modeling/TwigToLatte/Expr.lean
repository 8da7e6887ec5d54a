import TwigToLatte.Value

/-!
# Expressions

* `Expr` — an expression with the line it comes from. `Expr.Kind` lists the forms.
* `Argument` — an argument of a call, named or positional.
* `Expr.string`, `Expr.name`, … — expressions made from parts.
* `Expr.constant?`, `Expr.string?` — the constant that an expression is.
-/

namespace TwigToLatte

inductive UnaryOp where
  | not
  | neg
  | pos
  deriving DecidableEq, Repr

inductive BinaryOp where
  | or
  | and
  | bitOr
  | bitXor
  | bitAnd
  | equal
  | notEqual
  | spaceship
  | less
  | greater
  | greaterEqual
  | lessEqual
  | notIn
  | isIn
  | matchesPattern
  | startsWith
  | endsWith
  | range
  | add
  | sub
  | concat
  | mul
  | div
  | floorDiv
  | mod
  | power
  | nullCoalesce
  deriving DecidableEq, Repr

/-- How an attribute is reached. -/
inductive CallStyle where
  | any
  | array
  | method
  deriving DecidableEq, Repr

/-- How a function is rendered. -/
inductive FunctionKind where
  | generic
  /-- The function that includes another template. -/
  | inclusion
  deriving DecidableEq, Repr

/-- How a filter is read. -/
inductive FilterKind where
  | generic
  /-- The filter that supplies a value where a variable has none. -/
  | fallback
  deriving DecidableEq, Repr

/-- How a test is rendered. -/
inductive TestKind where
  | generic
  | defined
  | null
  | even
  | odd
  | divisibleBy
  | sameAs
  | constant
  deriving DecidableEq, Repr

/-- An argument of a call; a positional one has no name. -/
structure Argument (α : Type) where
  name : Option String := none
  value : α
  deriving Repr

mutual

/-- An expression and its line. A `topmost` expression is all of a print statement and needs no
parentheses of its own. -/
structure Expr where
  kind : Expr.Kind
  line : Nat
  topmost : Bool := false

/-- The forms of expressions. The flag `defined` marks the operand of a test for existence. -/
inductive Expr.Kind where
  | constant (value : Value)
  | name (name : String) (defined : Bool)
  /-- A variable that is assigned to. -/
  | target (name : String)
  /-- An array or a hash, as ordered pairs of key and value. -/
  | array (items : List (Expr × Expr))
  | unary (op : UnaryOp) (operand : Expr)
  | binary (op : BinaryOp) (left right : Expr)
  | conditional (test yes no : Expr)
  /-- An attribute, an element or a method of an object. -/
  | access (object key : Expr) (arguments : List Expr) (call : CallStyle) (defined : Bool)
  /-- A macro called through an imported name. -/
  | macroCall (object : Expr) (method : String) (arguments : List (Argument Expr)) (defined : Bool)
  | filter (operand : Expr) (name : String) (arguments : List (Argument Expr))
  | function (name : String) (kind : FunctionKind) (arguments : List (Argument Expr))
      (defined : Bool)
  | test (operand : Expr) (name : String) (kind : TestKind) (arguments : List (Argument Expr))
  /-- An anonymous function. -/
  | arrow (names : List String) (body : Expr)
  /-- The content of a block; `output` once it is a statement of its own. -/
  | blockCall (name : Expr) (template : Option Expr) (defined output : Bool)
  /-- The content that the parent template gives the block. -/
  | parent (block : String) (output : Bool)
  /-- The text that an `apply` region hands to its filters. -/
  | applyTarget

end

def Argument.positional {α : Type} (value : α) : Argument α := ⟨none, value⟩

namespace Expr

def constant (value : Value) (line : Nat) : Expr := { kind := .constant value, line }

instance : Inhabited Expr := ⟨constant .null 0⟩

def string (value : String) (line : Nat) : Expr := constant (.string value) line

def name (name : String) (line : Nat) : Expr := { kind := .name name false, line }

def binary (op : BinaryOp) (left right : Expr) (line : Nat) : Expr :=
  { kind := .binary op left right, line }

def constant? (e : Expr) : Option Value :=
  match e.kind with
  | .constant value => some value
  | _ => none

def string? (e : Expr) : Option String := e.constant?.bind Value.string?

def isNull (e : Expr) : Bool :=
  match e.kind with
  | .constant .null => true
  | _ => false

/-- Whether the expression is a variable of the given name. -/
def isName (name : String) (e : Expr) : Bool :=
  match e.kind with
  | .name n _ => n == name
  | _ => false

end Expr

end TwigToLatte
