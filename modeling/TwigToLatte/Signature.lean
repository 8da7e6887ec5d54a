import TwigToLatte.Expr
import TwigToLatte.Fault
import TwigToLatte.Registry

/-!
# Signatures and the binding of arguments

* `Signature` — the declared parameters of a callable.
* `Callable` — a filter, a function or a test of a dialect.
* `bind` — resolves the arguments of a call against a signature into a positional list. Without
  named arguments a call is taken as it is, unless surplus arguments are collected.
-/

namespace TwigToLatte

/-- A declared parameter; one without a default is required. -/
structure Param where
  name : String
  default : Option Value := none
  deriving Repr

/-- Declared parameters. A variadic callable collects surplus arguments into an array. -/
structure Signature where
  params : List Param := []
  variadic : Bool := false
  deriving Repr

/-- Since when a callable is deprecated and what replaces it. -/
structure Deprecation where
  since : Option String := none
  alternative : Option String := none
  deriving DecidableEq, Repr

/-- A filter, a function or a test. -/
structure Callable (κ : Type) where
  name : String
  kind : κ
  /-- None where only positional arguments are accepted. -/
  signature : Option Signature := none
  deprecation : Option Deprecation := none
  /-- Takes one argument without parentheses. -/
  oneArgument : Bool := false
  deriving Repr

namespace Signature

/-- Whether an unnamed argument follows a named one. -/
def misordered (arguments : List (Argument Expr)) : Bool :=
  (arguments.dropWhile (·.name.isNone)).any (·.name.isNone)

/-- The values of the positional arguments, in order. -/
def positionals (arguments : List (Argument Expr)) : List Expr :=
  arguments.filterMap fun a => if a.name.isNone then some a.value else none

/-- The values of the named arguments; of two with one name the last counts. -/
def nameds (arguments : List (Argument Expr)) : Registry Expr :=
  Registry.empty.insertAll (arguments.filterMap fun a => a.name.map fun name => (name, a.value))

/-- Arguments in the course of binding. -/
structure Binding where
  positional : List Expr
  named : Registry Expr
  bound : List Expr := []
  /-- Defaults that count only if a later argument follows. -/
  pending : List Expr := []

/-- Binds a value to the next parameter. -/
def Binding.push (binding : Binding) (value : Expr) : Binding :=
  { binding with bound := binding.bound ++ binding.pending ++ [value], pending := [] }

/-- Binds one parameter: to the argument of its name, to the next positional argument, or to its
default. -/
def Binding.param (callee : Callee) (line : Nat) (binding : Binding) (param : Param) :
    Except Fault Binding :=
  match binding.named.get? param.name, binding.positional with
  | some _, _ :: _ => .error ⟨.argumentTwice param.name callee, line⟩
  | some value, [] => .ok { binding.push value with named := binding.named.erase param.name }
  | none, value :: rest => .ok { binding.push value with positional := rest }
  | none, [] =>
    match param.default with
    | some value =>
      .ok { binding with pending := binding.pending ++ [Expr.constant value line] }
    | none => .error ⟨.argumentMissing param.name callee, line⟩

/-- The surplus arguments as elements of an array: positional ones by number, then the others by
name. -/
def Binding.surplus (line : Nat) (binding : Binding) : List (Expr × Expr) :=
  (binding.positional.mapIdx fun i value => (Expr.constant (.int (Int64.ofNat i)) line, value))
    ++ binding.named.entries.map fun entry => (Expr.string entry.1 line, entry.2)

/-- Collects surplus arguments, if there are any. -/
def Binding.collect (line : Nat) (binding : Binding) : Binding :=
  match binding.surplus line with
  | [] => binding
  | items => { binding.push { kind := .array items, line } with positional := [], named := {} }

/-- The names of the arguments left over; positional ones are named by their place. -/
def Binding.leftovers (binding : Binding) : List String :=
  binding.named.keys
    ++ binding.positional.mapIdx fun i _ => toString (binding.bound.length + i)

/-- Resolves arguments against a signature into a positional list. -/
def bind (callee : Callee) (signature : Option Signature) (arguments : List (Argument Expr))
    (line : Nat) : Except Fault (List (Argument Expr)) :=
  if misordered arguments then .error ⟨.positionalAfterNamed callee, line⟩
  else if arguments.all (·.name.isNone) && !signature.any (·.variadic) then .ok arguments
  else
    match signature with
    | none => .error ⟨.namedUnsupported callee, line⟩
    | some signature => do
      let start : Binding := { positional := positionals arguments, named := nameds arguments }
      let binding ← signature.params.foldlM (Binding.param callee line) start
      let binding := if signature.variadic then binding.collect line else binding
      match binding.leftovers with
      | [] => .ok (binding.bound.map Argument.positional)
      | unknown =>
        .error ⟨.argumentsUnknown unknown callee (signature.params.map (·.name)), line⟩

end Signature

end TwigToLatte
