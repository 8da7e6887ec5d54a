import TwigToLatte.Pass

/-!
# Latte idioms

* `latteIdioms` — replaces what Latte writes in another way: explicit escaping is dropped, filters
  on collections become function calls, hashes of CSS classes become conditions, and printed
  inclusions and macro calls become statements. Printed expressions lose their own parentheses.
-/

namespace TwigToLatte

/-- The functions that filters on collections become. -/
def filterFunctions : List (String × String) :=
  [("reduce", "array_reduce"), ("merge", "array_merge"), ("map", "array_map"),
   ("filter", "array_filter"), ("column", "array_column"), ("keys", "array_keys"),
   ("json_encode", "json_encode")]

/-- Whether a filter escapes, which Latte does by itself. -/
def isEscape (name : String) : Bool := name == "escape" || name == "e"

/-- The arguments of the function that a filter becomes: the operand first, but last where the
function takes its callback first. -/
def functionArguments (filter : String) (operand : Expr) (list : List (Argument Expr)) :
    List (Argument Expr) :=
  let list := .positional operand :: list
  if filter == "map" then list.reverse else list

/-- Each element of a hash of CSS classes as a condition for its class. -/
def expandClasses (argument : Argument Expr) : List (Argument Expr) :=
  match argument.value with
  | ⟨.array items, line, _⟩ =>
    items.map fun (key, value) =>
      .positional { kind := .conditional value key (Expr.constant .null line), line }
  | _ => [argument]

/-- An expression in Latte's idiom. -/
def Expr.idiom (e : Expr) : Expr :=
  match e.kind with
  | .filter operand name list =>
    if isEscape name then operand
    else
      match filterFunctions.lookup name with
      | some function =>
        { kind := .function function .generic (functionArguments name operand list) false
          line := e.line }
      | none => e
  | .function "html_classes" kind list defined =>
    { e with kind := .function "html_classes" kind (list.flatMap expandClasses) defined }
  | _ => e

/-- Whether a printed expression is a statement in Latte. -/
def Expr.isStatement (e : Expr) : Bool :=
  match e.kind with
  | .function _ .inclusion _ _ | .macroCall .. => true
  | _ => false

/-- A statement in Latte's idiom. -/
def Stmt.idiom (stmt : Stmt) : Stmt :=
  match stmt.kind with
  | .print e =>
    let e := { e with topmost := true }
    ⟨if e.isStatement then .output e else .print e, stmt.line⟩
  | _ => stmt

def latteIdioms : Pass Unit where
  name := "latte"
  priority := 255
  leaveStmt stmt := return some stmt.idiom
  leaveExpr e := return e.idiom

end TwigToLatte
