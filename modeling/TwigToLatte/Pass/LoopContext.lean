import TwigToLatte.Dialect
import TwigToLatte.Pass

/-!
# The loop variable and plain output

* `simplify` — marks the loops whose body may use the loop variable, drops the filters that switch
  escaping off, and makes statements of printed blocks.

A loop needs its context if its body names the loop variable, calls a block or the parent, or
includes a template that sees the variables. The state holds the open loops, innermost first.
-/

namespace TwigToLatte

/-- An open loop: whether it needs its context, and the variables it assigns. -/
structure LoopScope where
  withLoop : Bool
  targets : List String
  deriving DecidableEq, Repr

namespace LoopScope

/-- The innermost loop needs its context. -/
def markInnermost : List LoopScope → List LoopScope
  | [] => []
  | scope :: outer => { scope with withLoop := true } :: outer

/-- Every open loop needs its context. -/
def markAll (scopes : List LoopScope) : List LoopScope :=
  scopes.map fun scope => { scope with withLoop := true }

/-- Whether the expression is the loop variable and not a variable of a loop. -/
def isLoopVariable (scopes : List LoopScope) (e : Expr) : Bool :=
  e.isName "loop" && !scopes.any (·.targets.contains "loop")

/-- Whether an inclusion by function keeps the variables from the included template. -/
def withoutContext (list : List (Argument Expr)) : Bool :=
  match list with
  | _ :: _ :: ⟨_, ⟨.constant (.bool false), _, _⟩⟩ :: _ => true
  | _ => false

/-- Whether an attribute may lead to an outer loop: the parent, or a computed one. -/
def mayLeadOut (key : Expr) : Bool :=
  match key.constant? with
  | some value => value.string? == some "parent"
  | none => true

/-- What a statement tells about the open loops. -/
def enterStmt (stmt : Stmt) (scopes : List LoopScope) : List LoopScope :=
  match stmt.kind with
  | .loop key value _ _ _ _ => ⟨false, value :: key.toList⟩ :: scopes
  | .block _ => markInnermost scopes
  | .inclusion inclusion | .embed inclusion _ => if inclusion.only then scopes else markAll scopes
  | _ => scopes

/-- What an expression tells about the open loops. -/
def enterExpr (e : Expr) (scopes : List LoopScope) : List LoopScope :=
  match e.kind with
  | .name .. => if isLoopVariable scopes e then markInnermost scopes else scopes
  | .blockCall .. | .parent .. => markInnermost scopes
  | .function name _ list _ =>
    if name == "include" && !withoutContext list then markAll scopes else scopes
  | .access object key _ _ _ =>
    if mayLeadOut key && (scopes.head?.any (·.withLoop) || isLoopVariable scopes object) then
      markAll scopes
    else scopes
  | _ => scopes

/-- A loop with the mark that its scope has gathered. -/
def close (stmt : Stmt) (scopes : List LoopScope) : Stmt × List LoopScope :=
  match stmt.kind, scopes with
  | .loop key value sequence body otherwise _, scope :: outer =>
    (⟨.loop key value sequence body otherwise scope.withLoop, stmt.line⟩, outer)
  | _, _ => (stmt, scopes)

end LoopScope

/-- A printed block or parent content as a statement of its own. -/
def Stmt.promoteBlock (stmt : Stmt) : Stmt :=
  match stmt.kind with
  | .print ⟨.blockCall name template defined _, line, topmost⟩ =>
    ⟨.output ⟨.blockCall name template defined true, line, topmost⟩, stmt.line⟩
  | .print ⟨.parent block _, line, topmost⟩ =>
    ⟨.output ⟨.parent block true, line, topmost⟩, stmt.line⟩
  | _ => stmt

/-- The operand of a filter that switches escaping off. -/
def Expr.dropRaw (e : Expr) : Expr :=
  match e.kind with
  | .filter operand "raw" _ => operand
  | _ => e

/-- Loop contexts, raw filters and printed blocks. -/
def simplify (optimizations : Optimizations) : Pass (List LoopScope) where
  name := "optimizer"
  priority := 255
  enterStmt stmt := if optimizations.loopContext then modify (LoopScope.enterStmt stmt) else pure ()
  leaveStmt stmt := do
    let stmt ← if optimizations.loopContext then modifyGet (LoopScope.close stmt) else pure stmt
    return some stmt.promoteBlock
  enterExpr e := if optimizations.loopContext then modify (LoopScope.enterExpr e) else pure ()
  leaveExpr e := return if optimizations.rawFilter then e.dropRaw else e

end TwigToLatte
