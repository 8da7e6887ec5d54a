import TwigToLatte.Template

/-!
# Passes over a template

* `Pass` — what a pass does on the way down to a part of a template and on the way up from it,
  where it may replace the part; a statement may also be dropped. A pass has a state of its own.
* `Pass.template` — the walk over a whole template: its body, its blocks, its macros and its
  parent, in this order. An embedded template is walked as a template inside its statement.
* `Pass.run` — the template that a pass makes of a template, and the state it ends in.
* `Stage` — a pass with its initial state, ready to run.
-/

namespace TwigToLatte

/-- A pass over a template with states `σ`. Without further ado it changes nothing. -/
structure Pass (σ : Type) where
  name : String
  /-- Passes run in ascending order of priority. -/
  priority : Int := 0
  enterTemplate : Template → StateM σ Unit := fun _ => pure ()
  leaveTemplate : Template → StateM σ Template := pure
  enterStmt : Stmt → StateM σ Unit := fun _ => pure ()
  leaveStmt : Stmt → StateM σ (Option Stmt) := fun stmt => pure (some stmt)
  enterExpr : Expr → StateM σ Unit := fun _ => pure ()
  leaveExpr : Expr → StateM σ Expr := pure

namespace Pass

variable {σ : Type}

/-! ## Expressions -/

mutual

def expr (p : Pass σ) : Expr → StateM σ Expr
  | ⟨kind, line, topmost⟩ => do
    p.enterExpr ⟨kind, line, topmost⟩
    let kind ← p.exprKind kind
    p.leaveExpr ⟨kind, line, topmost⟩

/-- The parts of an expression, from left to right. -/
def exprKind (p : Pass σ) : Expr.Kind → StateM σ Expr.Kind
  | .constant value => pure (.constant value)
  | .name name defined => pure (.name name defined)
  | .target name => pure (.target name)
  | .array items => do return .array (← p.items items)
  | .unary op operand => do return .unary op (← p.expr operand)
  | .binary op left right => do
    let left ← p.expr left
    return .binary op left (← p.expr right)
  | .conditional test yes no => do
    let test ← p.expr test
    let yes ← p.expr yes
    return .conditional test yes (← p.expr no)
  | .access object key list call defined => do
    let object ← p.expr object
    let key ← p.expr key
    return .access object key (← p.exprs list) call defined
  | .macroCall object method list defined => do
    let object ← p.expr object
    return .macroCall object method (← p.arguments list) defined
  | .filter operand name list => do
    let operand ← p.expr operand
    return .filter operand name (← p.arguments list)
  | .function name kind list defined => do
    return .function name kind (← p.arguments list) defined
  | .test operand name kind list => do
    let operand ← p.expr operand
    return .test operand name kind (← p.arguments list)
  | .arrow names body => do return .arrow names (← p.expr body)
  | .blockCall name template defined output => do
    let name ← p.expr name
    return .blockCall name (← p.optionalExpr template) defined output
  | .parent block output => pure (.parent block output)
  | .applyTarget => pure .applyTarget

def exprs (p : Pass σ) : List Expr → StateM σ (List Expr)
  | [] => pure []
  | e :: rest => do
    let e ← p.expr e
    return e :: (← p.exprs rest)

def items (p : Pass σ) : List (Expr × Expr) → StateM σ (List (Expr × Expr))
  | [] => pure []
  | (key, value) :: rest => do
    let key ← p.expr key
    let value ← p.expr value
    return (key, value) :: (← p.items rest)

def arguments (p : Pass σ) : List (Argument Expr) → StateM σ (List (Argument Expr))
  | [] => pure []
  | ⟨name, value⟩ :: rest => do
    let value ← p.expr value
    return ⟨name, value⟩ :: (← p.arguments rest)

def optionalExpr (p : Pass σ) : Option Expr → StateM σ (Option Expr)
  | none => pure none
  | some e => do return some (← p.expr e)

end

/-- The values that are assigned to variables. -/
def assigned (p : Pass σ) : List (String × Expr) → StateM σ (List (String × Expr))
  | [] => pure []
  | (name, value) :: rest => do
    let value ← p.expr value
    return (name, value) :: (← p.assigned rest)

def inclusion (p : Pass σ) (inclusion : Inclusion) : StateM σ Inclusion := do
  let template ← p.expr inclusion.template
  return { inclusion with template, bindings := ← p.optionalExpr inclusion.bindings }

/-! ## Statements and templates -/

mutual

def stmt (p : Pass σ) : Stmt → StateM σ (Option Stmt)
  | ⟨kind, line⟩ => do
    p.enterStmt ⟨kind, line⟩
    let kind ← p.stmtKind kind
    p.leaveStmt ⟨kind, line⟩

/-- The parts of a statement, from left to right. -/
def stmtKind (p : Pass σ) : Stmt.Kind → StateM σ Stmt.Kind
  | .text text => pure (.text text)
  | .comment text => pure (.comment text)
  | .verbatim text => pure (.verbatim text)
  | .print e => do return .print (← p.expr e)
  | .output e => do return .output (← p.expr e)
  | .block name => pure (.block name)
  | .loop key value sequence body otherwise withLoop => do
    let sequence ← p.expr sequence
    let body ← p.body body
    return .loop key value sequence body (← p.optionalBody otherwise) withLoop
  | .branch branches otherwise => do
    let branches ← p.branches branches
    return .branch branches (← p.optionalBody otherwise)
  | .assign targets => do return .assign (← p.assigned targets)
  | .capture name body => do return .capture name (← p.body body)
  | .inclusion inclusion => do return .inclusion (← p.inclusion inclusion)
  | .embed inclusion template => do
    let inclusion ← p.inclusion inclusion
    return .embed inclusion (← p.template template)
  | .importAs template localName => do return .importAs (← p.expr template) localName
  | .useBlocks template targets => do return .useBlocks (← p.expr template) targets
  | .inherit template => do return .inherit (← p.expr template)
  | .scope bindings only body => do
    let bindings ← p.optionalExpr bindings
    return .scope bindings only (← p.body body)
  | .apply filter body => do
    let filter ← p.expr filter
    return .apply filter (← p.body body)
  | .autoescape strategy body => do return .autoescape strategy (← p.body body)
  | .sandbox body => do return .sandbox (← p.body body)
  | .cache key ttl tags body => do
    let key ← p.expr key
    let ttl ← p.optionalExpr ttl
    let tags ← p.optionalExpr tags
    return .cache key ttl tags (← p.body body)
  | .evaluate e => do return .evaluate (← p.expr e)
  | .flush => pure .flush
  | .deprecated message => do return .deprecated (← p.expr message)

/-- Statements in order, without the dropped ones. -/
def body (p : Pass σ) : List Stmt → StateM σ (List Stmt)
  | [] => pure []
  | stmt :: rest => do
    let stmt ← p.stmt stmt
    return stmt.toList ++ (← p.body rest)

def optionalBody (p : Pass σ) : Option (List Stmt) → StateM σ (Option (List Stmt))
  | none => pure none
  | some body => do return some (← p.body body)

def branches (p : Pass σ) : List (Expr × List Stmt) → StateM σ (List (Expr × List Stmt))
  | [] => pure []
  | (test, body) :: rest => do
    let test ← p.expr test
    let body ← p.body body
    return (test, body) :: (← p.branches rest)

def blocks (p : Pass σ) : List (String × Block) → StateM σ (List (String × Block))
  | [] => pure []
  | (name, ⟨body, line⟩) :: rest => do
    let body ← p.body body
    return (name, ⟨body, line⟩) :: (← p.blocks rest)

def macros (p : Pass σ) : List (String × MacroDef) → StateM σ (List (String × MacroDef))
  | [] => pure []
  | (name, ⟨params, body, line⟩) :: rest => do
    let params ← p.assigned params
    let body ← p.body body
    return (name, ⟨params, body, line⟩) :: (← p.macros rest)

def template (p : Pass σ) : Template → StateM σ Template
  | ⟨body, blocks, macros, parent, setup⟩ => do
    p.enterTemplate ⟨body, blocks, macros, parent, setup⟩
    let body ← p.body body
    let blocks ← p.blocks blocks
    let macros ← p.macros macros
    let parent ← p.optionalExpr parent
    p.leaveTemplate ⟨body, blocks, macros, parent, setup⟩

end

/-- Walks a template from an initial state. -/
def run (p : Pass σ) (start : σ) (template : Template) : Template × σ := p.template template start

end Pass

/-- A pass with its initial state. -/
structure Stage where
  name : String
  priority : Int
  run : Template → Template

def Pass.stage {σ : Type} (p : Pass σ) (start : σ) : Stage :=
  ⟨p.name, p.priority, fun template => (p.run start template).1⟩

/-- Stages in ascending order of priority; equal priorities keep their order. -/
def Stage.order (stages : List Stage) : List Stage :=
  stages.mergeSort fun a b => decide (a.priority ≤ b.priority)

end TwigToLatte
