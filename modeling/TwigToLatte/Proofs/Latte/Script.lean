import Mathlib.Data.List.Forall2
import TwigToLatte.Proofs.Latte.Capture

/-!
# Scripts of rendering

What is written for a template, laid out as a list of events before anything is written. Running
the events one after the other is rendering the template.

* `Event` — a statement begins, a text is written, a variable is made up, a block begins or ends;
  and the same inside an embedded template.
* `Script.template` — the events of a template, with the body of each block in its place.
* `Script.run` — writes the events.
* `run_template` — **rendering a template is running its script**.
-/

namespace TwigToLatte.Latte

/-! ## Events -/

/-- What happens while a template is rendered. -/
inductive Event where
  /-- A statement other than text, or a macro, of this line begins. -/
  | start (kind : Option Stmt.Kind) (line : Nat)
  | text (r : Rendered)
  /-- A text with a variable that is made up. -/
  | fresh (f : String → Rendered)
  /-- The head of a block. -/
  | block (name : String)
  | endBlock
  /-- An event inside an embedded template. -/
  | inner (event : Event)

/-- What happens, in order. -/
abbrev Script := List Event

/-- The script of a block of a name that stands at a line, in a scope. -/
abbrev BlockScript := String → Nat → Scope → Script

/-- The scripts of the bodies of blocks, each for the scripts of the blocks inside it. -/
abbrev BodyScripts := List (String × (BlockScript → Scope → Script))

def blockHead (name : String) : String := "\x7bblock " ++ name ++ "\x7d"

def Event.run : Event → Emit Unit
  | start _ line => Emit.mark line
  | text r => Emit.rendered r
  | fresh f => do Emit.rendered (f (← Emit.freshName))
  | block name => Emit.text (blockHead name)
  | endBlock => Emit.text "\x7b/block\x7d"
  | inner event => event.run

namespace Script

/-- Writes the events in order. -/
def run : Script → Emit Unit
  | [] => pure ()
  | event :: rest => do
    event.run
    run rest

/-! ## The script of a template -/

def scopeVariables (scope : Scope) : Expr → Script
  | ⟨.array [], _, _⟩ => []
  | ⟨.array items, _, _⟩ => [.text (scopeTag scope items)]
  | e => [.fresh fun name => ("\n\x7bvar $" ++ name ++ " = ") ++ expression scope e ++ "\x7d"]

def scopeOpen (scope : Scope) (bindings : Option Expr) (only : Bool) : Script :=
  .text "\x7bblock\x7d" ::
    match bindings with
    | none => []
    | some e =>
      scopeVariables scope e ++
        if only then [.text "\x7b* WARNING: 'only' is not supported *\x7d"] else []

/-- Blocks that are nested up to the given depth. -/
def blocks (bodies : BodyScripts) : Nat → BlockScript
  | 0 => fun name line _ => [.text (.fail (.undefinedBlock name line))]
  | depth + 1 => fun name line scope =>
    match bodies.lookup name with
    | none => [.text (.fail (.undefinedBlock name line))]
    | some body => .block name :: body (blocks bodies depth) scope ++ [.endBlock]

mutual

def statement : Stmt → BlockScript → Scope → Script
  | ⟨.text text, _⟩, _, _ => [.text text]
  | ⟨kind, line⟩, block, scope => .start kind line :: statementKind kind line block scope

/-- A statement by its form, after it has begun. -/
def statementKind : Stmt.Kind → Nat → BlockScript → Scope → Script
  | .text text, _, _, _ => [.text text]
  | .comment text, _, _, _ => [.text (comment text)]
  | .verbatim text, _, _, _ => [.text (verbatim text)]
  | .print e, _, _, scope => [.text ((expression scope e).map printTag)]
  | .output e, _, _, scope => [.text (expression scope e)]
  | .block name, line, block, scope => block name line scope
  | .loop key value sequence body otherwise _, _, block, scope =>
    .text (loopHead scope key value sequence) :: statements body block (scope.bind key value) ++
      otherwiseBody otherwise block scope ++ [.text "\x7b/foreach\x7d"]
  | .branch branches otherwise, _, block, scope =>
    branchBodies "if" branches block scope ++ otherwiseBody otherwise block scope ++
      [.text "\x7b/if\x7d"]
  | .assign targets, _, _, scope => [.text (assignTag scope targets)]
  | .capture name body, _, block, scope =>
    .text (captureHead name) :: statements body block scope ++ [.text "\x7b/capture\x7d"]
  | .inclusion inclusion, _, _, scope =>
    [.text (tryOpen inclusion),
      .text (inclusionHead scope (if inclusion.sandboxed then "sandbox" else "include") inclusion),
      .text (tryClose inclusion)]
  | .embed inclusion embedded, _, _, scope =>
    .text (tryOpen inclusion) :: .text (inclusionHead scope "embed" inclusion) :: .text "\n" ::
      (template embedded scope).map .inner ++ [.text "\x7b/embed\x7d", .text (tryClose inclusion)]
  | .importAs template _, _, _, scope => [.text (templateTag scope "import" template "\x7d")]
  | .useBlocks template _, _, _, scope => [.text (templateTag scope "import" template "\x7d")]
  | .inherit template, _, _, scope => [.text (templateTag scope "layout" template "\x7d")]
  | .scope bindings only body, _, block, scope =>
    scopeOpen scope bindings only ++ statements body block scope ++ [.text "\x7b/block\x7d"]
  | .apply filter body, _, block, scope =>
    .text ("\x7bblock" ++ expressionAlone scope filter ++ "\x7d") :: statements body block scope ++
      [.text "\x7b/block\x7d"]
  | .autoescape _ body, _, block, scope => statements body block scope
  | .sandbox body, _, block, scope => statements body block scope
  | .cache key ttl tags body, _, block, scope =>
    .text ("\x7bcache " ++ expression scope key ++ cacheOption scope "expire" ttl
        ++ cacheOption scope "tags" tags ++ "\x7d") ::
      statements body block scope ++ [.text "\x7b/cache\x7d"]
  | .evaluate e, _, _, scope => [.text ("\x7bdo " ++ expression scope e ++ "\x7d")]
  | .flush, _, _, _ => [.text "\x7bdo flush()\x7d"]
  | .deprecated message, line, _, scope => [.text (deprecation scope message line)]

def statements : List Stmt → BlockScript → Scope → Script
  | [], _, _ => []
  | stmt :: rest, block, scope => statement stmt block scope ++ statements rest block scope

/-- The alternative of a loop or a branch. -/
def otherwiseBody : Option (List Stmt) → BlockScript → Scope → Script
  | none, _, _ => []
  | some body, block, scope => .text "\x7belse\x7d" :: statements body block scope

/-- The branches of a condition, the first one under the given tag. -/
def branchBodies (tag : String) : List (Expr × List Stmt) → BlockScript → Scope → Script
  | [], _, _ => []
  | (test, body) :: rest, block, scope =>
    .text (("\x7b" ++ tag ++ " ") ++ expression scope test ++ "\x7d") ::
      statements body block scope ++ branchBodies "elseif" rest block scope

def blockBodies : List (String × Block) → BodyScripts
  | [] => []
  | (name, ⟨body, _⟩) :: rest => (name, statements body) :: blockBodies rest

def macroDefs : List (String × MacroDef) → BlockScript → Scope → Script
  | [], _, _ => []
  | (name, ⟨params, body, line⟩) :: rest, block, scope =>
    .start none line :: .text (macroHead scope name params) :: statements body block scope ++
      .text "\x7b/define\x7d" :: macroDefs rest block scope

def template : Template → Scope → Script
  | ⟨body, blocks, macros, _, _⟩, scope =>
    let block := Script.blocks (blockBodies blocks) blocks.length
    statements body block scope ++ macroDefs macros block scope

end

/-! ## Running a script -/

@[simp] theorem run_nil : run [] = pure () := rfl

@[simp] theorem run_cons (event : Event) (rest : Script) :
    run (event :: rest) = (do event.run; run rest) := rfl

/-- The rest of a script runs where its first event has left off. -/
theorem run_cons_apply (event : Event) (rest : Script) (out : Output) :
    run (event :: rest) out =
      match event.run out with
      | .ok _ middle => run rest middle
      | .error error middle => .error error middle := by
  simp only [run_cons, Bind.bind, EStateM.bind]
  cases event.run out <;> rfl

@[simp] theorem run_append (a b : Script) : run (a ++ b) = (do run a; run b) := by
  induction a with
  | nil => simp
  | cons event rest ih => simp [ih]

@[simp] theorem run_inner (script : Script) : run (script.map .inner) = run script := by
  induction script with
  | nil => rfl
  | cons event rest ih => rw [List.map_cons, run_cons, run_cons, ih, Event.run]

end Script

def BlockScript.writer (block : BlockScript) : BlockWriter :=
  fun name line scope => (block name line scope).run

namespace Script

theorem run_scopeOpen (scope : Scope) (bindings : Option Expr) (only : Bool) :
    run (scopeOpen scope bindings only) = Latte.scopeOpen scope bindings only := by
  have hvariables : ∀ e, run (scopeVariables scope e) = Latte.scopeVariables scope e := by
    intro e
    unfold scopeVariables Latte.scopeVariables
    split
    · rfl
    · simp [Event.run]
    · simp [Event.run]
  cases bindings with
  | none => simp [scopeOpen, Latte.scopeOpen, Event.run]
  | some e => cases only <;> simp [scopeOpen, Latte.scopeOpen, Event.run, hvariables]

/-- Bodies of blocks under the same names, the second of which run the first. -/
abbrev RunBy : BodyScripts → BlockBodies → Prop :=
  List.Forall₂ fun script body =>
    script.1 = body.1 ∧ ∀ block scope, (script.2 block scope).run = body.2 block.writer scope

/-- The writer of blocks runs the scripts of blocks, to whatever depth. -/
theorem writer_blocks {scripts : BodyScripts} {bodies : BlockBodies} (h : RunBy scripts bodies)
    (depth : Nat) : (blocks scripts depth).writer = writeBlocks bodies depth := by
  have hlookup : ∀ name, (scripts.lookup name = none ∧ bodies.lookup name = none) ∨
      ∃ script body, scripts.lookup name = some script ∧ bodies.lookup name = some body ∧
        ∀ block scope, (script block scope).run = body block.writer scope := by
    intro name
    induction h with
    | nil => exact .inl ⟨rfl, rfl⟩
    | @cons script body scripts bodies hhead _ ih =>
      obtain ⟨script_name, script⟩ := script
      obtain ⟨body_name, body⟩ := body
      obtain ⟨rfl, hrun⟩ := hhead
      rw [List.lookup_cons, List.lookup_cons]
      cases name == script_name with
      | true => exact .inr ⟨script, body, rfl, rfl, hrun⟩
      | false => exact ih
  have hfail : ∀ name line, run [.text (.fail (.undefinedBlock name line))] =
      throw (.undefinedBlock name line) := by
    intro name line
    simp [Event.run, Emit.rendered_fail]
  induction depth with
  | zero =>
    funext name line scope
    exact hfail name line
  | succ depth ih =>
    funext name line scope
    rw [writeBlocks, inlineBlock, ← ih, BlockScript.writer, blocks]
    dsimp only
    rcases hlookup name with ⟨hscript, hbody⟩ | ⟨script, body, hscript, hbody, hrun⟩
    · rw [hscript, hbody]
      exact hfail name line
    · rw [hscript, hbody]
      simp [Event.run, hrun, blockHead]

mutual

theorem run_statement (block : BlockScript) : ∀ (stmt : Stmt) (scope : Scope),
    run (statement stmt block scope) = Latte.statement stmt block.writer scope
  | ⟨kind, line⟩, scope => by
    have hkind := run_statementKind block line kind scope
    cases kind <;> simp [statement, Latte.statement, Event.run, hkind]

theorem run_statementKind (block : BlockScript) (line : Nat) :
    ∀ (kind : Stmt.Kind) (scope : Scope),
      run (statementKind kind line block scope) = Latte.statementKind kind line block.writer scope
  | .text _, _ | .comment _, _ | .verbatim _, _ | .print _, _ | .output _, _ | .assign _, _
  | .inclusion _, _ | .importAs _ _, _ | .useBlocks _ _, _ | .inherit _, _ | .evaluate _, _
  | .flush, _ | .deprecated _, _ => by
    simp [statementKind, Latte.statementKind, Event.run]
  | .block _, _ => by simp [statementKind, Latte.statementKind, BlockScript.writer]
  | .loop _ _ _ body otherwise _, _ => by
    simp [statementKind, Latte.statementKind, Event.run, run_statements block body,
      run_otherwiseBody block otherwise]
  | .branch branches otherwise, _ => by
    simp [statementKind, Latte.statementKind, Event.run, run_branchBodies block branches,
      run_otherwiseBody block otherwise]
  | .embed _ embedded, _ => by
    simp [statementKind, Latte.statementKind, Event.run, run_template embedded]
  | .scope _ _ body, _ => by
    simp [statementKind, Latte.statementKind, Event.run, run_statements block body, run_scopeOpen]
  | .capture _ body, _ | .apply _ body, _ | .autoescape _ body, _ | .sandbox body, _
  | .cache _ _ _ body, _ => by
    simp [statementKind, Latte.statementKind, Event.run, run_statements block body]

theorem run_statements (block : BlockScript) : ∀ (body : List Stmt) (scope : Scope),
    run (statements body block scope) = Latte.statements body block.writer scope
  | [], _ => rfl
  | stmt :: rest, scope => by
    simp [statements, Latte.statements, run_statement block stmt, run_statements block rest]

theorem run_otherwiseBody (block : BlockScript) :
    ∀ (otherwise : Option (List Stmt)) (scope : Scope),
      run (otherwiseBody otherwise block scope) = Latte.otherwiseBody otherwise block.writer scope
  | none, _ => rfl
  | some body, _ => by
    simp [otherwiseBody, Latte.otherwiseBody, Event.run, run_statements block body]

theorem run_branchBodies (block : BlockScript) :
    ∀ (branches : List (Expr × List Stmt)) (tag : String) (scope : Scope),
      run (branchBodies tag branches block scope) =
        Latte.branchBodies tag branches block.writer scope
  | [], _, _ => rfl
  | (_, body) :: rest, _, _ => by
    simp [branchBodies, Latte.branchBodies, Event.run, run_statements block body,
      run_branchBodies block rest]

theorem run_macroDefs (block : BlockScript) :
    ∀ (macros : List (String × MacroDef)) (scope : Scope),
      run (macroDefs macros block scope) = Latte.macroDefs macros block.writer scope
  | [], _ => rfl
  | (_, ⟨_, body, _⟩) :: rest, _ => by
    simp [macroDefs, Latte.macroDefs, Event.run, run_statements block body,
      run_macroDefs block rest]

theorem runBy_blockBodies : ∀ (table : List (String × Block)),
    RunBy (blockBodies table) (Latte.blockBodies table)
  | [] => .nil
  | (_, ⟨body, _⟩) :: rest =>
    .cons ⟨rfl, fun block scope => run_statements block body scope⟩ (runBy_blockBodies rest)

/-- **Rendering a template is running its script.** -/
theorem run_template : ∀ (t : Template) (scope : Scope),
    run (template t scope) = Latte.template t scope
  | ⟨body, table, macros, _, _⟩, scope => by
    rw [template, Latte.template, ← writer_blocks (runBy_blockBodies table)]
    simp only [run_append, run_statements _ body, run_macroDefs _ macros]

end

end Script

end TwigToLatte.Latte
