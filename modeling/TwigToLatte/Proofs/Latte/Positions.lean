import TwigToLatte.Proofs.Latte.Blocks
import TwigToLatte.Proofs.Template.Expressions

/-!
# Positions in a template

Statements are written in a scope that depends on where they stand: the variables of a loop are
bound in its body, and a block or an embedded template is written in the scope of its place.

* `Position` — statements, with the loops around them and the scope in which they are written.
* `Position.Step`, `Position.Reached` — the way from statements to the statements inside them, as
  they are written.
* `Position.Reads` — an expression of the statements, and the loops around it.
* `Script.Inside` — a script that is a part of another one.
* `Reached.within` — **what stands at a position is written in its scope**: the script of its
  statements is a part of the script of the template.
* `Reached.bound` — the variables of a loop are bound wherever its body is around.
-/

namespace TwigToLatte

open List

/-! ## Positions -/

inductive LoopPart where
  | sequence
  | body
  /-- The alternative to an empty sequence. -/
  | otherwise
  deriving DecidableEq, Repr

/-- A loop around a position: the part of it that holds the position, the variables that it assigns
and its mark. -/
structure LoopFrame where
  part : LoopPart
  targets : List String
  withLoop : Bool
  deriving DecidableEq, Repr

/-- Statements of a template, where they are written. -/
structure Position where
  /-- The template whose blocks have their places among the statements. -/
  template : Template
  /-- The loops around the template, innermost first. -/
  outer : List LoopFrame
  /-- The loops around the statements inside the template, innermost first. -/
  inner : List LoopFrame
  scope : Latte.Scope
  stmts : List Stmt

/-- The statements inside a statement that is no loop. -/
def Stmt.Kind.innerBodies : Stmt.Kind → List (List Stmt)
  | .branch branches otherwise => branches.map Prod.snd ++ otherwise.toList
  | .capture _ body | .autoescape _ body | .sandbox body | .scope _ _ body | .apply _ body
  | .cache _ _ _ body => [body]
  | _ => []

/-- The statements of a template that are written without the place of a block. -/
def Template.entries (t : Template) : List (List Stmt) :=
  t.body :: t.macros.map fun definition => definition.2.body

theorem Stmt.Kind.body_mem_pieces {kind : Stmt.Kind} {body : List Stmt}
    (h : body ∈ kind.innerBodies) : .body body ∈ kind.pieces := by
  cases kind with
  | branch branches otherwise =>
    rw [pieces, mem_append, ← Piece.mem_filterMap_body?, filterMap_body?_branchPieces]
    exact (mem_append.mp h).imp_right mem_map_of_mem
  | _ => simp_all [innerBodies, pieces]

theorem Template.body_mem_pieces {t : Template} {body : List Stmt} (h : body ∈ t.entries) :
    .body body ∈ t.pieces := by
  rw [← Piece.mem_filterMap_body?, pieces, filterMap_append, filterMap_append,
    filterMap_body?_macroPieces]
  rcases mem_cons.mp h with rfl | h
  · exact mem_cons_self
  · exact mem_append_left _ (mem_append_right _ h)

namespace Position

/-- From statements to those inside one of them. The variables of a loop are bound in its body
only. -/
inductive Step (p : Position) : Position → Prop
  | loopBody {key : Option String} {value : String} {sequence : Expr} {body : List Stmt}
      {otherwise : Option (List Stmt)} {withLoop : Bool} {line : Nat}
      (h : ⟨.loop key value sequence body otherwise withLoop, line⟩ ∈ p.stmts) :
      p.Step { p with
        inner := ⟨.body, value :: key.toList, withLoop⟩ :: p.inner
        scope := p.scope.bind key value
        stmts := body }
  | loopOtherwise {key : Option String} {value : String} {sequence : Expr}
      {body otherwise : List Stmt} {withLoop : Bool} {line : Nat}
      (h : ⟨.loop key value sequence body (some otherwise) withLoop, line⟩ ∈ p.stmts) :
      p.Step { p with
        inner := ⟨.otherwise, value :: key.toList, withLoop⟩ :: p.inner
        stmts := otherwise }
  | inside {kind : Stmt.Kind} {line : Nat} {body : List Stmt} (h : ⟨kind, line⟩ ∈ p.stmts)
      (hbody : body ∈ kind.innerBodies) : p.Step { p with stmts := body }
  | block {name : String} {line : Nat} {block : Block} (h : ⟨.block name, line⟩ ∈ p.stmts)
      (hblock : p.template.blocks.lookup name = some block) :
      p.Step { p with inner := [], stmts := block.body }
  | embedded {included : Inclusion} {t : Template} {line : Nat} {stmts : List Stmt}
      (h : ⟨.embed included t, line⟩ ∈ p.stmts) (hstmts : stmts ∈ t.entries) :
      p.Step ⟨t, p.inner ++ p.outer, [], p.scope, stmts⟩

/-- The positions in a template that is written in a scope. -/
inductive Reached (root : Template) (scope : Latte.Scope) : Position → Prop
  | start {stmts : List Stmt} (h : stmts ∈ root.entries) :
      Reached root scope ⟨root, [], [], scope, stmts⟩
  | step {p q : Position} (h : Reached root scope p) (hstep : p.Step q) : Reached root scope q

/-- An expression stands in one of the statements, with these loops of the template around it. -/
inductive Reads (p : Position) : List LoopFrame → Expr → Prop
  | statement {kind : Stmt.Kind} {line : Nat} {root x : Expr} (h : ⟨kind, line⟩ ∈ p.stmts)
      (hloop : kind.isLoop = false) (hroot : root ∈ kind.roots) (hx : x ∈ root.parts) :
      p.Reads p.inner x
  | sequence {key : Option String} {value : String} {sequence : Expr} {body : List Stmt}
      {otherwise : Option (List Stmt)} {withLoop : Bool} {line : Nat} {x : Expr}
      (h : ⟨.loop key value sequence body otherwise withLoop, line⟩ ∈ p.stmts)
      (hx : x ∈ sequence.parts) :
      p.Reads (⟨.sequence, value :: key.toList, withLoop⟩ :: p.inner) x

end Position

/-! ## Scripts inside scripts -/

namespace Latte.Script

/-- A script is a part of another one, perhaps of that of a template that embeds its own. -/
inductive Inside (a : Script) : Script → Prop
  | self : Inside a a
  | left {b : Script} (h : Inside a b) (after : Script) : Inside a (b ++ after)
  | right (before : Script) {b : Script} (h : Inside a b) : Inside a (before ++ b)
  | inner {b : Script} (h : Inside a b) : Inside a (b.map .inner)

namespace Inside

variable {a b c : Script}

theorem trans (h : Inside a b) (h' : Inside b c) : Inside a c := by
  induction h' with
  | self => exact h
  | left _ after ih => exact ih.left after
  | right before _ ih => exact ih.right before
  | inner _ ih => exact ih.inner

/-- Where a script is written without errors, so are its parts. -/
theorem run_ok (h : Inside a b) {out after : Output} (hrun : run b out = .ok () after) :
    ∃ out after, run a out = .ok () after := by
  have happend : ∀ {a b : Script} {out after : Output}, run (a ++ b) out = .ok () after →
      ∃ middle, run a out = .ok () middle ∧ run b middle = .ok () after := by
    intro a b out after hrun
    rw [run_append] at hrun
    simp only [Bind.bind, EStateM.bind] at hrun
    split at hrun
    · exact ⟨_, ‹_›, hrun⟩
    · cases hrun
  induction h generalizing out after with
  | self => exact ⟨out, after, hrun⟩
  | left _ _ ih =>
    obtain ⟨_, hrun, -⟩ := happend hrun
    exact ih hrun
  | right _ _ ih =>
    obtain ⟨_, -, hrun⟩ := happend hrun
    exact ih hrun
  | inner _ ih => exact ih (run_inner _ ▸ hrun)

variable {block : BlockScript} {scope : Scope} {stmts body : List Stmt}

theorem statement {stmt : Stmt} (h : stmt ∈ stmts) :
    Inside (Script.statement stmt block scope) (statements stmts block scope) := by
  induction stmts with
  | nil => cases h
  | cons first rest ih =>
    rcases mem_cons.mp h with rfl | h
    · exact .left .self _
    · exact .right _ (ih h)

/-- What is written for a statement after it has begun. -/
theorem kind {kind : Stmt.Kind} {line : Nat} (h : ⟨kind, line⟩ ∈ stmts) :
    Inside (statementKind kind line block scope) (statements stmts block scope) := by
  refine .trans ?_ (statement h)
  cases kind <;> first | exact .self | exact .right [_] .self

theorem otherwise : Inside (statements body block scope) (otherwiseBody (some body) block scope) :=
  .right [_] .self

theorem branch {branches : List (Expr × List Stmt)} (h : body ∈ branches.map Prod.snd)
    (tag : String) :
    Inside (statements body block scope) (branchBodies tag branches block scope) := by
  induction branches generalizing tag with
  | nil => cases h
  | cons first rest ih =>
    rcases mem_cons.mp h with rfl | h
    · exact .left (.right [_] .self) _
    · exact .right (_ :: statements first.2 block scope) (ih h _)

theorem innerBody {kind : Stmt.Kind} {line : Nat} (h : body ∈ kind.innerBodies) :
    Inside (statements body block scope) (statementKind kind line block scope) := by
  cases kind with
  | branch branches otherwise =>
    rcases mem_append.mp h with h | h
    · exact .left (.left (branch h _) _) _
    · cases Option.mem_toList.mp h
      exact .left (.right _ Inside.otherwise) _
  | capture | apply | cache =>
    cases mem_singleton.mp h
    exact .left (.right [_] .self) _
  | scope =>
    cases mem_singleton.mp h
    exact .left (.right _ .self) _
  | autoescape | sandbox =>
    cases mem_singleton.mp h
    exact .self
  | _ => cases h

theorem define {macros : List (String × MacroDef)} (h : body ∈ macros.map (·.2.body)) :
    Inside (statements body block scope) (macroDefs macros block scope) := by
  induction macros with
  | nil => cases h
  | cons definition rest ih =>
    obtain ⟨name, params, own, line⟩ := definition
    rcases mem_cons.mp h with rfl | h
    · exact .left (.right [_, _] .self) _
    · exact .right (_ :: _ :: statements own block scope) (.right [_] (ih h))

theorem entry {t : Template} (h : stmts ∈ t.entries) :
    Inside (statements stmts (blocks (blockBodies t.blocks) t.blocks.length) scope)
      (template t scope) := by
  cases t
  rcases mem_cons.mp h with rfl | h
  · exact .left .self _
  · exact .right _ (define h)

end Inside

end Latte.Script

namespace Position

open Latte Script

variable {root : Template} {scope : Latte.Scope} {p q : Position}

/-- The script of the statements at a position, with blocks to the given depth. -/
def script (p : Position) (depth : Nat) : Script :=
  statements p.stmts (blocks (blockBodies p.template.blocks) depth) p.scope

theorem Step.within (hstep : p.Step q) {depth : Nat} {out after : Output}
    (hrun : (p.script depth).run out = .ok () after) :
    ∃ depth', Inside (q.script depth') (p.script depth) := by
  cases hstep with
  | loopBody hmem => exact ⟨depth, .trans (.left (.left (.right [_] .self) _) _) (.kind hmem)⟩
  | loopOtherwise hmem => exact ⟨depth, .trans (.left (.right _ .otherwise) _) (.kind hmem)⟩
  | inside hmem hbody => exact ⟨depth, .trans (.innerBody hbody) (.kind hmem)⟩
  | @block name line found hmem hblock =>
    have hplace : Inside _ (p.script depth) := .kind hmem
    cases depth with
    | zero =>
      -- Beyond the depth a block is undefined.
      obtain ⟨out, after, hrun⟩ := hplace.run_ok hrun
      cases hrun
    | succ depth =>
      refine ⟨depth, .trans ?_ hplace⟩
      rw [Script.statementKind, blocks_succ, hblock]
      exact .left (.right [_] .self) _
  | embedded hmem hentry =>
    exact ⟨_, .trans (.left (.right [_, _, _] (.inner (.entry hentry))) _) (.kind hmem)⟩

/-- **What stands at a position is written in its scope**, if the template is written at all. -/
theorem Reached.within (h : Reached root scope p) {out after : Output}
    (hrun : Latte.template root scope out = .ok () after) :
    ∃ depth, Inside (p.script depth) (Script.template root scope) := by
  rw [← run_template] at hrun
  induction h with
  | start hstmts => exact ⟨_, .entry hstmts⟩
  | step _ hstep ih =>
    obtain ⟨depth, hp⟩ := ih
    obtain ⟨_, _, hscript⟩ := hp.run_ok hrun
    obtain ⟨depth', hq⟩ := hstep.within hscript
    exact ⟨depth', hq.trans hp⟩

/-! ## Bound variables -/

theorem mem_bind {key : Option String} {value name : String} :
    name ∈ (scope.bind key value).bound ↔ name ∈ scope.bound ∨ name ∈ value :: key.toList := by
  simp only [Latte.Scope.bind, mem_append, mem_cons, not_mem_nil, or_false]
  tauto

theorem Step.bound (hstep : p.Step q)
    (h : ∀ frame ∈ p.inner ++ p.outer, frame.part = .body → frame.targets ⊆ p.scope.bound) :
    ∀ frame ∈ q.inner ++ q.outer, frame.part = .body → frame.targets ⊆ q.scope.bound := by
  cases hstep with
  | loopBody =>
    rintro frame hframe hbody name hname
    rcases mem_cons.mp hframe with rfl | hframe
    · exact mem_bind.mpr (.inr hname)
    · exact mem_bind.mpr (.inl (h frame hframe hbody hname))
  | loopOtherwise =>
    rintro frame hframe hbody
    rcases mem_cons.mp hframe with rfl | hframe
    · cases hbody
    · exact h frame hframe hbody
  | inside => exact h
  | block => exact fun frame hframe => h frame (mem_append_right _ hframe)
  | embedded => exact h

/-- The variables of a loop are bound wherever its body is around. -/
theorem Reached.bound (h : Reached root scope p) :
    ∀ frame ∈ p.inner ++ p.outer, frame.part = .body → frame.targets ⊆ p.scope.bound := by
  induction h with
  | start => exact fun frame hframe => nomatch hframe
  | step _ hstep ih => exact hstep.bound ih

end Position

end TwigToLatte
