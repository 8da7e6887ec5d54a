import TwigToLatte.Pass
import TwigToLatte.Proofs.Template.Pieces

/-!
# Passes, piece by piece

* `Pass.piece`, `Pass.pieces` — what a pass makes of one piece, and of several in order.
* `Pass.stmtKind_eq`, `Pass.template_eq` — **a pass treats the pieces of a statement or of a template
  one after the other and puts the results in their places**.
* `Pass.pieces_stmtKind`, `Pass.refill_stmtKind` — afterwards these are its pieces, and the form is
  the same.
-/

namespace TwigToLatte.Pass

variable {σ : Type}

def piece (p : Pass σ) : Piece → StateM σ Piece
  | .expr e => do return .expr (← p.expr e)
  | .named list => do return .named (← p.assigned list)
  | .body body => do return .body (← p.body body)
  | .template t => do return .template (← p.template t)

def pieces (p : Pass σ) : List Piece → StateM σ (List Piece)
  | [] => pure []
  | x :: rest => do
    let x ← p.piece x
    return x :: (← p.pieces rest)

variable (p : Pass σ) (s : σ)

theorem pieces_append (a b : List Piece) :
    p.pieces (a ++ b) s =
      ((p.pieces a s).1 ++ (p.pieces b (p.pieces a s).2).1, (p.pieces b (p.pieces a s).2).2) := by
  induction a generalizing s with
  | nil => rfl
  | cons x rest ih =>
    show ((p.piece x s).1 :: (p.pieces (rest ++ b) (p.piece x s).2).1,
      (p.pieces (rest ++ b) (p.piece x s).2).2) = _
    rw [ih]
    rfl

/-! ## Statements -/

theorem pieces_branches (branches : List (Expr × List Stmt)) :
    p.pieces (branchPieces branches) s =
      (branchPieces (p.branches branches s).1, (p.branches branches s).2) := by
  induction branches generalizing s with
  | nil => rfl
  | cons branch rest ih =>
    obtain ⟨test, body⟩ := branch
    show (_ :: _ :: (p.pieces (branchPieces rest) (p.body body (p.expr test s).2).2).1,
      (p.pieces (branchPieces rest) _).2) = _
    rw [ih]
    rfl

theorem pieces_stmtKind (kind : Stmt.Kind) :
    p.pieces kind.pieces s = ((p.stmtKind kind s).1.pieces, (p.stmtKind kind s).2) := by
  cases kind with
  | loop key value sequence body otherwise withLoop => cases otherwise <;> rfl
  | branch branches otherwise =>
    show p.pieces (branchPieces branches ++ otherwise.toList.map .body) s = _
    rw [pieces_append, pieces_branches]
    cases otherwise <;> rfl
  | inclusion included | embed included =>
    obtain ⟨template, bindings, _, _, _⟩ := included
    cases bindings <;> rfl
  | scope bindings only body => cases bindings <;> rfl
  | cache key ttl tags body => cases ttl <;> cases tags <;> rfl
  | _ => rfl

theorem refill_stmtKind (kind : Stmt.Kind) : (p.stmtKind kind s).1.refill = kind.refill := by
  cases kind with
  | cache key ttl tags body => cases ttl <;> cases tags <;> rfl
  | _ => rfl

/-- **The pieces of a statement are treated one after the other.** -/
theorem stmtKind_eq (kind : Stmt.Kind) :
    p.stmtKind kind s = (kind.refill (p.pieces kind.pieces s).1, (p.pieces kind.pieces s).2) := by
  rw [pieces_stmtKind]
  dsimp only
  rw [← p.refill_stmtKind s, Stmt.Kind.refill_pieces]
  rfl

/-! ## Templates -/

theorem pieces_blocks (blocks : List (String × Block)) :
    p.pieces (blocks.map fun block => .body block.2.body) s =
      ((p.blocks blocks s).1.map fun block => .body block.2.body, (p.blocks blocks s).2) := by
  induction blocks generalizing s with
  | nil => rfl
  | cons block rest ih =>
    obtain ⟨name, body, line⟩ := block
    show (_ :: (p.pieces (rest.map fun block => .body block.2.body) (p.body body s).2).1,
      (p.pieces (rest.map fun block => .body block.2.body) _).2) = _
    rw [ih]
    rfl

theorem pieces_macros (macros : List (String × MacroDef)) :
    p.pieces (macroPieces macros) s =
      (macroPieces (p.macros macros s).1, (p.macros macros s).2) := by
  induction macros generalizing s with
  | nil => rfl
  | cons definition rest ih =>
    obtain ⟨name, params, body, line⟩ := definition
    show (_ :: _ :: (p.pieces (macroPieces rest) (p.body body (p.assigned params s).2).2).1,
      (p.pieces (macroPieces rest) _).2) = _
    rw [ih]
    rfl

theorem refillBlocks_blocks (blocks : List (String × Block)) :
    refillBlocks (p.blocks blocks s).1 = refillBlocks blocks := by
  funext bodies
  induction blocks generalizing s bodies with
  | nil => rfl
  | cons block rest ih =>
    obtain ⟨name, body, line⟩ := block
    cases bodies with
    | nil => rfl
    | cons body bodies => exact congrArg (_ :: ·) (ih _ bodies)

theorem refillMacros_macros (macros : List (String × MacroDef)) :
    refillMacros (p.macros macros s).1 = refillMacros macros := by
  funext defaults bodies
  rw [refillMacros, refillMacros]
  generalize defaults.zip bodies = parts
  induction macros generalizing s parts with
  | nil => rfl
  | cons definition rest ih =>
    obtain ⟨name, params, body, line⟩ := definition
    cases parts with
    | nil => rfl
    | cons part parts => exact congrArg (_ :: ·) (ih _ parts)

/-- A template without what the pass does to it as a whole. -/
def inside (t : Template) : StateM σ Template := do
  let body ← p.body t.body
  let blocks ← p.blocks t.blocks
  let macros ← p.macros t.macros
  let parent ← p.optionalExpr t.parent
  return ⟨body, blocks, macros, parent, t.setup⟩

theorem template_eq (t : Template) : p.template t = (do
    p.enterTemplate t
    let t ← p.inside t
    p.leaveTemplate t) := by
  cases t
  rfl

theorem pieces_inside (t : Template) :
    p.pieces t.pieces s = ((p.inside t s).1.pieces, (p.inside t s).2) := by
  obtain ⟨body, blocks, macros, parent, setup⟩ := t
  have hbodies : p.pieces (.body body :: blocks.map fun block => .body block.2.body) s =
      (.body (p.body body s).1 ::
          (p.blocks blocks (p.body body s).2).1.map (fun block => .body block.2.body),
        (p.blocks blocks (p.body body s).2).2) := by
    show (Piece.body (p.body body s).1 :: (p.pieces _ (p.body body s).2).1,
      (p.pieces _ (p.body body s).2).2) = _
    rw [pieces_blocks]
  rw [Template.pieces, pieces_append, pieces_append, hbodies, pieces_macros]
  cases parent <;> rfl

theorem length_blocks (blocks : List (String × Block)) :
    (p.blocks blocks s).1.length = blocks.length := by
  induction blocks generalizing s with
  | nil => rfl
  | cons block rest ih =>
    obtain ⟨name, body, line⟩ := block
    exact congrArg (· + 1) (ih _)

theorem refill_inside (t : Template) : (p.inside t s).1.refill = t.refill := by
  funext pieces
  obtain ⟨body, blocks, macros, parent, setup⟩ := t
  show Template.mk _ (refillBlocks (p.blocks blocks (p.body body s).2).1 _)
    (refillMacros (p.macros macros _).1 _ (List.drop (p.blocks blocks (p.body body s).2).1.length _))
    _ _ = _
  rw [refillBlocks_blocks, refillMacros_macros, length_blocks]
  rfl

/-- **The pieces of a template are treated one after the other.** -/
theorem inside_eq (t : Template) :
    p.inside t s = (t.refill (p.pieces t.pieces s).1, (p.pieces t.pieces s).2) := by
  rw [pieces_inside]
  dsimp only
  rw [← p.refill_inside s, Template.refill_pieces]
  rfl

end TwigToLatte.Pass
