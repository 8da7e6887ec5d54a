import TwigToLatte.Pass.Pipeline
import TwigToLatte.Proofs.Pass.Pieces
import TwigToLatte.Proofs.Template.Expressions

/-!
# Passes without state

A pass without state treats equal parts of a template alike, wherever they stand. It is fixed by
what it makes of an expression and of a statement whose parts it has treated already.

* `Pass.onExpr`, `Pass.onStmt`, `Pass.onTemplate` — what a pass makes of a part of a template.
* `Pass.Establishes` — a property of expressions that every single step brings about, and that all
  expressions have after the pass.
* `Pass.Partwise` — a pass that keeps every statement with the statements inside it.
* `Pass.Local` — such a pass that does nothing to a template as a whole.
* `Pass.Partwise.parts_onTemplate`, `Pass.Partwise.module_onTemplate` — **after such a pass, the
  statements of a template and the templates embedded in it are those of before, each treated by
  the pass**.
* `Pass.Partwise.onTemplate_eq_self` — where no step changes anything, the pass does not.
-/

namespace TwigToLatte

open List

/-- The place of the same block, with the same statements and templates inside. -/
structure Stmt.Alike (stmt stmt' : Stmt) : Prop where
  place_eq : stmt'.place? = stmt.place?
  embedded_eq : stmt'.embedded? = stmt.embedded?
  parts_eq : stmt'.kind.parts = stmt.kind.parts

theorem Stmt.Alike.refl (stmt : Stmt) : stmt.Alike stmt := ⟨rfl, rfl, rfl⟩

/-- The second statement is the first one, but that it may print or output another expression. -/
inductive Stmt.Reworded : Stmt → Stmt → Prop
  | same (stmt : Stmt) : Reworded stmt stmt
  | print (e x : Expr) (line : Nat) : Reworded ⟨.print e, line⟩ ⟨.print x, line⟩
  | output (e x : Expr) (line : Nat) : Reworded ⟨.print e, line⟩ ⟨.output x, line⟩

namespace Stmt.Reworded

variable {stmt stmt' : Stmt}

theorem line_eq (h : stmt.Reworded stmt') : stmt'.line = stmt.line := by
  cases h <;> rfl

theorem alike (h : stmt.Reworded stmt') : stmt.Alike stmt' := by
  cases h <;> exact ⟨rfl, rfl, rfl⟩

end Stmt.Reworded

namespace Pass

variable {q : Pass Unit}

/-- What the pass makes of an expression whose parts it has treated. -/
def exprStep (q : Pass Unit) (e : Expr) : Expr := (q.leaveExpr e ()).1

/-- What the pass makes of a statement whose parts it has treated. -/
def stmtStep (q : Pass Unit) (stmt : Stmt) : Stmt := (q.leaveStmt stmt ()).1.getD stmt

def onExpr (q : Pass Unit) (e : Expr) : Expr := (q.expr e ()).1

def onKind (q : Pass Unit) (kind : Stmt.Kind) : Stmt.Kind := (q.stmtKind kind ()).1

def onStmt (q : Pass Unit) (stmt : Stmt) : Stmt := q.stmtStep ⟨q.onKind stmt.kind, stmt.line⟩

def onTemplate (q : Pass Unit) (t : Template) : Template := (q.template t ()).1

/-! ## Expressions -/

/-- If the parts of an expression have the property, then so do the expression that a step makes
of it and the parts of that. -/
def Establishes (q : Pass Unit) (P : Expr → Prop) : Prop :=
  ∀ e : Expr, (∀ x ∈ e.kind.parts, P x) → ∀ x ∈ (q.exprStep e).parts, P x

section

variable {σ : Type} (p : Pass σ)

theorem items_eq (items : List (Expr × Expr)) (s : σ) :
    p.items items s =
      (fillItems items (p.exprs (items.flatMap fun item => [item.1, item.2]) s).1,
        (p.exprs (items.flatMap fun item => [item.1, item.2]) s).2) := by
  induction items generalizing s with
  | nil => rfl
  | cons item rest ih =>
    obtain ⟨key, value⟩ := item
    show (_ :: (p.items rest (p.expr value (p.expr key s).2).2).1, (p.items rest _).2) = _
    rw [ih]
    rfl

theorem arguments_eq (list : List (Argument Expr)) (s : σ) :
    p.arguments list s =
      (fillArguments list (p.exprs (list.map (·.value)) s).1,
        (p.exprs (list.map (·.value)) s).2) := by
  induction list generalizing s with
  | nil => rfl
  | cons argument rest ih =>
    obtain ⟨name, value⟩ := argument
    show (_ :: (p.arguments rest (p.expr value s).2).1, (p.arguments rest _).2) = _
    rw [ih]
    rfl

/-- The expressions that stand in an expression are treated one after the other. -/
theorem exprKind_eq (kind : Expr.Kind) (s : σ) :
    p.exprKind kind s = (kind.fill (p.exprs kind.children s).1, (p.exprs kind.children s).2) := by
  cases kind with
  | array items =>
    show (Expr.Kind.array (p.items items s).1, (p.items items s).2) = _
    rw [items_eq]
    rfl
  | macroCall e method list defined =>
    show (Expr.Kind.macroCall _ method (p.arguments list (p.expr e s).2).1 defined,
      (p.arguments list _).2) = _
    rw [arguments_eq]
    rfl
  | filter e name list =>
    show (Expr.Kind.filter _ name (p.arguments list (p.expr e s).2).1, (p.arguments list _).2) = _
    rw [arguments_eq]
    rfl
  | test e name kind list =>
    show (Expr.Kind.test _ name kind (p.arguments list (p.expr e s).2).1,
      (p.arguments list _).2) = _
    rw [arguments_eq]
    rfl
  | function name kind list defined =>
    show (Expr.Kind.function name kind (p.arguments list s).1 defined, (p.arguments list s).2) = _
    rw [arguments_eq]
    rfl
  | blockCall name template => cases template <;> rfl
  | _ => rfl

theorem length_exprs (list : List Expr) (s : σ) : (p.exprs list s).1.length = list.length := by
  induction list generalizing s with
  | nil => rfl
  | cons e rest ih => exact congrArg (· + 1) (ih _)

theorem parts_exprKind (kind : Expr.Kind) (s : σ) :
    (p.exprKind kind s).1.parts = listParts (p.exprs kind.children s).1 := by
  rw [exprKind_eq, Expr.Kind.parts_eq, Expr.Kind.children_fill (p.length_exprs _ s)]

end

theorem exprs_eq (q : Pass Unit) (list : List Expr) : (q.exprs list ()).1 = list.map q.onExpr := by
  induction list with
  | nil => rfl
  | cons e rest ih => exact congrArg (q.onExpr e :: ·) ih

variable {P : Expr → Prop}

/-- What the treated expressions in an expression have, all its parts have. -/
theorem forall_mem_parts_exprKind {kind : Expr.Kind}
    (h : ∀ e ∈ kind.children, ∀ x ∈ (q.onExpr e).parts, P x) :
    ∀ x ∈ (q.exprKind kind ()).1.parts, P x := by
  rw [parts_exprKind, exprs_eq, listParts_eq]
  exact forall_mem_flatMap.mpr (forall_mem_map.mpr h)

theorem Establishes.onExpr (h : q.Establishes P) (e : Expr) : ∀ x ∈ (q.onExpr e).parts, P x := by
  induction e using Expr.children_induction with
  | _ e ih =>
    obtain ⟨kind, line, topmost⟩ := e
    exact h ⟨(q.exprKind kind ()).1, line, topmost⟩ (forall_mem_parts_exprKind ih)

/-- An expression with nothing that a step changes is left as it is. -/
theorem onExpr_eq_self (q : Pass Unit) (e : Expr) (h : ∀ x ∈ e.parts, q.exprStep x = x) :
    q.onExpr e = e := by
  induction e using Expr.children_induction with
  | _ e ih =>
    have hchildren : e.kind.children.map q.onExpr = e.kind.children.map id :=
      map_congr_left fun x hx => ih x hx fun y hy => h y (Expr.parts_subset hx hy)
    rw [map_id] at hchildren
    obtain ⟨kind, line, topmost⟩ := e
    show q.exprStep ⟨(q.exprKind kind ()).1, line, topmost⟩ = _
    rw [exprKind_eq, exprs_eq, hchildren, Expr.Kind.fill_children]
    exact h _ mem_cons_self

theorem toList_optionalExpr (q : Pass Unit) (e : Option Expr) :
    (q.optionalExpr e ()).1.toList = e.toList.map q.onExpr := by
  cases e <;> rfl

theorem map_snd_assigned (q : Pass Unit) (list : List (String × Expr)) :
    (q.assigned list ()).1.map Prod.snd = (list.map Prod.snd).map q.onExpr := by
  induction list with
  | nil => rfl
  | cons entry rest ih => exact congrArg (q.onExpr entry.2 :: ·) ih

/-! ## Blocks and macros -/

theorem blocks_eq (q : Pass Unit) (blocks : List (String × Block)) :
    (q.blocks blocks ()).1 =
      blocks.map fun entry => (entry.1, ⟨(q.body entry.2.body ()).1, entry.2.line⟩) := by
  induction blocks with
  | nil => rfl
  | cons entry rest ih =>
    obtain ⟨name, body, line⟩ := entry
    exact congrArg ((name, ⟨(q.body body ()).1, line⟩) :: ·) ih

theorem macros_eq (q : Pass Unit) (macros : List (String × MacroDef)) :
    (q.macros macros ()).1 = macros.map fun entry =>
      (entry.1, ⟨(q.assigned entry.2.params ()).1, (q.body entry.2.body ()).1, entry.2.line⟩) := by
  induction macros with
  | nil => rfl
  | cons entry rest ih =>
    obtain ⟨name, params, body, line⟩ := entry
    exact congrArg ((name, ⟨(q.assigned params ()).1, (q.body body ()).1, line⟩) :: ·) ih

/-! ## Pieces -/

/-- What the pass makes of a piece. -/
def onPiece (q : Pass Unit) (x : Piece) : Piece := (q.piece x ()).1

theorem pieces_eq (q : Pass Unit) (list : List Piece) :
    (q.pieces list ()).1 = list.map q.onPiece := by
  induction list with
  | nil => rfl
  | cons x rest ih => exact congrArg (q.onPiece x :: ·) ih

theorem pieces_onKind (q : Pass Unit) (kind : Stmt.Kind) :
    (q.onKind kind).pieces = kind.pieces.map q.onPiece := by
  rw [← pieces_eq, pieces_stmtKind]
  rfl

theorem onKind_eq (q : Pass Unit) (kind : Stmt.Kind) :
    q.onKind kind = kind.refill (kind.pieces.map q.onPiece) := by
  rw [← pieces_eq, onKind, stmtKind_eq]

theorem roots_onPiece (q : Pass Unit) (x : Piece) : (q.onPiece x).roots = x.roots.map q.onExpr := by
  cases x with
  | named list => exact q.map_snd_assigned list
  | _ => rfl

/-- The pass treats the expressions of a statement one by one. -/
theorem roots_onKind (q : Pass Unit) (kind : Stmt.Kind) :
    (q.onKind kind).roots = kind.roots.map q.onExpr := by
  rw [← Stmt.Kind.flatMap_roots, pieces_onKind, flatMap_map, ← Stmt.Kind.flatMap_roots,
    map_flatMap]
  simp only [roots_onPiece]

theorem embedded?_onKind (q : Pass Unit) (stmt : Stmt) :
    Stmt.embedded? ⟨q.onKind stmt.kind, stmt.line⟩ = stmt.embedded?.map q.onTemplate := by
  obtain ⟨kind, line⟩ := stmt
  cases kind <;> rfl

theorem place?_onKind (q : Pass Unit) (stmt : Stmt) :
    Stmt.place? ⟨q.onKind stmt.kind, stmt.line⟩ = stmt.place? := by
  obtain ⟨kind, line⟩ := stmt
  cases kind <;> rfl

/-! ## Statements and templates -/

/-- A pass that keeps every statement, with its place and the statements and templates inside it,
and of a template as a whole changes the preparations at most. -/
structure Partwise (q : Pass Unit) : Prop where
  keeps : ∀ stmt : Stmt, (q.leaveStmt stmt ()).1 = some (q.stmtStep stmt)
  alike : ∀ stmt : Stmt, stmt.Alike (q.stmtStep stmt)
  frame : ∀ t : Template, ∃ setup, (q.leaveTemplate t ()).1 = { t with setup }

/-- Such a pass that does nothing to a template as a whole. -/
structure Local (q : Pass Unit) : Prop extends q.Partwise where
  leaveTemplate : ∀ t : Template, (q.leaveTemplate t ()).1 = t
  frame := fun t => ⟨t.setup, (leaveTemplate t).trans (by cases t; rfl)⟩

namespace Partwise

section

variable (h : q.Partwise)

include h

theorem body_eq (body : List Stmt) : (q.body body ()).1 = body.map q.onStmt := by
  induction body with
  | nil => rfl
  | cons stmt rest ih =>
    obtain ⟨kind, line⟩ := stmt
    show (q.leaveStmt ⟨q.onKind kind, line⟩ ()).1.toList ++ (q.body rest ()).1 = _
    rw [h.keeps, ih]
    rfl

theorem hereditary_parts :
    Hereditary (fun x => (q.onPiece x).parts = x.parts.map q.onStmt)
      fun stmt => (q.onStmt stmt).parts = stmt.parts.map q.onStmt where
  expr _ := rfl
  named _ := rfl
  nil := rfl
  cons stmt rest hstmt hrest := by
    show bodyParts (q.body (stmt :: rest) ()).1 = (stmt.parts ++ bodyParts rest).map q.onStmt
    rw [map_append, ← hstmt, h.body_eq, map_cons, bodyParts, ← h.body_eq]
    exact congrArg (_ ++ ·) hrest
  stmt kind line hkind := by
    rw [Stmt.parts_eq, onStmt, (h.alike _).parts_eq, ← Stmt.Kind.flatMap_parts, pieces_onKind,
      flatMap_map, Stmt.parts, map_cons, ← Stmt.Kind.flatMap_parts, map_flatMap,
      flatMap_congr hkind]
    rfl
  template _ _ := rfl

theorem bodyParts_onBody (body : List Stmt) :
    bodyParts (q.body body ()).1 = (bodyParts body).map q.onStmt := h.hereditary_parts.all_body body

theorem macroParts_onMacros (macros : List (String × MacroDef)) :
    macroParts (q.macros macros ()).1 = (macroParts macros).map q.onStmt := by
  have hpieces : macroPieces (q.macros macros ()).1 = (macroPieces macros).map q.onPiece := by
    rw [← pieces_eq, pieces_macros]
  rw [← flatMap_parts_macros, hpieces, ← flatMap_parts_macros, flatMap_map, map_flatMap]
  exact flatMap_congr fun x _ => h.hereditary_parts.all x

theorem exists_onTemplate_eq (t : Template) :
    ∃ setup, q.onTemplate t = { (q.inside t ()).1 with setup } := by
  obtain ⟨setup, hframe⟩ := h.frame (q.inside t ()).1
  refine ⟨setup, ?_⟩
  rw [← hframe, onTemplate, template_eq]
  rfl

theorem pieces_onTemplate (t : Template) : (q.onTemplate t).pieces = t.pieces.map q.onPiece := by
  obtain ⟨setup, heq⟩ := h.exists_onTemplate_eq t
  rw [← pieces_eq, pieces_inside, heq]
  rfl

theorem flatMap_roots_onTemplate (t : Template) :
    (q.onTemplate t).pieces.flatMap Piece.roots = (t.pieces.flatMap Piece.roots).map q.onExpr := by
  rw [h.pieces_onTemplate, flatMap_map, map_flatMap]
  simp only [roots_onPiece]

theorem parts_onTemplate (t : Template) : (q.onTemplate t).parts = t.parts.map q.onStmt := by
  rw [← Template.flatMap_parts, h.pieces_onTemplate, flatMap_map, ← Template.flatMap_parts,
    map_flatMap]
  exact flatMap_congr fun x _ => h.hereditary_parts.all x

theorem embedded?_onStmt (stmt : Stmt) :
    (q.onStmt stmt).embedded? = stmt.embedded?.map q.onTemplate := by
  rw [onStmt, (h.alike _).embedded_eq, embedded?_onKind]

end

variable {t m : Template} {Q : Expr → Prop}

/-- The templates embedded in a template after the pass. -/
theorem module_onTemplate (h : q.Partwise) (hm : (q.onTemplate t).Module m) :
    ∃ m₀, t.Module m₀ ∧ m = q.onTemplate m₀ := by
  induction hm with
  | self => exact ⟨t, .self, rfl⟩
  | @embedded outer inner stmt _ mem embeds ih =>
    obtain ⟨outer₀, houter, rfl⟩ := ih
    rw [h.parts_onTemplate] at mem
    obtain ⟨stmt₀, hmem, rfl⟩ := mem_map.mp mem
    rw [h.embedded?_onStmt] at embeds
    obtain ⟨inner₀, hinner, rfl⟩ := Option.map_eq_some_iff.mp embeds
    exact ⟨inner₀, .embedded houter hmem hinner, rfl⟩

theorem onTemplate_module (h : q.Partwise) (hm : t.Module m) :
    (q.onTemplate t).Module (q.onTemplate m) := by
  induction hm with
  | self => exact .self
  | @embedded outer inner stmt _ mem embeds ih =>
    have hmem : q.onStmt stmt ∈ (q.onTemplate outer).parts := by
      rw [h.parts_onTemplate]
      exact mem_map_of_mem mem
    refine .embedded ih hmem ?_
    rw [h.embedded?_onStmt, embeds]
    rfl

/-- The expressions of a template after a pass that leaves statements apart from their parts. -/
theorem roots_onTemplate (h : q.Partwise)
    (hstmt : ∀ stmt, (q.stmtStep stmt).kind.roots = stmt.kind.roots) (t : Template) :
    (q.onTemplate t).roots = t.roots.map q.onExpr := by
  have hparts : (t.parts.map q.onStmt).flatMap (·.kind.roots) =
      (t.parts.flatMap (·.kind.roots)).map q.onExpr := by
    rw [flatMap_map, map_flatMap]
    refine flatMap_congr fun stmt _ => ?_
    rw [onStmt, hstmt, roots_onKind]
  rw [Template.roots_eq, h.parts_onTemplate, hparts, h.flatMap_roots_onTemplate, ← map_append,
    ← Template.roots_eq]

/-- What the pass makes of expressions, and no step on a statement takes away, all expressions in
statements have after the pass. -/
theorem forall_mem_roots_of (h : q.Partwise) {Q₀ : Expr → Prop} (hexpr : ∀ e, Q₀ e → Q (q.onExpr e))
    (hstmt : ∀ stmt, (∀ e ∈ stmt.kind.roots, Q e) → ∀ e ∈ (q.stmtStep stmt).kind.roots, Q e)
    (ht : ∀ e ∈ t.roots, Q₀ e) : ∀ e ∈ (q.onTemplate t).roots, Q e := by
  have htreated : ∀ {list : List Expr}, (∀ e ∈ list, Q₀ e) → ∀ e ∈ list.map q.onExpr, Q e :=
    fun hlist => forall_mem_map.mpr fun e he => hexpr e (hlist e he)
  rw [Template.roots_eq] at ht ⊢
  obtain ⟨hparts, hothers⟩ := forall_mem_append.mp ht
  rw [h.parts_onTemplate, h.flatMap_roots_onTemplate]
  refine forall_mem_append.mpr ⟨?_, htreated hothers⟩
  intro e he
  obtain ⟨stmt, hstmt', he⟩ := mem_flatMap.mp he
  obtain ⟨stmt₀, hmem, rfl⟩ := mem_map.mp hstmt'
  refine hstmt ⟨q.onKind stmt₀.kind, stmt₀.line⟩ ?_ e he
  rw [roots_onKind]
  exact htreated fun e he => hparts e (mem_flatMap.mpr ⟨stmt₀, hmem, he⟩)

theorem forall_mem_roots (h : q.Partwise) (hexpr : ∀ e, Q (q.onExpr e))
    (hstmt : ∀ stmt, (∀ e ∈ stmt.kind.roots, Q e) → ∀ e ∈ (q.stmtStep stmt).kind.roots, Q e)
    (t : Template) : ∀ e ∈ (q.onTemplate t).roots, Q e :=
  h.forall_mem_roots_of (fun e (_ : True) => hexpr e) hstmt fun _ _ => trivial

end Partwise

/-! ## Templates that a pass leaves as they are -/

/-- The pass changes neither the expressions of the statement nor a template embedded by it, and a
step leaves the statement as it is. -/
structure Fixes (q : Pass Unit) (stmt : Stmt) : Prop where
  roots : ∀ e ∈ stmt.kind.roots, q.onExpr e = e
  step : q.stmtStep stmt = stmt
  embedded : ∀ inner, stmt.embedded? = some inner → q.onTemplate inner = inner

/-- No step changes an expression or a statement of the template or of those embedded in it. -/
def Settled (q : Pass Unit) (t : Template) : Prop :=
  ∀ m, t.Module m →
    (∀ e ∈ m.exprs, q.exprStep e = e) ∧ ∀ stmt ∈ m.parts, q.stmtStep stmt = stmt

theorem assigned_fixed {list : List (String × Expr)}
    (h : ∀ x ∈ list.map Prod.snd, q.onExpr x = x) : (q.assigned list ()).1 = list := by
  induction list with
  | nil => rfl
  | cons entry rest ih =>
    obtain ⟨name, value⟩ := entry
    rw [map_cons, forall_mem_cons] at h
    show (name, q.onExpr value) :: (q.assigned rest ()).1 = _
    rw [h.1, ih h.2]

namespace Partwise

theorem relative_fixes (h : q.Partwise) :
    Relative (fun e => q.onExpr e = e) q.Fixes (fun t => q.onTemplate t = t) (fun x => q.onPiece x = x)
      fun stmt => q.onStmt stmt = stmt where
  expr _ he := congrArg Piece.expr he
  named _ hlist := congrArg Piece.named (assigned_fixed hlist)
  nil := rfl
  cons stmt rest hstmt hrest := by
    have hrest : (q.body rest ()).1 = rest := Piece.body.inj hrest
    refine congrArg Piece.body (?_ : (q.body (stmt :: rest) ()).1 = stmt :: rest)
    rw [h.body_eq] at hrest ⊢
    rw [map_cons, hstmt, hrest]
  stmt kind line hfix hkind := by
    have hsame : kind.pieces.map q.onPiece = kind.pieces.map id := map_congr_left hkind
    rw [onStmt, onKind_eq, hsame, map_id, Stmt.Kind.refill_pieces, hfix.step]
  template _ ht := congrArg Piece.template ht
  roots _ hfix := hfix.roots
  embedded _ t hfix := hfix.embedded t

/-- **Where no step changes anything, such a pass leaves a template as it is**, with the
templates embedded in it. -/
theorem onTemplate_eq_self (h : q.Partwise) : ∀ t : Template, q.Settled t →
    (∀ m, t.Module m → (q.leaveTemplate m ()).1 = m) → q.onTemplate t = t := by
  refine all_of_inherited fun t hembeds hsettled hleave => ?_
  obtain ⟨hexprs, hstmts⟩ := hsettled t .self
  have hroots : ∀ e ∈ t.roots, q.onExpr e = e := fun e he =>
    q.onExpr_eq_self e fun x hx => hexprs x (mem_flatMap.mpr ⟨e, he, hx⟩)
  have hown : ∀ stmt ∈ t.parts, ∀ e ∈ stmt.kind.roots, q.onExpr e = e := fun stmt hmem e he =>
    hroots e (by
      rw [t.roots_eq]
      exact mem_append_left _ (mem_flatMap.mpr ⟨stmt, hmem, he⟩))
  have hparts : ∀ stmt ∈ t.parts, q.Fixes stmt := by
    intro stmt hmem
    refine ⟨hown stmt hmem, hstmts stmt hmem, ?_⟩
    intro inner hinner
    have hinside : ∀ m, inner.Module m → t.Module m := fun m =>
      .trans (.embedded .self hmem hinner)
    exact hembeds inner (mem_filterMap.mpr ⟨stmt, hmem, hinner⟩)
      (fun m hm => hsettled m (hinside m hm)) fun m hm => hleave m (hinside m hm)
  have hpieces : t.pieces.map q.onPiece = t.pieces.map id :=
    map_congr_left (h.relative_fixes.all_pieces hparts hroots)
  rw [onTemplate, template_eq]
  show (q.leaveTemplate (q.inside t ()).1 ()).1 = t
  rw [inside_eq, pieces_eq, hpieces, map_id, Template.refill_pieces, hleave t .self]

end Partwise

namespace Local

theorem onTemplate_eq (h : q.Local) (t : Template) :
    q.onTemplate t =
      ⟨(q.body t.body ()).1, (q.blocks t.blocks ()).1, (q.macros t.macros ()).1,
        (q.optionalExpr t.parent ()).1, t.setup⟩ := by
  obtain ⟨body, blocks, macros, parent, setup⟩ := t
  exact h.leaveTemplate _

theorem onTemplate_eq_self (h : q.Local) (t : Template) (hsettled : q.Settled t) :
    q.onTemplate t = t :=
  h.toPartwise.onTemplate_eq_self t hsettled fun m _ => h.leaveTemplate m

end Local

end Pass

end TwigToLatte
