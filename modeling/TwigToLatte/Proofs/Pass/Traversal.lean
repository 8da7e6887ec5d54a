import Mathlib.Data.List.Perm.Basic
import TwigToLatte.Proofs.Pass.Stateless

/-!
# What a pass comes to

* `Node`, `Event` — a template, statement or expression, which a pass enters and leaves.
* `Traced` — the events at a node: it is entered, then come those at what stands directly in it, in
  order, and it is left.
* `Accounted` — events at each of some nodes, and throughout the templates embedded in them, once.
* `Pass.Observes` — a pass that changes nothing, and so only reacts to events.
* `Template.exists_events` — **every such pass reacts to the same events, which are nested as the
  template is and come to each statement and expression once**.
-/

namespace TwigToLatte

open List

inductive Node where
  | template (t : Template)
  | stmt (stmt : Stmt)
  | expr (e : Expr)

def Piece.nodes : Piece → List Node
  | .expr e => [.expr e]
  | .named list => list.map fun entry => .expr entry.2
  | .body list => list.map .stmt
  | .template t => [.template t]

/-- What stands directly in a node: in a template its body, its blocks, its macros and its parent. -/
def Node.children : Node → List Node
  | .template t => t.pieces.flatMap Piece.nodes
  | .stmt x => x.kind.pieces.flatMap Piece.nodes
  | .expr e => e.kind.children.map .expr

inductive Event where
  | enter (x : Node)
  | leave (x : Node)

@[simp] def Event.entered? : Event → Option Node
  | .enter x => some x
  | .leave _ => none

@[simp] def Event.left? : Event → Option Node
  | .enter _ => none
  | .leave x => some x

/-- The events at a node, with those inside it. -/
def around (x : Node) (inside : List Event) : List Event := .enter x :: inside ++ [.leave x]

mutual

/-- The events at a node: those at its children, one after the other, are between the first and the
last. -/
inductive Traced : Node → List Event → Prop
  | node {x : Node} {inside : List Event} (children : TracedAll x.children inside) :
      Traced x (around x inside)

inductive TracedAll : List Node → List Event → Prop
  | nil : TracedAll [] []
  | cons {x : Node} {rest : List Node} {events more : List Event} (first : Traced x events)
      (others : TracedAll rest more) : TracedAll (x :: rest) (events ++ more)

end

section

variable {events more inside : List Event}

theorem TracedAll.append {list rest : List Node} (h : TracedAll list events)
    (h' : TracedAll rest more) : TracedAll (list ++ rest) (events ++ more) := by
  induction list generalizing events with
  | nil =>
    cases h
    exact h'
  | cons x list ih =>
    cases h with
    | cons first others =>
      rw [List.append_assoc]
      exact .cons first (ih others)

theorem TracedAll.single {x : Node} (children : TracedAll x.children inside) :
    TracedAll [x] (around x inside) := by
  have h := TracedAll.cons (.node children) .nil
  rwa [append_nil] at h

/-! ## Accounts -/

def Node.embedded? : Node → Option Template
  | .stmt x => x.embedded?
  | _ => none

/-- A template with its statements and expressions, but without those of embedded templates. -/
def Template.nodes (t : Template) : List Node :=
  .template t :: (t.parts.map .stmt ++ t.exprs.map .expr)

/-- Each of the own nodes is entered and left once, and so are those of the templates: of `direct`
ones, and of those that entered statements embed. -/
structure Accounted (own : List Node) (direct templates : List Template) (events : List Event) :
    Prop where
  entered : events.filterMap Event.entered? ~ own ++ templates.flatMap Template.nodes
  left : events.filterMap Event.left? ~ own ++ templates.flatMap Template.nodes
  templates : templates ~ direct ++ (events.filterMap Event.entered?).filterMap Node.embedded?

namespace Accounted

variable {own own' : List Node} {direct direct' templates templates' : List Template}

theorem nil : Accounted [] [] [] [] := ⟨.nil, .nil, .nil⟩

theorem congr (h : Accounted own direct templates events) (hown : own ~ own') :
    Accounted own' direct templates events :=
  ⟨h.entered.trans (hown.append_right _), h.left.trans (hown.append_right _), h.templates⟩

theorem append (h : Accounted own direct templates events)
    (h' : Accounted own' direct' templates' more) :
    Accounted (own ++ own') (direct ++ direct') (templates ++ templates') (events ++ more) := by
  have shuffle : ∀ {α : Type} (a b c d : List α), (a ++ b) ++ (c ++ d) ~ (a ++ c) ++ (b ++ d) := by
    intro α a b c d
    simp only [List.append_assoc]
    exact (perm_append_comm_assoc b c d).append_left a
  refine ⟨?_, ?_, ?_⟩
  · rw [filterMap_append, flatMap_append]
    exact (h.entered.append h'.entered).trans (shuffle ..)
  · rw [filterMap_append, flatMap_append]
    exact (h.left.append h'.left).trans (shuffle ..)
  · rw [filterMap_append, filterMap_append]
    exact (h.templates.append h'.templates).trans (shuffle ..)

theorem node {x : Node} (h : Accounted own x.embedded?.toList templates inside) :
    Accounted (x :: own) [] templates (around x inside) := by
  have hentered : (around x inside).filterMap Event.entered? =
      x :: inside.filterMap Event.entered? := by simp [around]
  have hleft : (around x inside).filterMap Event.left? =
      inside.filterMap Event.left? ++ [x] := by simp [around, filterMap_cons]
  refine ⟨hentered ▸ h.entered.cons x, hleft ▸ perm_append_comm.trans (h.left.cons x), ?_⟩
  refine h.templates.trans (.of_eq ?_)
  rw [hentered]
  cases hembeds : x.embedded? with
  | none => exact (filterMap_cons_none hembeds).symm
  | some t => exact (filterMap_cons_some hembeds).symm

/-- The nodes of a template are those of one that is embedded. -/
theorem template {t : Template} (h : Accounted t.nodes [] templates events) :
    Accounted [] [t] (t :: templates) events :=
  ⟨h.entered, h.left, h.templates.cons t⟩

end Accounted

end

/-! ## Passes that change nothing -/

namespace Pass

/-- A pass that leaves everything as it is. -/
structure Observes {σ : Type} (p : Pass σ) : Prop where
  template : ∀ t s, (p.leaveTemplate t s).1 = t
  stmt : ∀ stmt s, (p.leaveStmt stmt s).1 = some stmt
  expr : ∀ e s, (p.leaveExpr e s).1 = e

/-- The state of a pass after an event. -/
def react {σ : Type} (p : Pass σ) (s : σ) : Event → σ
  | .enter (.template t) => (p.enterTemplate t s).2
  | .leave (.template t) => (p.leaveTemplate t s).2
  | .enter (.stmt stmt) => (p.enterStmt stmt s).2
  | .leave (.stmt stmt) => (p.leaveStmt stmt s).2
  | .enter (.expr e) => (p.enterExpr e s).2
  | .leave (.expr e) => (p.leaveExpr e s).2

theorem foldl_around {σ : Type} (p : Pass σ) (s : σ) (x : Node) (inside : List Event) :
    (around x inside).foldl p.react s =
      p.react (inside.foldl p.react (p.react s (.enter x))) (.leave x) := by
  rw [around, cons_append, foldl_cons, foldl_append]
  rfl

end Pass

/-- A walk goes through these nodes and accounts for the own ones and for embedded templates. It
gives `result` in every pass that changes nothing. -/
inductive Visited {α : Type} (nodes own : List Node) (direct : List Template)
    (walk : ∀ {σ : Type}, Pass σ → StateM σ α) (result : α) : Prop
  | intro (templates : List Template) (events : List Event) (traced : TracedAll nodes events)
      (accounted : Accounted own direct templates events)
      (reacts : ∀ {σ : Type} (p : Pass σ), p.Observes → ∀ s : σ,
        walk p s = (result, events.foldl p.react s)) : Visited nodes own direct walk result

namespace Visited

variable {α β γ : Type} {nodes nodes' own own' : List Node} {direct direct' : List Template}
  {walk : ∀ {σ : Type}, Pass σ → StateM σ α} {walk' : ∀ {σ : Type}, Pass σ → StateM σ β} {a : α} {b : β}

theorem nil : Visited [] [] [] (fun _ => pure a) a := ⟨[], [], .nil, .nil, fun _ _ _ => rfl⟩

theorem seq (h : Visited nodes own direct walk a) (h' : Visited nodes' own' direct' walk' b)
    (f : α → β → γ) :
    Visited (nodes ++ nodes') (own ++ own') (direct ++ direct')
      (fun p => do
        let a ← walk p
        return f a (← walk' p)) (f a b) := by
  obtain ⟨_, _, htraced, haccounted, hreacts⟩ := h
  obtain ⟨_, _, htraced', haccounted', hreacts'⟩ := h'
  refine ⟨_, _, htraced.append htraced', haccounted.append haccounted', fun p hp s => ?_⟩
  show (f (walk p s).1 (walk' p (walk p s).2).1, (walk' p (walk p s).2).2) = _
  rw [hreacts p hp, hreacts' p hp, foldl_append]

theorem map (h : Visited nodes own direct walk a) (f : α → β) :
    Visited nodes own direct (fun p => do return f (← walk p)) (f a) := by
  obtain ⟨templates, events, htraced, haccounted, hreacts⟩ := h
  refine ⟨templates, events, htraced, haccounted, fun p hp s => ?_⟩
  show (f (walk p s).1, (walk p s).2) = _
  rw [hreacts p hp]

end Visited

/-! ## Expressions -/

/-- The expressions and all expressions inside them. -/
def exprNodes (list : List Expr) : List Node := (list.flatMap Expr.parts).map .expr

theorem exprNodes_cons (e : Expr) (rest : List Expr) :
    exprNodes (e :: rest) = exprNodes [e] ++ exprNodes rest := by simp [exprNodes]

theorem visited_exprs {list : List Expr}
    (h : ∀ e ∈ list, Visited [.expr e] (exprNodes [e]) [] (·.expr e) e) :
    Visited (list.map .expr) (exprNodes list) [] (·.exprs list) list := by
  induction list with
  | nil => exact .nil
  | cons e rest ih =>
    obtain ⟨hfirst, hrest⟩ := forall_mem_cons.mp h
    rw [exprNodes_cons]
    exact hfirst.seq (ih hrest) cons

theorem visited_expr (e : Expr) : Visited [.expr e] (exprNodes [e]) [] (·.expr e) e := by
  induction e using Expr.children_induction with
  | _ e ih =>
    obtain ⟨templates, inside, htraced, haccounted, hreacts⟩ := visited_exprs ih
    refine ⟨templates, _, .single htraced, ?_, fun p hp s => ?_⟩
    · have hown : exprNodes [e] = .expr e :: exprNodes e.kind.children := by
        rw [exprNodes, flatMap_singleton, e.parts_eq, e.kind.parts_eq, listParts_eq]
        rfl
      rw [hown]
      exact haccounted.node
    · obtain ⟨kind, line, topmost⟩ := e
      have hkind := p.exprKind_eq kind (p.enterExpr ⟨kind, line, topmost⟩ s).2
      rw [hreacts p hp, Expr.Kind.fill_children] at hkind
      show p.leaveExpr ⟨(p.exprKind kind _).1, line, topmost⟩ (p.exprKind kind _).2 = _
      rw [hkind, p.foldl_around]
      exact Prod.ext (hp.expr _ _) rfl

theorem visited_assigned (list : List (String × Expr)) :
    Visited (list.map fun entry => .expr entry.2) (exprNodes (list.map Prod.snd)) []
      (·.assigned list) list := by
  induction list with
  | nil => exact .nil
  | cons entry rest ih =>
    rw [map_cons, map_cons, exprNodes_cons]
    exact (visited_expr entry.2).seq ih fun value rest => (entry.1, value) :: rest

/-! ## Pieces -/

/-- A statement with the expressions in it, but without the statements in it. -/
def Stmt.nodes (stmt : Stmt) : List Node := .stmt stmt :: exprNodes stmt.kind.roots

/-- What is in a piece, but not in an embedded template. -/
def Piece.own (x : Piece) : List Node := exprNodes x.roots ++ x.parts.flatMap Stmt.nodes

theorem flatMap_own_perm (list : List Piece) :
    list.flatMap Piece.own ~
      exprNodes (list.flatMap Piece.roots) ++ (list.flatMap Piece.parts).flatMap Stmt.nodes := by
  rw [exprNodes, flatMap_assoc, map_flatMap, flatMap_assoc]
  exact (flatMap_append_perm ..).symm

theorem Stmt.own_perm (kind : Stmt.Kind) (line : Nat) :
    .stmt ⟨kind, line⟩ :: kind.pieces.flatMap Piece.own ~
      (Stmt.mk kind line).parts.flatMap Stmt.nodes := by
  have h := flatMap_own_perm kind.pieces
  rw [Stmt.Kind.flatMap_roots, Stmt.Kind.flatMap_parts] at h
  exact h.cons _

theorem Template.own_perm (t : Template) : .template t :: t.pieces.flatMap Piece.own ~ t.nodes := by
  have hparts : t.parts.flatMap Stmt.nodes ~
      t.parts.map .stmt ++ exprNodes (t.parts.flatMap (·.kind.roots)) := by
    rw [exprNodes, flatMap_assoc, map_flatMap, map_eq_flatMap]
    exact (flatMap_append_perm _ (fun stmt => [Node.stmt stmt]) _).symm
  have hexprs : t.exprs.map .expr =
      exprNodes (t.parts.flatMap (·.kind.roots)) ++ exprNodes (t.pieces.flatMap Piece.roots) := by
    rw [exprs, t.roots_eq, flatMap_append, map_append]
    rfl
  have h := flatMap_own_perm t.pieces
  rw [t.flatMap_parts] at h
  rw [nodes, hexprs, ← List.append_assoc]
  exact (h.trans (perm_append_comm.trans (hparts.append_right _))).cons _

theorem Stmt.toList_embedded? (kind : Stmt.Kind) (line : Nat) :
    (Node.stmt ⟨kind, line⟩).embedded?.toList = kind.pieces.filterMap Piece.template? := by
  have hbranches : ∀ branches, (branchPieces branches).filterMap Piece.template? = [] := by
    intro branches
    induction branches with
    | nil => rfl
    | cons branch rest ih => exact ih
  cases kind <;> simp [Node.embedded?, embedded?, Kind.pieces, Inclusion.pieces, hbranches,
    filterMap_cons, Function.comp_def]

theorem Template.filterMap_template? (t : Template) : t.pieces.filterMap Piece.template? = [] :=
  filterMap_eq_nil_iff.mpr fun
    | .template _, hx => absurd hx t.template_notMem_pieces
    | .expr _, _ | .named _, _ | .body _, _ => rfl

theorem visited_pieces {list : List Piece}
    (h : ∀ x ∈ list, Visited x.nodes x.own x.template?.toList (·.piece x) x) :
    Visited (list.flatMap Piece.nodes) (list.flatMap Piece.own) (list.filterMap Piece.template?)
      (·.pieces list) list := by
  induction list with
  | nil => exact .nil
  | cons x rest ih =>
    obtain ⟨hfirst, hrest⟩ := forall_mem_cons.mp h
    cases x <;> exact hfirst.seq (ih hrest) cons

theorem hereditary_visited : Hereditary
    (fun x => Visited x.nodes x.own x.template?.toList (·.piece x) x)
    (fun stmt => Visited [.stmt stmt] (stmt.parts.flatMap Stmt.nodes) [] (·.stmt stmt) (some stmt)) where
  expr e := by
    have hown : (Piece.expr e).own = exprNodes [e] := append_nil _
    exact hown ▸ (visited_expr e).map Piece.expr
  named list := by
    have hown : (Piece.named list).own = exprNodes (list.map Prod.snd) := append_nil _
    exact hown ▸ (visited_assigned list).map Piece.named
  nil := .nil
  cons stmt rest hstmt hrest := by
    have h := hstmt.seq hrest fun stmt rest => Piece.body (stmt.toList ++ rest.body?.getD [])
    rw [Piece.own] at h ⊢
    show Visited _ ((stmt.parts ++ bodyParts rest).flatMap Stmt.nodes) _ _ _
    rw [flatMap_append]
    exact h
  stmt kind line h := by
    obtain ⟨templates, inside, htraced, haccounted, hreacts⟩ := visited_pieces h
    refine ⟨templates, _, .single htraced, ?_, fun p hp s => ?_⟩
    · rw [← Stmt.toList_embedded? kind line] at haccounted
      exact haccounted.node.congr (Stmt.own_perm kind line)
    · have hkind := p.stmtKind_eq (p.enterStmt ⟨kind, line⟩ s).2 kind
      rw [hreacts p hp, Stmt.Kind.refill_pieces] at hkind
      show p.leaveStmt ⟨(p.stmtKind kind _).1, line⟩ (p.stmtKind kind _).2 = _
      rw [hkind, p.foldl_around]
      exact Prod.ext (hp.stmt _ _) rfl
  template t h := by
    obtain ⟨templates, inside, htraced, haccounted, hreacts⟩ := visited_pieces h
    refine ⟨t :: templates, _, .single htraced, ?_, fun p hp s => ?_⟩
    · rw [t.filterMap_template?] at haccounted
      exact (haccounted.node.congr t.own_perm).template
    · have hinside := p.inside_eq (p.enterTemplate t s).2 t
      rw [hreacts p hp, Template.refill_pieces] at hinside
      show (Piece.template (p.template t s).1, (p.template t s).2) = _
      rw [p.template_eq]
      show (Piece.template (p.leaveTemplate (p.inside t _).1 (p.inside t _).2).1,
        (p.leaveTemplate (p.inside t _).1 (p.inside t _).2).2) = _
      rw [hinside, p.foldl_around]
      exact congrArg (Piece.template ·, _) (hp.template _ _)

/-- **The events of a walk over a template that changes nothing.** They are nested as the template
is: each node is entered, then its children one after the other, then it is left. Exactly the
statements and expressions of the given templates are entered, each of them once, and left; and these
are the template and those that entered statements embed. A pass that changes nothing gives the
template back, in the state to which these events have brought it. -/
theorem Template.exists_events (t : Template) :
    ∃ events templates, Traced (.template t) events ∧
      events.filterMap Event.entered? ~ templates.flatMap Template.nodes ∧
      events.filterMap Event.left? ~ templates.flatMap Template.nodes ∧
      templates ~ t :: (events.filterMap Event.entered?).filterMap Node.embedded? ∧
      ∀ {σ : Type} (p : Pass σ), p.Observes → ∀ s, p.run s t = (t, events.foldl p.react s) := by
  obtain ⟨templates, events, htraced, haccounted, hreacts⟩ := hereditary_visited.all_template t
  refine ⟨events, templates, ?_, haccounted.entered, haccounted.left, haccounted.templates,
    fun p hp s => ?_⟩
  · cases htraced with
    | cons first others =>
      cases others
      rwa [append_nil]
  · have hpiece := Prod.ext_iff.mp (hreacts p hp s)
    exact Prod.ext (Piece.template.inj hpiece.1) hpiece.2

end TwigToLatte
