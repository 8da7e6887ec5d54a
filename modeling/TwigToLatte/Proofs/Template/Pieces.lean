import TwigToLatte.Template

/-!
# The pieces of statements and templates

A statement holds expressions, bodies or a template, each form in a way of its own, and a template
holds bodies and expressions. What is walked piece by piece need not know these forms.

* `Piece` — an expression, named expressions, a body or an embedded template.
* `Stmt.Kind.pieces`, `Stmt.Kind.refill` — the pieces of a statement from left to right, and the same
  form with others in their places.
* `Template.pieces`, `Template.refill` — the same of a template: its body, its blocks, its macros and
  its parent.
* `Hereditary.all` — **induction over the pieces inside a piece**.
-/

namespace TwigToLatte

open List

/-- What a statement or a template holds. -/
inductive Piece where
  | expr (e : Expr)
  /-- The values of assigned variables, or the defaults of parameters. -/
  | named (list : List (String × Expr))
  | body (body : List Stmt)
  | template (t : Template)

namespace Piece

@[simp] def expr? : Piece → Option Expr
  | .expr e => some e
  | _ => none

@[simp] def named? : Piece → Option (List (String × Expr))
  | .named list => some list
  | _ => none

@[simp] def body? : Piece → Option (List Stmt)
  | .body list => some list
  | _ => none

@[simp] def template? : Piece → Option Template
  | .template t => some t
  | _ => none

theorem mem_filterMap_body? {list : List Piece} {stmts : List Stmt} :
    stmts ∈ list.filterMap body? ↔ .body stmts ∈ list := by
  refine mem_filterMap.trans ⟨?_, fun h => ⟨_, h, rfl⟩⟩
  rintro ⟨_ | _ | _ | _, hx, ⟨⟩⟩
  exact hx

end Piece

/-! ## Statements -/

/-- Each test of a condition and the body after it. -/
def branchPieces : List (Expr × List Stmt) → List Piece
  | [] => []
  | (test, body) :: rest => .expr test :: .body body :: branchPieces rest

def Inclusion.pieces (included : Inclusion) : List Piece :=
  .expr included.template :: included.bindings.toList.map .expr

/-- The pieces of a statement, from left to right. -/
def Stmt.Kind.pieces : Stmt.Kind → List Piece
  | .text _ | .comment _ | .verbatim _ | .block _ | .flush => []
  | .print e | .output e | .evaluate e | .deprecated e | .importAs e _ | .useBlocks e _
  | .inherit e => [.expr e]
  | .loop _ _ sequence body otherwise _ =>
    .expr sequence :: .body body :: otherwise.toList.map .body
  | .branch branches otherwise => branchPieces branches ++ otherwise.toList.map .body
  | .assign targets => [.named targets]
  | .capture _ body | .autoescape _ body | .sandbox body => [.body body]
  | .inclusion included => included.pieces
  | .embed included t => included.pieces ++ [.template t]
  | .scope bindings _ body => bindings.toList.map .expr ++ [.body body]
  | .apply filter body => [.expr filter, .body body]
  | .cache key ttl tags body =>
    .expr key :: (ttl.toList ++ tags.toList).map .expr ++ [.body body]

/-- The same form with other pieces in the places of its own. -/
def Stmt.Kind.refill (kind : Stmt.Kind) (pieces : List Piece) : Stmt.Kind :=
  let exprs := pieces.filterMap Piece.expr?
  let bodies := pieces.filterMap Piece.body?
  let e := exprs.headD default
  let body := bodies.headD []
  match kind with
  | .print _ => .print e
  | .output _ => .output e
  | .evaluate _ => .evaluate e
  | .deprecated _ => .deprecated e
  | .importAs _ localName => .importAs e localName
  | .useBlocks _ targets => .useBlocks e targets
  | .inherit _ => .inherit e
  | .loop key value _ _ _ withLoop => .loop key value e body bodies.tail.head? withLoop
  | .branch _ _ => .branch (exprs.zip bodies) (bodies.drop exprs.length).head?
  | .assign _ => .assign ((pieces.filterMap Piece.named?).headD [])
  | .capture name _ => .capture name body
  | .autoescape strategy _ => .autoescape strategy body
  | .sandbox _ => .sandbox body
  | .inclusion included =>
    .inclusion { included with template := e, bindings := exprs.tail.head? }
  | .embed included _ =>
    .embed { included with template := e, bindings := exprs.tail.head? }
      ((pieces.filterMap Piece.template?).headD default)
  | .scope _ only _ => .scope exprs.head? only body
  | .apply _ _ => .apply e body
  | .cache _ ttl tags _ =>
    .cache e (ttl.bind fun _ => exprs.tail.head?) (tags.bind fun _ => exprs.getLast?) body
  | kind => kind

section

variable (branches : List (Expr × List Stmt))

theorem filterMap_expr?_branchPieces :
    (branchPieces branches).filterMap Piece.expr? = branches.map Prod.fst := by
  induction branches with
  | nil => rfl
  | cons branch rest ih => exact congrArg (branch.1 :: ·) ih

theorem filterMap_body?_branchPieces :
    (branchPieces branches).filterMap Piece.body? = branches.map Prod.snd := by
  induction branches with
  | nil => rfl
  | cons branch rest ih => exact congrArg (branch.2 :: ·) ih

theorem zip_branches (more : List (List Stmt)) :
    (branches.map Prod.fst).zip (branches.map Prod.snd ++ more) = branches := by
  induction branches with
  | nil => rfl
  | cons branch rest ih => exact congrArg (branch :: ·) ih

end

theorem Stmt.Kind.refill_branch (others : List (Expr × List Stmt)) (other : Option (List Stmt))
    (branches : List (Expr × List Stmt)) (otherwise : Option (List Stmt)) :
    (Stmt.Kind.branch others other).refill (branchPieces branches ++ otherwise.toList.map .body) =
      .branch branches otherwise := by
  have hexprs : (branchPieces branches ++ otherwise.toList.map Piece.body).filterMap Piece.expr? =
      branches.map Prod.fst := by
    rw [filterMap_append, filterMap_expr?_branchPieces]
    cases otherwise <;> exact append_nil _
  have hbodies : (branchPieces branches ++ otherwise.toList.map Piece.body).filterMap Piece.body? =
      branches.map Prod.snd ++ otherwise.toList := by
    rw [filterMap_append, filterMap_body?_branchPieces]
    cases otherwise <;> rfl
  have hlength : (branches.map Prod.snd).length = (branches.map Prod.fst).length := by
    rw [length_map, length_map]
  show Stmt.Kind.branch (List.zip _ _) (List.drop (List.length _) _).head? = _
  rw [hexprs, hbodies, zip_branches, drop_left' hlength]
  cases otherwise <;> rfl

theorem Stmt.Kind.refill_pieces (kind : Stmt.Kind) : kind.refill kind.pieces = kind := by
  cases kind with
  | loop key value sequence body otherwise withLoop => cases otherwise <;> rfl
  | branch branches otherwise => exact refill_branch branches otherwise branches otherwise
  | inclusion included | embed included =>
    obtain ⟨template, bindings, _, _, _⟩ := included
    cases bindings <;> rfl
  | scope bindings only body => cases bindings <;> rfl
  | cache key ttl tags body => cases ttl <;> cases tags <;> rfl
  | _ => rfl

/-! ## Templates -/

/-- The defaults of each macro and the body after them. -/
def macroPieces : List (String × MacroDef) → List Piece
  | [] => []
  | (_, definition) :: rest =>
    .named definition.params :: .body definition.body :: macroPieces rest

/-- The pieces of a template: its body, its blocks, its macros and its parent. -/
def Template.pieces (t : Template) : List Piece :=
  .body t.body :: t.blocks.map (fun block => .body block.2.body) ++ macroPieces t.macros ++
    t.parent.toList.map .expr

/-- Other bodies in the places of those of blocks. -/
def refillBlocks (blocks : List (String × Block)) (bodies : List (List Stmt)) :
    List (String × Block) :=
  blocks.zipWith (fun block body => (block.1, ⟨body, block.2.line⟩)) bodies

/-- Other defaults and bodies in the places of those of macros. -/
def refillMacros (macros : List (String × MacroDef)) (defaults : List (List (String × Expr)))
    (bodies : List (List Stmt)) : List (String × MacroDef) :=
  macros.zipWith
    (fun definition parts => (definition.1, ⟨parts.1, parts.2, definition.2.line⟩))
    (defaults.zip bodies)

/-- The same template with other pieces in the places of its own. -/
def Template.refill (t : Template) (pieces : List Piece) : Template :=
  let bodies := pieces.filterMap Piece.body?
  { body := bodies.headD []
    blocks := refillBlocks t.blocks bodies.tail
    macros := refillMacros t.macros (pieces.filterMap Piece.named?) (bodies.tail.drop t.blocks.length)
    parent := (pieces.filterMap Piece.expr?).head?
    setup := t.setup }

section

variable (macros : List (String × MacroDef))

theorem filterMap_named?_macroPieces :
    (macroPieces macros).filterMap Piece.named? = macros.map (·.2.params) := by
  induction macros with
  | nil => rfl
  | cons definition rest ih => exact congrArg (definition.2.params :: ·) ih

theorem filterMap_body?_macroPieces :
    (macroPieces macros).filterMap Piece.body? = macros.map (·.2.body) := by
  induction macros with
  | nil => rfl
  | cons definition rest ih => exact congrArg (definition.2.body :: ·) ih

theorem filterMap_expr?_macroPieces : (macroPieces macros).filterMap Piece.expr? = [] := by
  induction macros with
  | nil => rfl
  | cons definition rest ih => exact ih

theorem refillMacros_eq :
    refillMacros macros (macros.map (·.2.params)) (macros.map (·.2.body)) = macros := by
  induction macros with
  | nil => rfl
  | cons definition rest ih =>
    obtain ⟨name, params, body, line⟩ := definition
    exact congrArg (_ :: ·) ih

end

section

variable (blocks : List (String × Block))

theorem refillBlocks_eq (more : List (List Stmt)) :
    refillBlocks blocks (blocks.map (·.2.body) ++ more) = blocks := by
  induction blocks with
  | nil => rfl
  | cons block rest ih =>
    obtain ⟨name, body, line⟩ := block
    exact congrArg (_ :: ·) ih

end

theorem Template.refill_pieces (t : Template) : t.refill t.pieces = t := by
  obtain ⟨body, blocks, macros, parent, setup⟩ := t
  have hbodies : (pieces ⟨body, blocks, macros, parent, setup⟩).filterMap Piece.body? =
      body :: (blocks.map (·.2.body) ++ macros.map (·.2.body)) := by
    simp [pieces, filterMap_body?_macroPieces, Function.comp_def]
  have hblocks : blocks.filterMap (fun _ => (none : Option (List (String × Expr)))) = [] :=
    filterMap_eq_nil_iff.mpr fun _ _ => rfl
  have hnamed : (pieces ⟨body, blocks, macros, parent, setup⟩).filterMap Piece.named? =
      macros.map (·.2.params) := by
    cases parent <;>
      simp [pieces, filterMap_cons, filterMap_named?_macroPieces, Function.comp_def, hblocks]
  have hexprs : (pieces ⟨body, blocks, macros, parent, setup⟩).filterMap Piece.expr? =
      parent.toList := by
    simp [pieces, filterMap_cons, filterMap_expr?_macroPieces, Function.comp_def]
  rw [refill, hbodies, hnamed, hexprs]
  simp [refillBlocks_eq, refillMacros_eq]

/-! ## Induction -/

/-- A property of pieces, and one of statements, that hold of what holds pieces and statements for
which they hold. -/
structure Hereditary (P : Piece → Prop) (S : Stmt → Prop) : Prop where
  expr : ∀ e, P (.expr e)
  named : ∀ list, P (.named list)
  nil : P (.body [])
  cons : ∀ stmt rest, S stmt → P (.body rest) → P (.body (stmt :: rest))
  stmt : ∀ kind line, (∀ x ∈ Stmt.Kind.pieces kind, P x) → S ⟨kind, line⟩
  template : ∀ t, (∀ x ∈ Template.pieces t, P x) → P (.template t)

namespace Hereditary

variable {P : Piece → Prop} {S : Stmt → Prop}

theorem exprs (h : Hereditary P S) (list : List Expr) : ∀ x ∈ list.map Piece.expr, P x :=
  forall_mem_map.mpr fun e _ => h.expr e

mutual

theorem all_stmt (h : Hereditary P S) : ∀ stmt : Stmt, S stmt
  | ⟨kind, line⟩ => h.stmt kind line (all_kind h kind)

theorem all_kind (h : Hereditary P S) : ∀ kind : Stmt.Kind, ∀ x ∈ kind.pieces, P x
  | .text _ | .comment _ | .verbatim _ | .block _ | .flush => forall_mem_nil _
  | .print e | .output e | .evaluate e | .deprecated e | .importAs e _ | .useBlocks e _
  | .inherit e => forall_mem_singleton.mpr (h.expr e)
  | .loop _ _ sequence body otherwise _ =>
    forall_mem_cons.mpr ⟨h.expr sequence, forall_mem_cons.mpr
      ⟨all_body h body, all_optional h otherwise⟩⟩
  | .branch branches otherwise =>
    forall_mem_append.mpr ⟨all_branches h branches, all_optional h otherwise⟩
  | .assign targets => forall_mem_singleton.mpr (h.named targets)
  | .capture _ body | .autoescape _ body | .sandbox body =>
    forall_mem_singleton.mpr (all_body h body)
  | .inclusion included => h.exprs (included.template :: included.bindings.toList)
  | .embed included t =>
    forall_mem_append.mpr ⟨h.exprs (included.template :: included.bindings.toList),
      forall_mem_singleton.mpr (all_template h t)⟩
  | .scope bindings _ body =>
    forall_mem_append.mpr ⟨h.exprs bindings.toList,
      forall_mem_singleton.mpr (all_body h body)⟩
  | .apply filter body =>
    forall_mem_cons.mpr ⟨h.expr filter, forall_mem_singleton.mpr (all_body h body)⟩
  | .cache key ttl tags body =>
    forall_mem_append.mpr ⟨h.exprs (key :: (ttl.toList ++ tags.toList)),
      forall_mem_singleton.mpr (all_body h body)⟩

theorem all_body (h : Hereditary P S) : ∀ body : List Stmt, P (.body body)
  | [] => h.nil
  | stmt :: rest => h.cons stmt rest (all_stmt h stmt) (all_body h rest)

theorem all_optional (h : Hereditary P S) : ∀ body : Option (List Stmt),
    ∀ x ∈ body.toList.map Piece.body, P x
  | none => forall_mem_nil _
  | some body => forall_mem_singleton.mpr (all_body h body)

theorem all_branches (h : Hereditary P S) : ∀ branches : List (Expr × List Stmt),
    ∀ x ∈ branchPieces branches, P x
  | [] => forall_mem_nil _
  | (test, body) :: rest =>
    forall_mem_cons.mpr ⟨h.expr test, forall_mem_cons.mpr
      ⟨all_body h body, all_branches h rest⟩⟩

theorem all_blocks (h : Hereditary P S) : ∀ blocks : List (String × Block),
    ∀ x ∈ blocks.map (fun block => Piece.body block.2.body), P x
  | [] => forall_mem_nil _
  | (_, ⟨body, _⟩) :: rest => forall_mem_cons.mpr ⟨all_body h body, all_blocks h rest⟩

theorem all_macros (h : Hereditary P S) : ∀ macros : List (String × MacroDef),
    ∀ x ∈ macroPieces macros, P x
  | [] => forall_mem_nil _
  | (_, ⟨params, body, _⟩) :: rest =>
    forall_mem_cons.mpr ⟨h.named params, forall_mem_cons.mpr
      ⟨all_body h body, all_macros h rest⟩⟩

theorem all_template (h : Hereditary P S) : ∀ t : Template, P (.template t)
  | ⟨body, blocks, macros, parent, setup⟩ => by
    refine h.template _ (forall_mem_append.mpr ⟨forall_mem_append.mpr
      ⟨forall_mem_cons.mpr ⟨all_body h body, all_blocks h blocks⟩, all_macros h macros⟩, ?_⟩)
    exact h.exprs parent.toList

end

/-- **Induction over the pieces inside a piece.** -/
theorem all (h : Hereditary P S) : ∀ x : Piece, P x
  | .expr e => h.expr e
  | .named list => h.named list
  | .body body => all_body h body
  | .template t => all_template h t

end Hereditary

end TwigToLatte
