import TwigToLatte.Proofs.Latte.Positions

/-!
# Fragments of rendered text

What stands in an expression is written in the scope of the expression, and what stands in a
statement in the scope of the statement.

* `Rendered.In` — a text is put together from a part.
* `Expr.Shows` — an expression that is written with another one. Only some tests, tests for
  definedness and calls of macros leave an expression out.
* `in_expressionKind` — the part of a child is a part of the whole, by the form of the expression.
* `Position.Renders`, `Reached.renders` — **a variable at a position is written in the scope of the
  position**.
-/

namespace TwigToLatte

open List Latte

/-- A text is put together from a part: what is written beside it does not matter, nor that names of
templates get another extension and printed expressions their tag. -/
inductive Latte.Rendered.In (part : Rendered) : Rendered → Prop
  | self : In part part
  | left {a b : Rendered} (h : In part a) : In part (a ++ b)
  | right {a b : Rendered} (h : In part b) : In part (a ++ b)
  | extension {a : Rendered} (h : In part a) : In part (a.map latteExtension)
  | tag {a : Rendered} (h : In part a) : In part (a.map printTag)

/-- After an error nothing is missed. -/
theorem Latte.Rendered.In.fail {part : Rendered} (error : RenderError) : part.In (.fail error) := by
  rw [← append_of_error (a := .fail error) (Option.some_ne_none error) part]
  exact .right .self

attribute [grind ←] Latte.Rendered.In.left Latte.Rendered.In.right Latte.Rendered.In.extension
  Latte.Rendered.In.tag Latte.Rendered.In.fail

/-- The expressions that stand directly in an expression and are written with it. -/
def Expr.Kind.shown : Expr.Kind → List Expr
  | .access object key list call defined =>
    if defined && call == .method then [] else object :: key :: list
  | .macroCall _ _ list defined => if defined then [] else list.map (·.value)
  | .test e _ kind list =>
    e :: match kind, list with
      | .generic, _ => list.map (·.value)
      | .constant, a :: b :: _ => [a.value, b.value]
      | .constant, [a] | .divisibleBy, a :: _ | .sameAs, a :: _ => [a.value]
      | _, _ => []
  | .blockCall e template defined _ => if defined then [e] else e :: template.toList
  | kind => kind.children

/-- An expression is written with another one that it stands in. -/
inductive Expr.Shows (x : Expr) : Expr → Prop
  | self : Shows x x
  | child {e c : Expr} (hc : c ∈ e.kind.shown) (h : Shows x c) : Shows x e

namespace Latte

variable {scope : Scope} {part : Rendered} {e : Expr}

/-! ## Expressions -/

/-- The text of the expression has the part, alone or not. -/
def Shown (scope : Scope) (part : Rendered) (e : Expr) : Prop :=
  ∀ topmost, part.In (expressionKind scope e.kind e.line topmost)

namespace Shown

theorem in_expression (h : Shown scope part e) : part.In (expression scope e) := by
  cases e
  exact h _

theorem in_expressionAlone (h : Shown scope part e) : part.In (expressionAlone scope e) := by
  cases e
  exact h _

theorem in_operand (h : Shown scope part e) : part.In (operand scope e) := by
  cases e
  unfold operand
  split
  · exact .left (.right (h _))
  · exact h _

end Shown

attribute [grind →] Shown.in_expression Shown.in_expressionAlone Shown.in_operand

@[grind =] theorem argument_eq (a : Argument Expr) :
    argument scope a = argumentName a.name ++ expression scope a.value := by
  cases a
  rfl

@[grind ←] theorem in_moreArguments {list : List (Argument Expr)}
    (h : ∃ x ∈ list.map (·.value), Shown scope part x) : part.In (moreArguments scope list) := by
  induction list with
  | nil => simp at h
  | cons first rest ih => grind [moreArguments]

@[grind ←] theorem in_moreExpressions {list : List Expr} (h : ∃ x ∈ list, Shown scope part x) :
    part.In (moreExpressions scope list) := by
  induction list with
  | nil => simp at h
  | cons first rest ih => grind [moreExpressions]

/-- The value of an array element, or its key if that is no constant, has the part. -/
def ShownItem (scope : Scope) (part : Rendered) (item : Expr × Expr) : Prop :=
  item.1.constant? = none ∧ Shown scope part item.1 ∨ Shown scope part item.2

@[grind ←] theorem in_moreElements {count : Nat} {items : List (Expr × Expr)}
    (h : ∃ item ∈ items, ShownItem scope part item) :
    part.In (moreElements scope count items) := by
  induction items generalizing count with
  | nil => simp at h
  | cons first rest ih => grind [moreElements, ShownItem, element.eq_def, isImpliedKey]

@[grind ←] theorem in_elements {items : List (Expr × Expr)}
    (h : ∃ item ∈ items, ShownItem scope part item) : part.In (elements scope items) := by
  cases items <;> grind [elements, ShownItem, element.eq_def, isImpliedKey]

/-- What is written in an expression that stands in another one is written with that. -/
theorem in_expressionKind {kind : Expr.Kind} {c : Expr} (hc : c ∈ kind.shown)
    (hconstant : c.constant? = none) (h : Shown scope part c) (line : Nat) (topmost : Bool) :
    part.In (expressionKind scope kind line topmost) := by
  have hnull : c.isNull = false := by grind [Expr.isNull, Expr.constant?]
  cases kind <;> unfold expressionKind <;> simp only [Expr.Kind.shown, Expr.Kind.children] at hc
  case test e name kind list =>
    rcases list with _ | ⟨⟨_, _⟩, _ | ⟨⟨_, _⟩, _⟩⟩ <;> cases kind <;>
      grind [classOf, Rendered.parenthesize]
  case filter list => cases list <;> grind [filterCall, Rendered.parenthesize]
  case function kind list _ =>
    rcases list with _ | ⟨⟨_, _⟩, _⟩ <;> cases kind <;>
      grind [arguments, inclusionArguments, Rendered.parenthesize]
  case blockCall template _ _ => cases template <;> grind [fromTemplate, Expr.string?]
  case array => grind [ShownItem]
  case access list _ _ => cases list <;> grind [plainKey?, Rendered.parenthesize, expressions]
  all_goals grind [groupUnless, Rendered.parenthesize]

/-! ## Statements -/

/-- A text that the event writes has the part. -/
def Event.Has (part : Rendered) : Event → Prop
  | .text r => part.In r
  | .fresh f => ∀ name, part.In (f name)
  | _ => False

theorem in_commaSeparated {list : List Rendered} {r : Rendered} (hr : r ∈ list) (h : part.In r) :
    part.In (commaSeparated list) := by
  have hfold : ∀ (rest : List Rendered) (start : Rendered), part.In start ∨ r ∈ rest →
      part.In (rest.foldl (fun text r => text ++ ", " ++ r) start) := by
    intro rest
    induction rest with
    | nil => grind
    | cons r rest ih => grind
  cases list <;> grind [commaSeparated]

theorem exists_branchBodies {branches : List (Expr × List Stmt)} {block : BlockScript}
    (hmem : e ∈ branches.map Prod.fst) (h : Shown scope part e) (tag : String) :
    ∃ event ∈ Script.branchBodies tag branches block scope, event.Has part := by
  induction branches generalizing tag with
  | nil => cases hmem
  | cons first rest ih =>
    rw [Script.branchBodies]
    rcases mem_cons.mp hmem with rfl | hmem
    · exact ⟨_, mem_cons_self, .left (.right h.in_expression)⟩
    · obtain ⟨event, hevent, hpart⟩ := ih hmem "elseif"
      exact ⟨event, mem_append_right _ hevent, hpart⟩

variable {x : Expr} {name : String} {defined : Bool} (hx : x.kind = .name name defined)
include hx

/-- The text of a variable is a part of the text of what it is written with, in the same scope. -/
theorem shown_variable (h : x.Shows e) (scope : Scope) :
    e.constant? = none ∧ Shown scope (expression scope x) e := by
  induction h with
  | self =>
    obtain ⟨kind, line, own⟩ := x
    cases hx
    refine ⟨rfl, fun topmost => ?_⟩
    rw [expression, expressionKind, expressionKind]
    exact .self
  | @child e c hc _ ih =>
    refine ⟨?_, in_expressionKind hc ih.1 ih.2 e.line⟩
    grind [Expr.constant?, Expr.Kind.shown, Expr.Kind.children]

/-- A variable that is written with an array is written with one of its elements. -/
theorem shownItem_variable {items : List (Expr × Expr)} (h : x.Shows e)
    (he : e.kind = .array items) (scope : Scope) :
    ∃ item ∈ items, ShownItem scope (expression scope x) item := by
  cases h with
  | self =>
    rw [hx] at he
    cases he
  | child hc h =>
    have hshown := shown_variable hx h scope
    simp only [he, Expr.Kind.shown, Expr.Kind.children] at hc
    grind [ShownItem]

theorem in_inclusionHead {included : Inclusion} (hmem : e ∈ included.roots) (h : x.Shows e)
    (tag : String) : (expression scope x).In (inclusionHead scope tag included) := by
  have hshown := (shown_variable hx h scope).2
  rcases mem_cons.mp hmem with rfl | hmem
  · exact .left (.right (.extension hshown.in_expression))
  · refine .right (.left ?_)
    rw [Option.mem_toList.mp hmem, inclusionVariables.eq_def]
    split
    · contradiction
    · rename_i heq
      cases heq
      exact .right (in_elements (shownItem_variable hx h rfl scope))
    · rename_i heq
      cases heq
      exact .right hshown.in_expression

theorem exists_scopeVariables (h : x.Shows e) :
    ∃ event ∈ Script.scopeVariables scope e, event.Has (expression scope x) := by
  unfold Script.scopeVariables
  split
  · simpa using shownItem_variable hx h rfl scope
  · obtain ⟨item, hmem, hitem⟩ := shownItem_variable hx h rfl scope
    refine ⟨_, mem_cons_self, .left (.right (in_commaSeparated (mem_map_of_mem hmem) ?_))⟩
    grind [ShownItem, scopeVariable, Expr.string?]
  · exact ⟨_, mem_cons_self, fun _ => .left (.right (shown_variable hx h scope).2.in_expression)⟩

theorem exists_statementKind {kind : Stmt.Kind} (hmem : e ∈ kind.roots) (h : x.Shows e)
    (line : Nat) (block : BlockScript) :
    ∃ event ∈ Script.statementKind kind line block scope, event.Has (expression scope x) := by
  have hshown := (shown_variable hx h scope).2
  cases kind with
  | branch =>
    obtain ⟨event, hevent, hpart⟩ := exists_branchBodies hmem hshown "if"
    exact ⟨event, mem_append_left _ (mem_append_left _ hevent), hpart⟩
  | inclusion | embed =>
    exact ⟨_, mem_cons_of_mem _ mem_cons_self, in_inclusionHead hx hmem h _⟩
  | scope =>
    cases Option.mem_toList.mp hmem
    obtain ⟨event, hevent, hpart⟩ := exists_scopeVariables hx h
    exact ⟨event, mem_append_left _ (mem_append_left _ (mem_cons_of_mem _
      (mem_append_left _ hevent))), hpart⟩
  | assign =>
    obtain ⟨target, htarget, rfl⟩ := mem_map.mp hmem
    exact ⟨_, mem_cons_self,
      .left (.right (in_commaSeparated (mem_map_of_mem htarget) (.right hshown.in_expression)))⟩
  | text | comment | verbatim | block | capture | autoescape | sandbox | flush => cases hmem
  | _ =>
    refine ⟨_, mem_cons_self, ?_⟩
    grind [Event.Has, Stmt.Kind.roots, loopHead, templateTag, fileName, cacheOption, deprecation]

end Latte

/-! ## Positions -/

namespace Position

variable {root : Template} {scope : Latte.Scope} {p : Position} {stmt : Stmt} {x : Expr}

/-- In the course of writing a template the statement is written in the scope of the position, and
so is the expression in it. -/
def Renders (root : Template) (scope : Latte.Scope) (p : Position) (stmt : Stmt)
    (x : Expr) : Prop :=
  ∃ depth,
    let script := Script.statement stmt (Script.blocks (Script.blockBodies p.template.blocks) depth)
      p.scope
    script.Inside (Script.template root scope) ∧
      ∃ event ∈ script, event.Has (expression p.scope x)

/-- **A variable at a position is written in the scope of the position.** -/
theorem Reached.renders (h : Reached root scope p) {out after : Output}
    (hrun : Latte.template root scope out = .ok () after) (hstmt : stmt ∈ p.stmts)
    {name : String} {defined : Bool} (hx : x.kind = .name name defined)
    (hshows : ∃ e ∈ stmt.kind.roots, x.Shows e) : p.Renders root scope stmt x := by
  obtain ⟨depth, hinside⟩ := h.within hrun
  obtain ⟨kind, line⟩ := stmt
  obtain ⟨e, hmem, he⟩ := hshows
  obtain ⟨event, hevent, hpart⟩ := exists_statementKind hx hmem he line _
  refine ⟨depth, (Script.Inside.statement hstmt).trans hinside, event, ?_, hpart⟩
  cases kind <;> first | exact hevent | exact mem_cons_of_mem _ hevent

end Position

end TwigToLatte
