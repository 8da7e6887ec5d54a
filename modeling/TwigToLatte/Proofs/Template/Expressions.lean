import TwigToLatte.Proofs.Template.Places

/-!
# The expressions of a template

* `Expr.parts` — an expression with the expressions inside it.
* `Expr.Kind.children`, `Expr.Kind.fill` — the expressions that stand directly in an expression, and
  the same form with others in their places.
* `Expr.children_induction` — induction over the expressions inside an expression.
* `Stmt.Kind.roots` — the expressions that stand in a statement itself, not in statements inside it.
* `Template.roots`, `Template.exprs` — the expressions of a template: of its statements, the
  defaults of its macros and its parent. Those of embedded templates and of the statements that
  prepare the template are not among them.
* `Relative.all_pieces` — induction over the pieces of a template whose expressions, statements and
  embedded templates have properties of their own.
-/

namespace TwigToLatte

open List

/-! ## Expressions inside expressions -/

mutual

/-- The expression and the expressions inside it, in the order in which they are written. -/
def Expr.parts : Expr → List Expr
  | ⟨kind, line, topmost⟩ => ⟨kind, line, topmost⟩ :: kind.parts

def Expr.Kind.parts : Expr.Kind → List Expr
  | .constant _ | .name _ _ | .target _ | .parent _ _ | .applyTarget => []
  | .array items => itemParts items
  | .unary _ operand => operand.parts
  | .binary _ left right => left.parts ++ right.parts
  | .conditional test yes no => test.parts ++ yes.parts ++ no.parts
  | .access object key list _ _ => object.parts ++ key.parts ++ listParts list
  | .macroCall object _ list _ => object.parts ++ argumentParts list
  | .filter operand _ list => operand.parts ++ argumentParts list
  | .function _ _ list _ => argumentParts list
  | .test operand _ _ list => operand.parts ++ argumentParts list
  | .arrow _ body => body.parts
  | .blockCall name template _ _ => name.parts ++ optionalExprParts template

def listParts : List Expr → List Expr
  | [] => []
  | e :: rest => e.parts ++ listParts rest

def itemParts : List (Expr × Expr) → List Expr
  | [] => []
  | (key, value) :: rest => key.parts ++ value.parts ++ itemParts rest

def argumentParts : List (Argument Expr) → List Expr
  | [] => []
  | ⟨_, value⟩ :: rest => value.parts ++ argumentParts rest

def optionalExprParts : Option Expr → List Expr
  | none => []
  | some e => e.parts

end

theorem Expr.parts_eq (e : Expr) : e.parts = e :: e.kind.parts := by
  cases e
  rfl

theorem itemParts_eq (items : List (Expr × Expr)) :
    itemParts items = items.flatMap fun item => item.1.parts ++ item.2.parts :=
  eq_flatMap_of_cons rfl (fun _ _ => rfl) items

theorem argumentParts_eq (list : List (Argument Expr)) :
    argumentParts list = list.flatMap fun argument => argument.value.parts :=
  eq_flatMap_of_cons rfl (fun _ _ => rfl) list

theorem listParts_eq (list : List Expr) : listParts list = list.flatMap Expr.parts :=
  eq_flatMap_of_cons rfl (fun _ _ => rfl) list

/-! ## Expressions as trees -/

/-- The expressions that stand directly in an expression, from left to right. -/
def Expr.Kind.children : Expr.Kind → List Expr
  | .constant _ | .name _ _ | .target _ | .parent _ _ | .applyTarget => []
  | .array items => items.flatMap fun item => [item.1, item.2]
  | .unary _ e | .arrow _ e => [e]
  | .binary _ left right => [left, right]
  | .conditional e yes no => [e, yes, no]
  | .access object key list _ _ => object :: key :: list
  | .macroCall e _ list _ | .filter e _ list | .test e _ _ list => e :: list.map (·.value)
  | .function _ _ list _ => list.map (·.value)
  | .blockCall e template _ _ => e :: template.toList

/-- Other keys and values in the places of those of an array. -/
def fillItems : List (Expr × Expr) → List Expr → List (Expr × Expr)
  | _ :: items, key :: value :: list => (key, value) :: fillItems items list
  | _, _ => []

/-- Other values in the places of those of arguments. -/
def fillArguments (arguments : List (Argument Expr)) (list : List Expr) : List (Argument Expr) :=
  arguments.zipWith (fun argument value => { argument with value }) list

/-- The same form with other expressions in the places of those that stand in it. -/
def Expr.Kind.fill : Expr.Kind → List Expr → Expr.Kind
  | .array items, list => .array (fillItems items list)
  | .unary op _, [e] => .unary op e
  | .arrow names _, [e] => .arrow names e
  | .binary op _ _, [left, right] => .binary op left right
  | .conditional _ _ _, [e, yes, no] => .conditional e yes no
  | .access _ _ _ call defined, object :: key :: list => .access object key list call defined
  | .macroCall _ method old defined, e :: list =>
    .macroCall e method (fillArguments old list) defined
  | .filter _ label old, e :: list => .filter e label (fillArguments old list)
  | .function label kind old defined, list => .function label kind (fillArguments old list) defined
  | .test _ label kind old, e :: list => .test e label kind (fillArguments old list)
  | .blockCall _ _ defined output, e :: list => .blockCall e list.head? defined output
  | kind, _ => kind

theorem Expr.Kind.parts_eq (kind : Expr.Kind) : kind.parts = listParts kind.children := by
  cases kind with
  | array items =>
    rw [parts, children, itemParts_eq, listParts_eq, flatMap_assoc]
    simp
  | blockCall name template defined output =>
    cases template <;> simp [parts, children, optionalExprParts, listParts]
  | _ => simp [parts, children, listParts_eq, argumentParts_eq, flatMap_map]

theorem fillItems_eq (items : List (Expr × Expr)) :
    fillItems items (items.flatMap fun item => [item.1, item.2]) = items := by
  induction items with
  | nil => rfl
  | cons item rest ih => exact congrArg (item :: ·) ih

theorem fillArguments_eq (list : List (Argument Expr)) :
    fillArguments list (list.map (·.value)) = list := by
  induction list with
  | nil => rfl
  | cons argument rest ih => exact congrArg (argument :: ·) ih

theorem Expr.Kind.fill_children (kind : Expr.Kind) : kind.fill kind.children = kind := by
  cases kind with
  | array items => exact congrArg _ (fillItems_eq items)
  | blockCall name template defined output => cases template <;> rfl
  | macroCall | filter | function | test => simp only [children, fill, fillArguments_eq]
  | _ => rfl

variable {list : List Expr}

theorem flatMap_fillItems {items : List (Expr × Expr)}
    (h : list.length = (items.flatMap fun item => [item.1, item.2]).length) :
    (fillItems items list).flatMap (fun item => [item.1, item.2]) = list := by
  induction items generalizing list with
  | nil => exact (eq_nil_of_length_eq_zero h).symm
  | cons item rest ih =>
    match list with
    | [] | [_] => simp at h
    | key :: value :: list =>
      have hrest : list.length = (rest.flatMap fun item => [item.1, item.2]).length := by
        simpa using h
      exact congrArg (key :: value :: ·) (ih hrest)

theorem map_fillArguments {arguments : List (Argument Expr)}
    (h : list.length = (arguments.map (·.value)).length) :
    (fillArguments arguments list).map (·.value) = list := by
  induction arguments generalizing list with
  | nil => exact (eq_nil_of_length_eq_zero h).symm
  | cons argument rest ih =>
    cases list with
    | nil => simp at h
    | cons e list => exact congrArg (e :: ·) (ih (Nat.succ.inj h))

theorem Expr.Kind.children_fill {kind : Expr.Kind} (h : list.length = kind.children.length) :
    (kind.fill list).children = list := by
  cases kind with
  | array items => exact flatMap_fillItems h
  | function name kind arguments defined => exact map_fillArguments h
  | constant | name | target | parent | applyTarget =>
    exact (eq_nil_of_length_eq_zero h).symm
  | unary | arrow =>
    match list with
    | [_] => rfl
    | [] | _ :: _ :: _ => simp [children] at h
  | binary =>
    match list with
    | [_, _] => rfl
    | [] | [_] | _ :: _ :: _ :: _ => simp [children] at h
  | conditional =>
    match list with
    | [_, _, _] => rfl
    | [] | [_] | [_, _] | _ :: _ :: _ :: _ :: _ => simp [children] at h
  | access =>
    match list with
    | _ :: _ :: _ => rfl
    | [] | [_] => simp [children] at h
  | macroCall | filter | test =>
    match list with
    | [] => simp [children] at h
    | e :: list => exact congrArg (e :: ·) (map_fillArguments (Nat.succ.inj h))
  | blockCall name template =>
    match list with
    | [] => simp [children] at h
    | [_] | [_, _] => rfl
    | _ :: _ :: _ :: _ => cases template <;> simp [children] at h

theorem Expr.parts_subset {e x : Expr} (h : x ∈ e.kind.children) : x.parts ⊆ e.parts := by
  intro y hy
  rw [e.parts_eq, e.kind.parts_eq, listParts_eq]
  exact mem_cons_of_mem _ (mem_flatMap.mpr ⟨x, h, hy⟩)

/-- Induction over the expressions inside an expression. -/
theorem Expr.children_induction {P : Expr → Prop}
    (h : ∀ e : Expr, (∀ x ∈ e.kind.children, P x) → P e) (e : Expr) : P e := by
  induction hsize : e.parts.length using Nat.strongRecOn generalizing e with
  | _ n ih =>
    refine h e fun x hx => ih x.parts.length ?_ x rfl
    have hle := (sublist_flatten_of_mem (mem_map_of_mem (f := Expr.parts) hx)).length_le
    rw [← hsize, e.parts_eq, length_cons, e.kind.parts_eq, listParts_eq, flatMap_def]
    exact Nat.lt_succ_of_le hle

/-! ## Expressions of statements and templates -/

def Inclusion.roots (inclusion : Inclusion) : List Expr :=
  inclusion.template :: inclusion.bindings.toList

/-- The expressions that stand in a statement itself. -/
def Stmt.Kind.roots : Stmt.Kind → List Expr
  | .text _ | .comment _ | .verbatim _ | .block _ | .capture _ _ | .autoescape _ _ | .sandbox _
  | .flush => []
  | .print e | .output e | .evaluate e | .deprecated e => [e]
  | .importAs template _ | .useBlocks template _ | .inherit template => [template]
  | .loop _ _ sequence _ _ _ => [sequence]
  | .branch branches _ => branches.map Prod.fst
  | .assign targets => targets.map Prod.snd
  | .inclusion included | .embed included _ => included.roots
  | .scope bindings _ _ => bindings.toList
  | .apply filter _ => [filter]
  | .cache key ttl tags _ => key :: (ttl.toList ++ tags.toList)

def Stmt.Kind.isLoop : Stmt.Kind → Bool
  | .loop .. => true
  | _ => false

namespace Template

def defaults (macros : List (String × MacroDef)) : List Expr :=
  macros.flatMap fun definition => definition.2.params.map Prod.snd

/-- The expressions that stand in the statements of a template, or beside them. -/
def roots (t : Template) : List Expr :=
  t.parts.flatMap (fun stmt => stmt.kind.roots) ++ defaults t.macros ++ t.parent.toList

/-- The expressions of a template, at any depth. -/
def exprs (t : Template) : List Expr := t.roots.flatMap Expr.parts

end Template

/-- The expressions that stand in a piece itself. -/
@[simp] def Piece.roots : Piece → List Expr
  | .expr e => [e]
  | .named list => list.map Prod.snd
  | _ => []

theorem Stmt.Kind.flatMap_roots (kind : Stmt.Kind) :
    kind.pieces.flatMap Piece.roots = kind.roots := by
  cases kind with
  | branch branches otherwise =>
    have hbranches : (branchPieces branches).flatMap Piece.roots = branches.map Prod.fst := by
      induction branches with
      | nil => rfl
      | cons branch rest ih => exact congrArg (branch.1 :: ·) ih
    cases otherwise <;> simp [pieces, roots, hbranches]
  | loop key value sequence body otherwise withLoop => cases otherwise <;> rfl
  | _ => simp [pieces, roots, Inclusion.pieces, Inclusion.roots, flatMap_map]

theorem Template.flatMap_roots (t : Template) :
    t.pieces.flatMap Piece.roots = defaults t.macros ++ t.parent.toList := by
  have hmacros : (macroPieces t.macros).flatMap Piece.roots = defaults t.macros := by
    induction t.macros with
    | nil => rfl
    | cons definition rest ih => exact congrArg (definition.2.params.map Prod.snd ++ ·) ih
  simp [pieces, hmacros, flatMap_map]

theorem Template.roots_eq (t : Template) :
    t.roots = t.parts.flatMap (fun stmt => stmt.kind.roots) ++ t.pieces.flatMap Piece.roots := by
  rw [flatMap_roots, ← List.append_assoc]
  rfl

theorem Template.template_notMem_pieces (t : Template) {inner : Template} :
    .template inner ∉ t.pieces := by
  have hmacros : .template inner ∉ macroPieces t.macros := by
    induction t.macros with
    | nil => exact not_mem_nil
    | cons definition rest ih => simp [macroPieces, ih]
  simp [pieces, hmacros]

/-! ## Induction within a template -/

/-- The expressions in a piece, the statements in it and the template it is have these properties. -/
structure Piece.Within (E : Expr → Prop) (M : Stmt → Prop) (T : Template → Prop) (x : Piece) :
    Prop where
  roots : ∀ e ∈ x.roots, E e
  parts : ∀ stmt ∈ x.parts, M stmt
  template : ∀ t, x = .template t → T t

/-- A property of pieces, and one of statements, for the parts of a template whose expressions,
statements and embedded templates have properties of their own. -/
structure Relative (E : Expr → Prop) (M : Stmt → Prop) (T : Template → Prop) (P : Piece → Prop)
    (S : Stmt → Prop) : Prop where
  expr : ∀ e, E e → P (.expr e)
  named : ∀ list, (∀ e ∈ list.map Prod.snd, E e) → P (.named list)
  nil : P (.body [])
  cons : ∀ stmt rest, S stmt → P (.body rest) → P (.body (stmt :: rest))
  stmt : ∀ kind line, M ⟨kind, line⟩ → (∀ x ∈ Stmt.Kind.pieces kind, P x) → S ⟨kind, line⟩
  template : ∀ t, T t → P (.template t)
  roots : ∀ stmt, M stmt → ∀ e ∈ stmt.kind.roots, E e
  embedded : ∀ stmt t, M stmt → stmt.embedded? = some t → T t

namespace Relative

variable {E : Expr → Prop} {M : Stmt → Prop} {T : Template → Prop} {P : Piece → Prop}
  {S : Stmt → Prop}

theorem within_pieces (h : Relative E M T P S) {kind : Stmt.Kind} {line : Nat} (hstmt : M ⟨kind, line⟩)
    (hparts : ∀ stmt ∈ kind.parts, M stmt) : ∀ x ∈ kind.pieces, x.Within E M T := by
  intro x hx
  refine ⟨fun e he => h.roots _ hstmt e ?_, fun stmt hmem => hparts stmt ?_, ?_⟩
  · rw [← Stmt.Kind.flatMap_roots]
    exact mem_flatMap.mpr ⟨x, hx, he⟩
  · rw [← Stmt.Kind.flatMap_parts]
    exact mem_flatMap.mpr ⟨x, hx, hmem⟩
  · rintro t rfl
    exact h.embedded _ t hstmt (Stmt.embedded?_eq_some_iff.mpr hx)

theorem hereditary (h : Relative E M T P S) :
    Hereditary (fun x => x.Within E M T → P x) fun stmt => (∀ y ∈ stmt.parts, M y) → S stmt where
  expr e hx := h.expr e (hx.roots e mem_cons_self)
  named list hx := h.named list hx.roots
  nil _ := h.nil
  cons stmt rest hstmt hrest hx := by
    obtain ⟨hfirst, hothers⟩ := forall_mem_append.mp hx.parts
    exact h.cons stmt rest (hstmt hfirst) (hrest ⟨forall_mem_nil _, hothers, nofun⟩)
  stmt kind line hkind hall := by
    obtain ⟨hstmt, hparts⟩ := forall_mem_cons.mp hall
    exact h.stmt kind line hstmt fun x hx => hkind x hx (h.within_pieces hstmt hparts x hx)
  template t _ hx := h.template t (hx.template t rfl)

/-- **Induction within a template**, but not into the templates embedded in it. -/
theorem all_pieces (h : Relative E M T P S) {t : Template} (hparts : ∀ stmt ∈ t.parts, M stmt)
    (hroots : ∀ e ∈ t.roots, E e) : ∀ x ∈ t.pieces, P x := by
  intro x hx
  refine h.hereditary.all x ⟨fun e he => hroots e ?_, fun stmt hmem => hparts stmt ?_, ?_⟩
  · rw [t.roots_eq]
    exact mem_append_right _ (mem_flatMap.mpr ⟨x, hx, he⟩)
  · rw [← t.flatMap_parts]
    exact mem_flatMap.mpr ⟨x, hx, hmem⟩
  · rintro inner rfl
    exact absurd hx t.template_notMem_pieces

end Relative

end TwigToLatte
