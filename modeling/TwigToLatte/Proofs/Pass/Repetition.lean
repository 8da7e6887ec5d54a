import TwigToLatte.Dialect.Core
import TwigToLatte.Proofs.Lexer.Symbols
import TwigToLatte.Proofs.Pass.Escape
import TwigToLatte.Proofs.Pass.LoopMarks
import TwigToLatte.Proofs.Pass.Parts
import TwigToLatte.Proofs.Pass.Succession
import TwigToLatte.Proofs.Pass.Tally

/-!
# Simplifying twice

The marks of the loops come from what the pass meets on its way down, when raw filters still stand;
it drops them on its way up. So a second run may see what a raw filter has hidden from the first.

* `Template.simplified` — what the pass makes of a template.
* `expr_simplify` — on an expression, the pass drops raw filters and notes down what each part tells.
* `Pass.Absorbs` — what another pass does to a statement does not show after the pass.
* `Template.simplified_simplified` — **two runs are dropping raw filters and then marking loops**.
* `Expr.steady` — dropping raw filters changes nothing in what an expression tells about loops.
* `simplify_repeated` — **where all expressions are steady, the second run changes nothing, and the
  third one never does**.
* `marks_simplified_again` — a second run that changes the marks.
-/

namespace TwigToLatte

open List

open LoopScope

/-- What the pass makes of a template. -/
def Template.simplified (optimizations : Optimizations) (t : Template) : Template :=
  ((simplify optimizations).run [] t).1

/-! ## Expressions -/

/-- What the pass notes down at an expression. -/
def Optimizations.note (optimizations : Optimizations) (e : Expr) (scopes : List LoopScope) :
    List LoopScope :=
  if optimizations.loopContext then enterExpr e scopes else scopes

theorem tallies_simplify (optimizations : Optimizations) :
    (simplify optimizations).Tallies (simplifyOutput optimizations.rawFilter) optimizations.note
      fun _ => True where
  count_good _ _ _ := trivial
  enter_good _ _ _ := trivial
  node kind line topmost scopes _ := by
    obtain ⟨loopContext, rawFilter⟩ := optimizations
    cases loopContext <;> rfl

theorem expr_simplify (optimizations : Optimizations) (e : Expr) (scopes : List LoopScope) :
    (simplify optimizations).expr e scopes =
      ((simplifyOutput optimizations.rawFilter).onExpr e,
        tally optimizations.note e.parts scopes) :=
  (tallies_simplify optimizations).expr e trivial

/-- A filter that switches escaping off. -/
def Expr.isRaw (e : Expr) : Bool :=
  match e.kind with
  | .filter _ name _ => name == "raw"
  | _ => false

variable {e : Expr} {τ : Type} {o o' : Optimizations} {line : Nat} {t : Template}
  {list : List Expr}

theorem Expr.dropRaw_eq_self (h : e.isRaw = false) : e.dropRaw = e := by
  obtain ⟨kind, line, topmost⟩ := e
  cases kind with
  | filter operand name list =>
    rw [dropRaw_filter]
    exact if_neg (Bool.eq_false_iff.mp h)
  | _ => rfl

/-- A step on an expression without raw filters inside leaves one that no further step changes. -/
theorem establishes_simplifyOutput (rawFilter : Bool) :
    (simplifyOutput rawFilter).Establishes fun e => (simplifyOutput rawFilter).exprStep e = e := by
  intro e hparts
  cases rawFilter with
  | false => exact fun _ _ => rfl
  | true =>
    show ∀ x ∈ e.dropRaw.parts, x.dropRaw = x
    cases hraw : e.isRaw with
    | false =>
      rw [Expr.dropRaw_eq_self hraw, e.parts_eq]
      exact forall_mem_cons.mpr ⟨Expr.dropRaw_eq_self hraw, hparts⟩
    | true =>
      obtain ⟨kind, line, topmost⟩ := e
      cases kind with
      | filter operand name list =>
        have hname : (name == "raw") = true := hraw
        rw [Expr.dropRaw_filter, if_pos hname]
        exact (forall_mem_append.mp hparts).1
      | _ => cases hraw

theorem onExpr_simplifyOutput_twice (rawFilter : Bool) (e : Expr) :
    (simplifyOutput rawFilter).onExpr ((simplifyOutput rawFilter).onExpr e) =
      (simplifyOutput rawFilter).onExpr e :=
  Pass.onExpr_eq_self _ _ ((establishes_simplifyOutput rawFilter).onExpr e)

theorem onExpr_simplifyOutput_false (e : Expr) : (simplifyOutput false).onExpr e = e :=
  Pass.onExpr_eq_self _ _ fun _ _ => rfl

/-! ## Statements -/

/-- What a pass does to the parts of a statement does not show when it is entered. -/
theorem LoopScope.enterStmt_stmtKind (b : Pass τ) (kind : Stmt.Kind) (line : Nat) (s : τ) :
    enterStmt ⟨(b.stmtKind kind s).1, line⟩ = enterStmt ⟨kind, line⟩ := by
  cases kind <;> rfl

/-- Statements are treated alike if they are entered alike and their parts are treated alike. -/
theorem stmt_simplify_congr (hloop : o'.loopContext = o.loopContext) {kind kind' : Stmt.Kind}
    (henter : enterStmt ⟨kind, line⟩ = enterStmt ⟨kind', line⟩)
    (hkind : (simplify o).stmtKind kind = (simplify o').stmtKind kind') :
    (simplify o).stmt ⟨kind, line⟩ = (simplify o').stmt ⟨kind', line⟩ := by
  obtain ⟨loopContext, rawFilter⟩ := o
  obtain ⟨_, rawFilter'⟩ := o'
  cases hloop
  rw [Pass.stmt, Pass.stmt, hkind]
  simp only [simplify, henter]

/-- Whether a loop is marked beforehand does not matter to a pass that marks loops. -/
theorem stmt_simplify_loop (rawFilter : Bool) (key : Option String) (value : String) (sequence : Expr)
    (body : List Stmt) (otherwise : Option (List Stmt)) (withLoop withLoop' : Bool) (line : Nat) :
    (simplify ⟨true, rawFilter⟩).stmt ⟨.loop key value sequence body otherwise withLoop, line⟩ =
      (simplify ⟨true, rawFilter⟩).stmt
        ⟨.loop key value sequence body otherwise withLoop', line⟩ := by
  funext scopes
  have hgrows : Grows _ ((simplify ⟨true, rawFilter⟩).stmtKind
      (.loop key value sequence body otherwise withLoop)
      (⟨false, value :: key.toList⟩ :: scopes)).2 := 
    (walk_stmtKind (hereditary_walks.all_kind _) _).notes.grows
  -- The scope of the loop is still there when the loop is left, and its mark counts.
  obtain ⟨scope, outer, -, -, hwalked⟩ := forall₂_cons_left_iff.mp hgrows
  have hwalked' : ((simplify ⟨true, rawFilter⟩).stmtKind
      (.loop key value sequence body otherwise withLoop')
      (⟨false, value :: key.toList⟩ :: scopes)).2 = scope :: outer := hwalked
  rw [stmt_simplify, stmt_simplify]
  show (some (close ⟨_, line⟩ _).1.promoteBlock, (close ⟨_, line⟩ _).2) =
    (some (close ⟨_, line⟩ _).1.promoteBlock, (close ⟨_, line⟩ _).2)
  rw [enterStmt, enterStmt, hwalked, hwalked']
  rfl

/-- Statements that are not tracked by the pass are treated by their parts. -/
theorem stmt_simplify_untracked (o : Optimizations) (kind kind' : Stmt.Kind) (line : Nat)
    {scopes scopes' : List LoopScope} (henter : ∀ scopes, enterStmt ⟨kind, line⟩ scopes = scopes)
    (hclose : ∀ scopes, close ⟨kind', line⟩ scopes = (⟨kind', line⟩, scopes))
    (hkind : (simplify o).stmtKind kind scopes = (kind', scopes')) :
    (simplify o).stmt ⟨kind, line⟩ scopes = (some (Stmt.promoteBlock ⟨kind', line⟩), scopes') := by
  obtain ⟨loopContext, rawFilter⟩ := o
  cases loopContext with
  | false =>
    rw [Pass.stmt]
    exact congrArg (fun walked => (some (Stmt.promoteBlock ⟨walked.1, line⟩), walked.2)) hkind
  | true =>
    rw [stmt_simplify, henter, hkind]
    simp only [hclose]

theorem stmt_simplify_print (o : Optimizations) (e : Expr) (line : Nat) (scopes : List LoopScope) :
    (simplify o).stmt ⟨.print e, line⟩ scopes =
      (some (Stmt.promoteBlock ⟨.print ((simplifyOutput o.rawFilter).onExpr e), line⟩),
        tally o.note e.parts scopes) :=
  stmt_simplify_untracked o (.print e) (.print _) line (fun _ => rfl) (fun _ => rfl)
    (congrArg (fun walked : Expr × _ => (Stmt.Kind.print walked.1, walked.2))
      (expr_simplify o e scopes))

theorem stmt_simplify_output (o : Optimizations) (e : Expr) (line : Nat) (scopes : List LoopScope) :
    (simplify o).stmt ⟨.output e, line⟩ scopes =
      (some ⟨.output ((simplifyOutput o.rawFilter).onExpr e), line⟩,
        tally o.note e.parts scopes) :=
  stmt_simplify_untracked o (.output e) (.output _) line (fun _ => rfl) (fun _ => rfl)
    (congrArg (fun walked : Expr × _ => (Stmt.Kind.output walked.1, walked.2))
      (expr_simplify o e scopes))

/-- Whether a printed block is a statement beforehand does not matter. -/
theorem stmt_simplify_promoteBlock (o : Optimizations) (stmt : Stmt) :
    (simplify o).stmt stmt.promoteBlock = (simplify o).stmt stmt := by
  obtain ⟨kind, line⟩ := stmt
  unfold Stmt.promoteBlock
  split
  · rename_i hkind
    cases hkind
    funext scopes
    rw [stmt_simplify_print, stmt_simplify_output]
    obtain ⟨loopContext, rawFilter⟩ := o
    cases rawFilter <;> cases loopContext <;> rfl
  · rename_i hkind
    cases hkind
    funext scopes
    rw [stmt_simplify_print, stmt_simplify_output]
    obtain ⟨loopContext, rawFilter⟩ := o
    cases rawFilter <;> cases loopContext <;> rfl
  · rfl

/-- What the second pass does to a statement when it leaves it does not show after the first one. -/
def Pass.Absorbs {σ τ : Type} (c : Pass σ) (b : Pass τ) : Prop :=
  ∀ stmt s, ∃ x, (b.leaveStmt stmt s).1 = some x ∧ c.stmt x = c.stmt stmt

theorem absorbs_idle {σ : Type} (c : Pass σ) : c.Absorbs idle := fun stmt _ => ⟨stmt, rfl, rfl⟩

theorem absorbs_simplify (h : o'.loopContext = true → o.loopContext = true) :
    (simplify o).Absorbs (simplify o') := by
  intro stmt scopes
  obtain ⟨loopContext', rawFilter'⟩ := o'
  cases loopContext' with
  | false => exact ⟨_, rfl, stmt_simplify_promoteBlock o stmt⟩
  | true =>
    refine ⟨_, rfl, (stmt_simplify_promoteBlock o (close stmt scopes).1).trans ?_⟩
    obtain ⟨loopContext, rawFilter⟩ := o
    cases h rfl
    obtain ⟨kind, line⟩ := stmt
    unfold close
    split
    · rename_i hkind
      cases hkind
      exact stmt_simplify_loop ..
    · rfl

theorem exists_stmt_simplify_eq {υ : Type} {b : Pass τ} {d : Pass υ} (o o' : Optimizations)
    (hloop : o'.loopContext = o.loopContext) (hb : (simplify o).Absorbs b)
    (hd : (simplify o').Absorbs d) (stmt : Stmt)
    (hkind : ∀ s s', (simplify o).stmtKind (b.stmtKind stmt.kind s).1 =
      (simplify o').stmtKind (d.stmtKind stmt.kind s').1) (s : τ) (s' : υ) :
    ∃ x y, (b.stmt stmt s).1 = some x ∧ (d.stmt stmt s').1 = some y ∧
      (simplify o).stmt x = (simplify o').stmt y := by
  obtain ⟨kind, line⟩ := stmt
  obtain ⟨x, hx, hxeq⟩ := hb ⟨(b.stmtKind kind (b.enterStmt ⟨kind, line⟩ s).2).1, line⟩
    (b.stmtKind kind (b.enterStmt ⟨kind, line⟩ s).2).2
  obtain ⟨y, hy, hyeq⟩ := hd ⟨(d.stmtKind kind (d.enterStmt ⟨kind, line⟩ s').2).1, line⟩
    (d.stmtKind kind (d.enterStmt ⟨kind, line⟩ s').2).2
  refine ⟨x, y, hx, hy, ?_⟩
  rw [hxeq, hyeq]
  refine stmt_simplify_congr hloop ?_ (hkind _ _)
  rw [enterStmt_stmtKind, enterStmt_stmtKind]

/-! ## Templates -/

theorem unframed_simplify (o : Optimizations) : (simplify o).Unframed :=
  ⟨fun _ => rfl, fun _ => rfl⟩

/-- **Simplifying twice is dropping raw filters first and marking loops afterwards.** -/
theorem Template.simplified_simplified (o : Optimizations) (t : Template) :
    (t.simplified o).simplified o =
      (t.simplified { o with loopContext := false }).simplified { o with rawFilter := false } := by
  have htemplate := Pass.template_eq_of_meets (unframed_simplify o)
    (unframed_simplify { o with rawFilter := false }) (unframed_simplify o)
    (unframed_simplify { o with loopContext := false }) (P := fun _ => True) (fun e _ s s' => ?_)
    (fun stmt _ => exists_stmt_simplify_eq o { o with rawFilter := false } rfl
      (absorbs_simplify id) (absorbs_simplify fun h => absurd h Bool.false_ne_true) stmt)
    t (fun _ _ _ _ => trivial) [] []
  · exact congrArg (fun m => (m []).1) htemplate
  · funext scopes
    rw [expr_simplify o e, expr_simplify { o with loopContext := false } e, expr_simplify,
      expr_simplify, onExpr_simplifyOutput_twice, onExpr_simplifyOutput_false]
    rfl

/-- Simplifying twice is simplifying once where raw filters can be dropped without telling anything
else about the loops. -/
theorem Template.simplified_simplified_of_tally
    (h : ∀ m, t.Module m → ∀ e ∈ m.roots, ∀ scopes,
      tally o.note ((simplifyOutput o.rawFilter).onExpr e).parts scopes =
        tally o.note e.parts scopes) : (t.simplified o).simplified o = t.simplified o := by
  have htemplate := Pass.template_eq_of_meets (unframed_simplify o) (unframed_simplify o)
    (unframed_simplify o) unframed_idle
    (P := fun e => ∀ scopes, tally o.note ((simplifyOutput o.rawFilter).onExpr e).parts scopes =
        tally o.note e.parts scopes) (fun e he s s' => ?_)
    (fun stmt _ => exists_stmt_simplify_eq o o rfl (absorbs_simplify id) (absorbs_idle _) stmt)
    t h [] ()
  · have hidle : (idle.template t ()).1 = t := onTemplate_idle t
    rw [hidle] at htemplate
    exact congrArg (fun m => (m []).1) htemplate
  · have hidle : (idle.expr e s').1 = e := onExpr_idle e
    funext scopes
    rw [hidle, expr_simplify o e, expr_simplify, expr_simplify, onExpr_simplifyOutput_twice, he]

theorem Stmt.forall_mem_roots_promoteBlock {rawFilter : Bool} (stmt : Stmt)
    (h : ∀ e ∈ stmt.kind.roots, ∀ x ∈ e.parts, (simplifyOutput rawFilter).exprStep x = x) :
    ∀ e ∈ stmt.promoteBlock.kind.roots, ∀ x ∈ e.parts,
      (simplifyOutput rawFilter).exprStep x = x := by
  unfold Stmt.promoteBlock
  split
  · rename_i hkind
    rw [hkind] at h
    have hparts := (forall_mem_cons.mp (forall_mem_singleton.mp h)).2
    refine forall_mem_singleton.mpr (forall_mem_cons.mpr ⟨?_, hparts⟩)
    cases rawFilter <;> rfl
  · refine forall_mem_singleton.mpr (forall_mem_singleton.mpr ?_)
    cases rawFilter <;> rfl
  · exact h

/-- After the pass no step on an expression changes anything. -/
theorem Template.onExpr_of_mem_simplified (o : Optimizations) {m : Template}
    (hm : (t.simplified o).Module m) :
    ∀ e ∈ m.roots, (simplifyOutput o.rawFilter).onExpr e = e := by
  have hplain : (t.simplified o).plain = (simplifyOutput o.rawFilter).onTemplate t.plain :=
    (mimics_simplify o).plain_run trivial t
  have hm' := hm.plain
  rw [hplain] at hm'
  obtain ⟨m₀, -, hm₀⟩ := (local_simplifyOutput o.rawFilter).module_onTemplate hm'
  rw [← Template.roots_plain, hm₀]
  have hroots := (local_simplifyOutput o.rawFilter).forall_mem_roots
    (establishes_simplifyOutput o.rawFilter).onExpr Stmt.forall_mem_roots_promoteBlock m₀
  exact fun e he => Pass.onExpr_eq_self _ _ (hroots e he)

/-! ## What a raw filter hides -/

/-- The expression without the raw filters around it. -/
def Expr.underRaw : Expr → Expr
  | ⟨.filter operand name list, line, topmost⟩ =>
    if name == "raw" then operand.underRaw else ⟨.filter operand name list, line, topmost⟩
  | e => e

/-- Whether the expression may tell something about the loops around it. -/
def Expr.mayMark (e : Expr) : Bool :=
  match e.kind with
  | .name name _ => name == "loop"
  | .blockCall .. | .parent .. => true
  | .function name _ list _ => name == "include" && !withoutContext list
  | .access _ key _ _ _ => mayLeadOut key
  | _ => false

/-- Whether dropping raw filters leaves what the expression itself tells about the loops around it:
a raw filter with arguments drops nothing that tells something, an inclusion sees its context as
before, and so does an access whether it may lead out of the loop. -/
def Expr.steady (e : Expr) : Bool :=
  match e.kind with
  | .filter _ name list => name != "raw" || (argumentParts list).all (!·.mayMark)
  | .function name _ list _ =>
    name != "include" ||
      withoutContext (list.map fun argument => { argument with value := argument.value.underRaw }) ==
        withoutContext list
  | .access object key _ _ _ =>
    mayLeadOut key.underRaw == mayLeadOut key &&
      (!mayLeadOut key || object.underRaw.isName "loop" == object.isName "loop")
  | _ => true

theorem enterExpr_of_mayMark (h : e.mayMark = false) (scopes : List LoopScope) :
    enterExpr e scopes = scopes := by
  obtain ⟨kind, line, topmost⟩ := e
  cases kind with
  | name name scope =>
    have hname : isLoopVariable scopes ⟨.name name scope, line, topmost⟩ = false := by
      rw [isLoopVariable]
      exact Bool.and_eq_false_imp.mpr fun hloop => absurd (h.symm.trans hloop) Bool.false_ne_true
    simp only [enterExpr, hname, Bool.false_eq_true, if_false]
  | blockCall | parent => cases h
  | function name kind list defined => exact if_neg (Bool.eq_false_iff.mp h)
  | access object key list call defined =>
    have hkey : mayLeadOut key = false := h
    simp only [enterExpr, hkey, Bool.false_and, Bool.false_eq_true, if_false]
  | _ => rfl

theorem tally_enterExpr_of_mayMark (h : ∀ e ∈ list, e.mayMark = false) (scopes : List LoopScope) :
    tally enterExpr list scopes = scopes := by
  induction list with
  | nil => rfl
  | cons e rest ih =>
    obtain ⟨he, hrest⟩ := forall_mem_cons.mp h
    rw [tally_cons, enterExpr_of_mayMark he, ih hrest]

/-- Of an expression, what is under its raw filters stays. -/
theorem onExpr_simplifyOutput_true (e : Expr) :
    (simplifyOutput true).onExpr e =
      ⟨((simplifyOutput true).exprKind e.underRaw.kind ()).1, e.underRaw.line,
        e.underRaw.topmost⟩ := by
  fun_induction Expr.underRaw e with
  | case1 operand name list line topmost hname ih =>
    rw [beq_iff_eq] at hname
    subst hname
    exact ih
  | case2 operand name list line topmost hname =>
    show Expr.dropRaw ⟨.filter _ name _, line, topmost⟩ = _
    rw [Expr.dropRaw_filter, if_neg hname]
    rfl
  | case3 e hfilter =>
    obtain ⟨kind, line, topmost⟩ := e
    cases kind with
    | filter operand name list => exact absurd rfl (hfilter operand name list line topmost)
    | _ => rfl

theorem constant?_simplifyOutput (e : Expr) :
    ((simplifyOutput true).onExpr e).constant? = e.underRaw.constant? := by
  rw [onExpr_simplifyOutput_true]
  cases hkind : e.underRaw.kind <;> rw [Expr.constant?, Expr.constant?, hkind] <;> rfl

theorem isName_simplifyOutput (name : String) (e : Expr) :
    ((simplifyOutput true).onExpr e).isName name = e.underRaw.isName name := by
  rw [onExpr_simplifyOutput_true]
  cases hkind : e.underRaw.kind <;> rw [Expr.isName, Expr.isName, hkind] <;> rfl

theorem mayLeadOut_simplifyOutput (key : Expr) :
    mayLeadOut ((simplifyOutput true).onExpr key) = mayLeadOut key.underRaw := by
  rw [mayLeadOut, mayLeadOut, constant?_simplifyOutput]

theorem withoutContext_simplifyOutput (list : List (Argument Expr)) :
    withoutContext ((simplifyOutput true).arguments list ()).1 =
      withoutContext
        (list.map fun argument => { argument with value := argument.value.underRaw }) := by
  match list with
  | [] | [_] | [_, _] => rfl
  | _ :: _ :: ⟨name, value⟩ :: _ =>
    show withoutContext (_ :: _ :: ⟨name, (simplifyOutput true).onExpr value⟩ :: _) =
      withoutContext (_ :: _ :: ⟨name, value.underRaw⟩ :: _)
    rw [onExpr_simplifyOutput_true]
    obtain ⟨kind, line, topmost⟩ := value.underRaw
    cases kind with
    | constant value =>
      cases value with
      | bool flag => cases flag <;> rfl
      | _ => rfl
    | _ => rfl

/-- A steady expression tells the same after the raw filters inside are dropped. -/
theorem enterExpr_of_steady {kind : Expr.Kind} {topmost : Bool}
    (h : Expr.steady ⟨kind, line, topmost⟩ = true) (scopes : List LoopScope) :
    enterExpr ⟨((simplifyOutput true).exprKind kind ()).1, line, topmost⟩ scopes =
      enterExpr ⟨kind, line, topmost⟩ scopes := by
  cases kind with
  | function name kind list defined =>
    show (if name == "include" && !withoutContext ((simplifyOutput true).arguments list ()).1 then
      markAll scopes else scopes) = if name == "include" && !withoutContext list then _ else _
    rw [withoutContext_simplifyOutput]
    cases hname : name == "include" with
    | false => rfl
    | true =>
      have hlist : (withoutContext (list.map fun argument =>
          { argument with value := argument.value.underRaw }) == withoutContext list) = true := by
        simpa [Expr.steady, bne, hname] using h
      rw [eq_of_beq hlist]
  | access object key list call defined =>
    show (if mayLeadOut ((simplifyOutput true).onExpr key) && (scopes.head?.any (·.withLoop) ||
        isLoopVariable scopes ((simplifyOutput true).onExpr object)) then markAll scopes
      else scopes) = if mayLeadOut key && (scopes.head?.any (·.withLoop) ||
        isLoopVariable scopes object) then _ else _
    obtain ⟨hkey, hobject⟩ := Bool.and_eq_true_iff.mp h
    rw [mayLeadOut_simplifyOutput, eq_of_beq hkey, isLoopVariable, isName_simplifyOutput,
      isLoopVariable]
    cases hout : mayLeadOut key with
    | false => rfl
    | true =>
      rw [hout, Bool.not_true, Bool.false_or] at hobject
      rw [eq_of_beq hobject]
  | _ => rfl

/-- Expressions in which the raw filters can be dropped one by one. -/
theorem tally_map_simplifyOutput
    (h : ∀ e ∈ list, ∀ scopes, tally enterExpr ((simplifyOutput true).onExpr e).parts scopes =
      tally enterExpr e.parts scopes) (scopes : List LoopScope) :
    tally enterExpr (listParts (list.map (simplifyOutput true).onExpr)) scopes =
      tally enterExpr (listParts list) scopes := by
  induction list generalizing scopes with
  | nil => rfl
  | cons e rest ih =>
    obtain ⟨he, hrest⟩ := forall_mem_cons.mp h
    rw [map_cons, listParts, listParts, tally_append, tally_append, he, ih hrest]

/-- Where every expression is steady, the raw filters inside can be dropped. -/
theorem tally_simplifyOutput (e : Expr) (h : ∀ x ∈ e.parts, x.steady = true)
    (scopes : List LoopScope) :
    tally enterExpr ((simplifyOutput true).onExpr e).parts scopes =
      tally enterExpr e.parts scopes := by
  induction e using Expr.children_induction generalizing scopes with
  | _ e ih =>
    have hchild : ∀ x ∈ e.kind.children, ∀ scopes,
        tally enterExpr ((simplifyOutput true).onExpr x).parts scopes =
          tally enterExpr x.parts scopes := fun x hx =>
      ih x hx fun y hy => h y (Expr.parts_subset hx hy)
    obtain ⟨kind, line, topmost⟩ := e
    obtain ⟨hsteady, hkind⟩ := forall_mem_cons.mp h
    cases hraw : Expr.isRaw ⟨((simplifyOutput true).exprKind kind ()).1, line, topmost⟩ with
    | false =>
      show tally enterExpr (Expr.dropRaw ⟨_, line, topmost⟩).parts scopes = _
      rw [Expr.dropRaw_eq_self hraw, Expr.parts, Expr.parts, tally_cons, tally_cons,
        enterExpr_of_steady hsteady, Pass.parts_exprKind, Pass.exprs_eq,
        tally_map_simplifyOutput hchild, kind.parts_eq]
    | true =>
      cases kind with
      | filter operand name list =>
        -- The filter itself tells nothing, and neither do its arguments.
        have hname : (name == "raw") = true := hraw
        have hlist : ∀ x ∈ argumentParts list, x.mayMark = false := by
          simpa [Expr.steady, bne, hname] using hsteady
        show tally enterExpr (Expr.dropRaw ⟨.filter _ name _, line, topmost⟩).parts scopes =
          tally enterExpr (operand.parts ++ argumentParts list) scopes
        rw [Expr.dropRaw_filter, if_pos hname, tally_append, tally_enterExpr_of_mayMark hlist]
        exact hchild operand mem_cons_self scopes
      | _ => cases hraw

theorem tally_note_of_steady
    (h : o.loopContext = true → o.rawFilter = true → ∀ x ∈ e.parts, x.steady = true)
    (scopes : List LoopScope) :
    tally o.note ((simplifyOutput o.rawFilter).onExpr e).parts scopes =
      tally o.note e.parts scopes := by
  obtain ⟨loopContext, rawFilter⟩ := o
  cases rawFilter with
  | false => rw [onExpr_simplifyOutput_false]
  | true =>
    cases loopContext with
    | false =>
      have hnone : ∀ list : List Expr,
          tally (Optimizations.note ⟨false, true⟩) list scopes = scopes := by
        intro list
        induction list with
        | nil => rfl
        | cons e rest ih => exact ih
      rw [hnone, hnone]
    | true => exact tally_simplifyOutput e (h rfl rfl) scopes

/-! ## Open loops -/

theorem mimics_simplify_unmarked (rawFilter : Bool) :
    (simplify ⟨false, rawFilter⟩).Mimics (simplifyOutput rawFilter) fun _ scopes => scopes = [] where
  enterTemplate _ _ _ h := ⟨trivial, h⟩
  leaveTemplate _ _ _ h := ⟨rfl, h⟩
  enterStmt _ _ _ h := ⟨trivial, h⟩
  leaveStmt _ stmt _ h := ⟨congrArg some stmt.plain_promoteBlock, h⟩
  enterExpr _ _ _ h := ⟨trivial, h⟩
  leaveExpr _ _ _ h := ⟨rfl, h⟩

theorem scopes_simplify (o : Optimizations) (t : Template) : ((simplify o).run [] t).2 = [] := by
  obtain ⟨loopContext, rawFilter⟩ := o
  cases loopContext with
  | false => exact ((mimics_simplify_unmarked rawFilter).template (n := 0) t [] rfl).2
  | true =>
    have hgrows : Grows [] ((simplify ⟨true, rawFilter⟩).run [] t).2 :=
      (hereditary_walks.all_template t []).notes.grows
    exact forall₂_nil_left_iff.mp hgrows

/-! ## The pass, run again -/

/-- **What running the pass again does.** Every run closes all loops it has opened. A second run
makes of a template what dropping raw filters first and marking loops afterwards does; so it changes
nothing if no raw filter hides what marks loops, or if one of both is switched off. A third run
never changes anything. -/
theorem simplify_repeated (o : Optimizations) (t : Template) :
    ((simplify o).run [] t).2 = [] ∧
      (t.simplified o).simplified o =
        (t.simplified { o with loopContext := false }).simplified { o with rawFilter := false } ∧
      ((o.loopContext = true → o.rawFilter = true →
          ∀ m, t.Module m → ∀ e ∈ m.exprs, e.steady = true) →
        (t.simplified o).simplified o = t.simplified o) ∧
      ((t.simplified o).simplified o).simplified o = (t.simplified o).simplified o := by
  refine ⟨scopes_simplify o t, t.simplified_simplified o, fun hsteady => ?_, ?_⟩
  · refine Template.simplified_simplified_of_tally fun m hm e he => tally_note_of_steady ?_
    exact fun hloop hraw x hx => hsteady hloop hraw m hm x (mem_flatMap.mpr ⟨e, he, hx⟩)
  · refine Template.simplified_simplified_of_tally fun m hm e he scopes => ?_
    rw [Template.onExpr_of_mem_simplified o hm e he]

def Stmt.mark? (stmt : Stmt) : Option Bool :=
  match stmt.kind with
  | .loop _ _ _ _ _ withLoop => some withLoop
  | _ => none

/-- The marks of the loops of a template, in order. -/
def Template.marks (t : Template) : List Bool := t.parts.filterMap Stmt.mark?

/-- An inner loop that prints the counter of the outer one, with raw filters that hide nothing. -/
def rawCounter : Source :=
  ⟨"\x7b% for a in x %\x7d\x7b% for b in a|raw %\x7d\x7b\x7b loop.parent.index|raw \x7d\x7d" ++
    "\x7b\x7b (b|raw).c \x7d\x7d\x7b% endfor %\x7d\x7b% endfor %\x7d", "", none⟩

theorem simplify_repeated_rawCounter :
    ∃ t, (Template.parse Dialect.core rawCounter).result = .ok t ∧
      (∀ m, t.Module m → ∀ e ∈ m.exprs, e.steady = true) ∧
      (t.simplified {}).marks = [true, true] ∧ (t.simplified {}).simplified {} = t.simplified {} := by
  have hfacts : (Template.parse Dialect.core rawCounter).result.toOption.any
      (fun t => t.parts.all (·.embedded?.isNone) && t.exprs.all Expr.steady &&
        decide ((t.simplified {}).marks = [true, true])) = true := by
    rw [Template.parse, Dialect.tokenize, Lexer.tokenize, Pattern.orderSymbols_eq]
    decide +kernel
  obtain ⟨t, hresult, hfacts⟩ := eq_ok_of_any hfacts
  obtain ⟨hfacts, hmarks⟩ := Bool.and_eq_true_iff.mp hfacts
  obtain ⟨hembedded, hsteady⟩ := Bool.and_eq_true_iff.mp hfacts
  have hall : ∀ m, t.Module m → ∀ e ∈ m.exprs, e.steady = true := by
    intro m hm
    rcases hm.eq_or_embedded with rfl | ⟨stmt, hstmt, inner, hinner, -⟩
    · exact all_eq_true.mp hsteady
    · have hnone := all_eq_true.mp hembedded stmt hstmt
      rw [hinner] at hnone
      cases hnone
  exact ⟨t, hresult, hall, of_decide_eq_true hmarks,
    (simplify_repeated {} t).2.2.1 fun _ _ => hall⟩

/-- A loop that includes a template without its variables, but for a raw filter. -/
def rawInclusion : Source :=
  ⟨"\x7b% for a in x %\x7d\x7b\x7b include('r', \x7b\x7d, false|raw) \x7d\x7d\x7b% endfor %\x7d",
    "", none⟩

/-- An inner loop that prints the outer one, with a raw filter on the loop variable. -/
def rawLoop : Source :=
  ⟨"\x7b% for a in x %\x7d\x7b% for b in a %\x7d\x7b\x7b (loop|raw).parent \x7d\x7d" ++
    "\x7b% endfor %\x7d\x7b% endfor %\x7d", "", none⟩

/-- A raw filter can hide that an inclusion does not see its context, and that an access leads to
the loop outside: the second run takes one mark away and sets the other. -/
theorem marks_simplified_again :
    (∃ t, (Template.parse Dialect.core rawInclusion).result = .ok t ∧
      (t.simplified {}).marks = [true] ∧ ((t.simplified {}).simplified {}).marks = [false]) ∧
    ∃ t, (Template.parse Dialect.core rawLoop).result = .ok t ∧
      (t.simplified {}).marks = [false, true] ∧
      ((t.simplified {}).simplified {}).marks = [true, true] := by
  have hinclusion : (Template.parse Dialect.core rawInclusion).result.toOption.any
      (fun t => decide ((t.simplified {}).marks = [true] ∧
        ((t.simplified {}).simplified {}).marks = [false])) = true := by
    rw [Template.parse, Dialect.tokenize, Lexer.tokenize, Pattern.orderSymbols_eq]
    decide +kernel
  have hloop : (Template.parse Dialect.core rawLoop).result.toOption.any
      (fun t => decide ((t.simplified {}).marks = [false, true] ∧
        ((t.simplified {}).simplified {}).marks = [true, true])) = true := by
    rw [Template.parse, Dialect.tokenize, Lexer.tokenize, Pattern.orderSymbols_eq]
    decide +kernel
  obtain ⟨t, hresult, hmarks⟩ := eq_ok_of_any hinclusion
  obtain ⟨t', hresult', hmarks'⟩ := eq_ok_of_any hloop
  exact ⟨⟨t, hresult, of_decide_eq_true hmarks⟩, t', hresult', of_decide_eq_true hmarks'⟩

end TwigToLatte
