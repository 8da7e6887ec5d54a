import TwigToLatte.Proofs.Pass.Stateless

/-!
# Passes one after the other

Two passes are run one after the other, and so are two other ones. Where the two ways agree on the
expressions of a template and on single statements, they agree on the whole template.

* `Pass.Unframed` — a pass that does nothing to a template as a whole.
* `Pass.Meets` — what the two ways have to share at a single statement.
* `Pass.template_eq_of_meets` — **then the second pass of each way does the same to the template**,
  from whatever states the first ones start.
* `idle` — the pass that changes nothing.
-/

namespace TwigToLatte

open List

namespace Pass

variable {σ τ υ : Type} {a c : Pass σ} {b : Pass τ} {d : Pass υ}

/-- The pass does nothing to a template as a whole. -/
structure Unframed (p : Pass σ) : Prop where
  enter : ∀ t, p.enterTemplate t = pure ()
  leave : ∀ t, p.leaveTemplate t = pure t

/-- After `b`, the pass `a` treats the expressions of a statement as `c` does after `d`, the statement
itself if it so treats its parts, and a template that is embedded by it. -/
structure Meets (a c : Pass σ) (b : Pass τ) (d : Pass υ) (stmt : Stmt) : Prop where
  roots : ∀ e ∈ stmt.kind.roots, ∀ s s', a.expr (b.expr e s).1 = c.expr (d.expr e s').1
  step : (∀ s s', a.stmtKind (b.stmtKind stmt.kind s).1 = c.stmtKind (d.stmtKind stmt.kind s').1) →
    ∀ s s', ∃ x y, (b.stmt stmt s).1 = some x ∧ (d.stmt stmt s').1 = some y ∧ a.stmt x = c.stmt y
  embedded : ∀ inner, stmt.embedded? = some inner →
    ∀ s s', a.template (b.template inner s).1 = c.template (d.template inner s').1

/-! ## Pieces -/

theorem assigned_eq_of_meets {list : List (String × Expr)}
    (h : ∀ x ∈ list.map Prod.snd, ∀ s s', a.expr (b.expr x s).1 = c.expr (d.expr x s').1)
    (s : τ) (s' : υ) : a.assigned (b.assigned list s).1 = c.assigned (d.assigned list s').1 := by
  induction list generalizing s s' with
  | nil => rfl
  | cons entry rest ih =>
    obtain ⟨name, value⟩ := entry
    obtain ⟨hvalue, hrest⟩ := forall_mem_cons.mp h
    show a.assigned ((name, (b.expr value s).1) :: (b.assigned rest _).1) =
      c.assigned ((name, (d.expr value s').1) :: (d.assigned rest _).1)
    rw [assigned, assigned, hvalue s s', ih hrest _ (d.expr value s').2]

theorem body_eq_of_piece_eq {body body' : List Stmt} (h : a.piece (.body body) = c.piece (.body body')) :
    a.body body = c.body body' := by
  funext s
  obtain ⟨hbody, hstate⟩ := Prod.ext_iff.mp (congrFun h s)
  exact Prod.ext (Piece.body.inj hbody) hstate

theorem pieces_eq_of_meets {list : List Piece}
    (h : ∀ x ∈ list, ∀ s s', a.piece (b.piece x s).1 = c.piece (d.piece x s').1) (s : τ) (s' : υ) :
    a.pieces (b.pieces list s).1 = c.pieces (d.pieces list s').1 := by
  induction list generalizing s s' with
  | nil => rfl
  | cons x rest ih =>
    obtain ⟨hx, hrest⟩ := forall_mem_cons.mp h
    show a.pieces ((b.piece x s).1 :: (b.pieces rest _).1) =
      c.pieces ((d.piece x s').1 :: (d.pieces rest (d.piece x s').2).1)
    rw [pieces, pieces, hx s s', ih hrest _ (d.piece x s').2]

theorem stmtKind_eq_of_meets {kind : Stmt.Kind}
    (h : ∀ x ∈ kind.pieces, ∀ s s', a.piece (b.piece x s).1 = c.piece (d.piece x s').1)
    (s : τ) (s' : υ) : a.stmtKind (b.stmtKind kind s).1 = c.stmtKind (d.stmtKind kind s').1 := by
  funext state
  have hpieces := pieces_eq_of_meets h s s'
  rw [pieces_stmtKind, pieces_stmtKind] at hpieces
  dsimp only at hpieces
  rw [a.stmtKind_eq, c.stmtKind_eq, refill_stmtKind, refill_stmtKind, hpieces]

theorem relative_meets : Relative
    (fun e => ∀ s s', a.expr (b.expr e s).1 = c.expr (d.expr e s').1) (Meets a c b d)
    (fun t => ∀ s s', a.template (b.template t s).1 = c.template (d.template t s').1)
    (fun x => ∀ s s', a.piece (b.piece x s).1 = c.piece (d.piece x s').1)
    fun stmt => ∀ s s',
      ∃ x y, (b.stmt stmt s).1 = some x ∧ (d.stmt stmt s').1 = some y ∧ a.stmt x = c.stmt y where
  expr _ he s s' := congrArg (· >>= _) (he s s')
  named _ hlist s s' := congrArg (· >>= _) (assigned_eq_of_meets hlist s s')
  nil _ _ := rfl
  cons stmt rest hstmt hrest s s' := by
    obtain ⟨x, y, hx, hy, heq⟩ := hstmt s s'
    have hrest := body_eq_of_piece_eq (hrest (b.stmt stmt s).2 (d.stmt stmt s').2)
    refine congrArg (· >>= _) (?_ : a.body ((b.stmt stmt s).1.toList ++ (b.body rest _).1) =
      c.body ((d.stmt stmt s').1.toList ++ (d.body rest _).1))
    rw [hx, hy]
    show a.body (x :: (b.body rest _).1) = c.body (y :: (d.body rest _).1)
    rw [body, body, heq, hrest]
  stmt _ _ h hkind := h.step (stmtKind_eq_of_meets hkind)
  template _ ht s s' := congrArg (· >>= _) (ht s s')
  roots _ h := h.roots
  embedded _ inner h := h.embedded inner

/-! ## Templates -/

theorem Unframed.template_eq_inside (h : b.Unframed) (t : Template) : b.template t = b.inside t := by
  rw [template_eq, h.enter]
  simp only [h.leave]
  rfl

theorem inside_eq_of_meets {t : Template}
    (h : ∀ x ∈ t.pieces, ∀ s s', a.piece (b.piece x s).1 = c.piece (d.piece x s').1)
    (s : τ) (s' : υ) : a.inside (b.inside t s).1 = c.inside (d.inside t s').1 := by
  funext state
  have hpieces := pieces_eq_of_meets h s s'
  rw [pieces_inside, pieces_inside] at hpieces
  dsimp only at hpieces
  rw [a.inside_eq, c.inside_eq, refill_inside, refill_inside, hpieces]

/-- **Passes that meet at every statement do the same to a template.** -/
theorem template_eq_of_meets (ha : a.Unframed) (hc : c.Unframed) (hb : b.Unframed) (hd : d.Unframed)
    {P : Expr → Prop} (hexpr : ∀ e, P e → ∀ s s', a.expr (b.expr e s).1 = c.expr (d.expr e s').1)
    (hstep : ∀ stmt, (∀ e ∈ stmt.kind.roots, P e) →
      (∀ s s', a.stmtKind (b.stmtKind stmt.kind s).1 = c.stmtKind (d.stmtKind stmt.kind s').1) →
      ∀ s s', ∃ x y, (b.stmt stmt s).1 = some x ∧ (d.stmt stmt s').1 = some y ∧ a.stmt x = c.stmt y) :
    ∀ t : Template, (∀ m, t.Module m → ∀ e ∈ m.roots, P e) → ∀ s s',
      a.template (b.template t s).1 = c.template (d.template t s').1 := by
  refine all_of_inherited fun t hembeds hroots s s' => ?_
  have hparts : ∀ stmt ∈ t.parts, Meets a c b d stmt := by
    intro stmt hmem
    have hstmt : ∀ e ∈ stmt.kind.roots, P e := fun e he =>
      hroots t .self e (mem_append_left _ (mem_append_left _
        (mem_flatMap.mpr ⟨stmt, hmem, he⟩)))
    refine ⟨fun e he => hexpr e (hstmt e he), hstep stmt hstmt, fun inner hinner => ?_⟩
    refine hembeds inner (mem_filterMap.mpr ⟨stmt, hmem, hinner⟩) fun m hm => ?_
    exact hroots m (.trans (.embedded .self hmem hinner) hm)
  rw [ha.template_eq_inside, hb.template_eq_inside, hc.template_eq_inside, hd.template_eq_inside]
  exact inside_eq_of_meets
    (relative_meets.all_pieces hparts fun e he => hexpr e (hroots t .self e he)) s s'

end Pass

/-! ## The pass that changes nothing -/

/-- The pass that changes nothing. -/
def idle : Pass Unit where
  name := "idle"

theorem unframed_idle : idle.Unframed := ⟨fun _ => rfl, fun _ => rfl⟩

theorem onExpr_idle (e : Expr) : idle.onExpr e = e := idle.onExpr_eq_self e fun _ _ => rfl

theorem local_idle : idle.Local where
  keeps _ := rfl
  alike := .refl
  leaveTemplate _ := rfl

theorem onTemplate_idle (t : Template) : idle.onTemplate t = t :=
  local_idle.onTemplate_eq_self t fun _ _ => ⟨fun _ _ => rfl, fun _ _ => rfl⟩

end TwigToLatte
