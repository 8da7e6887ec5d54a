import TwigToLatte.Dialect.Core
import TwigToLatte.Proofs.Expr.Calls
import TwigToLatte.Proofs.Lexer.Symbols
import TwigToLatte.Proofs.Pass.Plain
import TwigToLatte.Proofs.Pass.Tally
import TwigToLatte.Template.Grammar

/-!
# Templates that import themselves

On its way through a template the pass keeps a note for each template around. What it does is the
same as two passes without state: one that makes the imports, and one that makes the calls.

* `Expr.accessesSelf` — an access to an attribute of the template itself, under a constant name.
* `Notes` — the answer of a walk through parts of a template, and what it notes down.
* `template_selfCalls` — **the pass imports first and replaces calls then, and leaves the notes of
  the templates around alone**.
* `withSelfCalls_spec` — **each template imports itself once if its own expressions ask for it, no
  access to it is left, and a second run changes nothing**.
-/

namespace TwigToLatte

open List

/-- An access to an attribute of the template itself, under a constant name. -/
def Expr.accessesSelf (e : Expr) : Bool :=
  match e.kind with
  | .access object key _ _ _ => object.isName selfName && key.string?.isSome
  | _ => false

/-! ## Expressions -/

theorem Expr.isSome_selfCall? (e : Expr) : e.selfCall?.isSome = e.accessesSelf := by
  obtain ⟨kind, line, topmost⟩ := e
  cases kind with
  | access object key list call defined =>
    rw [selfCall?, accessesSelf]
    cases hobject : isName selfName object <;> simp [hobject]
  | _ => rfl

/-- A call is neither a name nor a constant, and so is the access it stands for. -/
theorem Expr.selfCall?_getD (e : Expr) (name : String) :
    (e.selfCall?.getD e).isName name = e.isName name ∧
      (e.selfCall?.getD e).constant? = e.constant? := by
  obtain ⟨kind, line, topmost⟩ := e
  cases kind with
  | access object key list call defined =>
    rw [selfCall?]
    dsimp only
    cases isName selfName object with
    | false => exact ⟨rfl, rfl⟩
    | true => cases key.string? <;> exact ⟨rfl, rfl⟩
  | _ => exact ⟨rfl, rfl⟩

theorem isName_replaceSelfCalls (e : Expr) (name : String) :
    (replaceSelfCalls.onExpr e).isName name = e.isName name := by
  obtain ⟨kind, line, topmost⟩ := e
  refine (Expr.selfCall?_getD _ name).1.trans ?_
  cases kind <;> rfl

theorem string?_replaceSelfCalls (e : Expr) : (replaceSelfCalls.onExpr e).string? = e.string? := by
  have hconstant : (replaceSelfCalls.onExpr e).constant? = e.constant? := by
    obtain ⟨kind, line, topmost⟩ := e
    refine (Expr.selfCall?_getD _ "").2.trans ?_
    cases kind <;> rfl
  rw [Expr.string?, Expr.string?, hconstant]

/-- Treating the parts of an expression neither makes an access to the template itself nor undoes
one. -/
theorem accessesSelf_exprKind (kind : Expr.Kind) (line : Nat) (topmost : Bool) :
    Expr.accessesSelf ⟨(replaceSelfCalls.exprKind kind ()).1, line, topmost⟩ =
      Expr.accessesSelf ⟨kind, line, topmost⟩ := by
  cases kind with
  | access object key list call defined =>
    show ((replaceSelfCalls.onExpr object).isName selfName &&
      (replaceSelfCalls.onExpr key).string?.isSome) = _
    rw [isName_replaceSelfCalls, string?_replaceSelfCalls]
    rfl
  | _ => rfl

/-- **An access to the template itself becomes a call of that macro.** -/
theorem onExpr_replaceSelfCalls_of_string? {object key : Expr} {method : String}
    (hobject : object.isName selfName = true) (hkey : key.string? = some method)
    (list : List Expr) (call : CallStyle) (defined : Bool) (line : Nat) (topmost : Bool) :
    replaceSelfCalls.onExpr ⟨.access object key list call defined, line, topmost⟩ =
      ⟨.macroCall object method
        ((list.map replaceSelfCalls.onExpr).map Argument.positional) defined, line, topmost⟩ := by
  have hself : replaceSelfCalls.onExpr object = object := by
    obtain ⟨kind, _, _⟩ := object
    cases kind with
    | name => rfl
    | _ => cases hobject
  have hlist : (replaceSelfCalls.exprs list ()).1 = list.map replaceSelfCalls.onExpr := by
    induction list with
    | nil => rfl
    | cons e rest ih => exact congrArg (replaceSelfCalls.onExpr e :: ·) ih
  show (Expr.selfCall? ⟨.access (replaceSelfCalls.onExpr object) (replaceSelfCalls.onExpr key)
    (replaceSelfCalls.exprs list ()).1 call defined, line, topmost⟩).getD _ = _
  rw [Expr.selfCall?]
  dsimp only
  rw [hself, hlist, if_pos hobject, string?_replaceSelfCalls, hkey]
  rfl

/-- Of any other expression only the parts are treated. -/
theorem onExpr_replaceSelfCalls_of_accessesSelf {e : Expr} (h : e.accessesSelf = false) :
    replaceSelfCalls.onExpr e =
      ⟨(replaceSelfCalls.exprKind e.kind ()).1, e.line, e.topmost⟩ := by
  obtain ⟨kind, line, topmost⟩ := e
  have hnone : (Expr.selfCall? ⟨(replaceSelfCalls.exprKind kind ()).1, line, topmost⟩).isSome =
      false := by
    rw [Expr.isSome_selfCall?, accessesSelf_exprKind, h]
  show (Expr.selfCall? ⟨(replaceSelfCalls.exprKind kind ()).1, line, topmost⟩).getD _ = _
  rw [Option.not_isSome_iff_eq_none.mp (Bool.eq_false_iff.mp hnone)]
  rfl

theorem establishes_replaceSelfCalls :
    replaceSelfCalls.Establishes fun e => e.accessesSelf = false := by
  intro e hparts
  show ∀ x ∈ (e.selfCall?.getD e).parts, x.accessesSelf = false
  cases hself : e.selfCall? with
  | none =>
    rw [Option.getD_none, e.parts_eq]
    refine forall_mem_cons.mpr ⟨?_, hparts⟩
    rw [← e.isSome_selfCall?, hself]
    rfl
  | some call =>
    obtain ⟨kind, line, topmost⟩ := e
    cases kind with
    | access object key list style defined =>
      rw [Expr.selfCall?] at hself
      dsimp only at hself
      split at hself
      · obtain ⟨method, -, rfl⟩ := Option.map_eq_some_iff.mp hself
        obtain ⟨hparts, hlist⟩ := forall_mem_append.mp hparts
        refine forall_mem_cons.mpr ⟨rfl, forall_mem_append.mpr ⟨?_, ?_⟩⟩
        · exact (forall_mem_append.mp hparts).1
        · exact forall_mem_argumentParts.mpr
            (forall_mem_map.mpr (forall_mem_listParts.mp hlist))
      · cases hself
    | _ => cases hself

/-! ## Notes on the way -/

/-- Whether the expression or a part of it is an access to the template itself. -/
def Expr.readsSelf (e : Expr) : Bool := e.parts.any accessesSelf

/-- Whether an expression of the statement accesses the template itself. -/
def Stmt.readsSelf (stmt : Stmt) : Bool := stmt.kind.roots.any Expr.readsSelf

/-- Notes down in the innermost template what the expression is. -/
def noteSelf (e : Expr) : List Bool → List Bool
  | [] => []
  | calls :: outer => (calls || e.accessesSelf) :: outer

theorem tally_noteSelf (list : List Expr) (calls : Bool) (outer : List Bool) :
    tally noteSelf list (calls :: outer) = (calls || list.any Expr.accessesSelf) :: outer := by
  induction list generalizing calls with
  | nil => rw [tally_nil, any_nil, Bool.or_false]
  | cons e rest ih => rw [tally_cons, noteSelf, ih, any_cons, Bool.or_assoc]

theorem tallies_selfCalls : selfCalls.Tallies replaceSelfCalls noteSelf (· ≠ []) where
  count_good _ calls h := by
    obtain _ | ⟨calls, outer⟩ := calls
    · exact absurd rfl h
    · exact cons_ne_nil _ _
  enter_good _ _ h := h
  node kind line topmost calls h := by
    obtain _ | ⟨calls, outer⟩ := calls
    · exact absurd rfl h
    · show selfCalls.leaveExpr _ (tally noteSelf kind.parts (calls :: outer)) = _
      -- The pass counts an expression after its parts, the tally before them.
      rw [tally_noteSelf, selfCalls_leaveExpr, Expr.isSome_selfCall?, accessesSelf_exprKind,
        tally_noteSelf, Expr.parts, any_cons, Bool.or_assoc, Bool.or_comm (kind.parts.any _)]
      rfl

/-- The computation gives the answer, and notes down in the innermost template whether there is a
call. -/
def Notes {α : Type} (calls : Bool) (m : StateM (List Bool) α) (answer : α) : Prop :=
  ∀ noted outer, m (noted :: outer) = (answer, (noted || calls) :: outer)

namespace Notes

variable {α β : Type} {calls more : Bool} {m : StateM (List Bool) α} {a : α} {b : β}

theorem pure (a : α) : Notes false (Pure.pure a) a := fun noted outer => by
  rw [Bool.or_false]
  rfl

theorem bind {k : α → StateM (List Bool) β} (hm : Notes calls m a) (hk : Notes more (k a) b) :
    Notes (calls || more) (m >>= k) b := by
  intro noted outer
  show k (m (noted :: outer)).1 (m (noted :: outer)).2 = _
  rw [hm, hk, Bool.or_assoc]

theorem map (hm : Notes calls m a) (f : α → β) :
    Notes calls (m >>= fun x => Pure.pure (f x)) (f a) := by
  intro noted outer
  show (f (m (noted :: outer)).1, (m (noted :: outer)).2) = _
  rw [hm]

theorem of_kept (h : ∀ noted, m noted = (a, noted)) : Notes false m a := by
  intro noted outer
  rw [h, Bool.or_false]

theorem of_eq (hm : Notes calls m a) (h : calls = more) : Notes more m a := h ▸ hm

end Notes

/-! ## Imports first, calls afterwards -/

/-- A template that imports itself if one of its expressions accesses it, unless it does already. -/
def Template.withSelfImport (t : Template) : Template :=
  if t.exprs.any Expr.accessesSelf && !t.setup.any Stmt.isSelfImport then
    { t with setup := t.setup ++ [selfImport] }
  else t

/-- Imports of the template itself, before calls are made of accesses. -/
def importSelf : Pass Unit where
  name := "macro_auto_import"
  leaveTemplate t := return t.withSelfImport

theorem Template.withSelfImport_eq (t : Template) :
    t.withSelfImport = { t with
      setup := t.setup ++
        if t.exprs.any Expr.accessesSelf && !t.setup.any Stmt.isSelfImport then [selfImport]
        else [] } := by
  obtain ⟨body, blocks, macros, parent, setup⟩ := t
  rw [withSelfImport]
  split
  · rfl
  · rw [append_nil]

theorem partwise_importSelf : importSelf.Partwise where
  keeps _ := rfl
  alike := .refl
  frame t := ⟨_, t.withSelfImport_eq⟩

theorem onExpr_importSelf (e : Expr) : importSelf.onExpr e = e :=
  importSelf.onExpr_eq_self e fun _ _ => rfl

theorem roots_importSelf (t : Template) : (importSelf.onTemplate t).roots = t.roots := by
  rw [partwise_importSelf.roots_onTemplate (fun _ => rfl), funext onExpr_importSelf, map_id']

theorem onTemplate_importSelf (t : Template) :
    importSelf.onTemplate t = { (importSelf.inside t ()).1 with
      setup := t.setup ++
        if t.exprs.any Expr.accessesSelf && !t.setup.any Stmt.isSelfImport then [selfImport]
        else [] } := by
  have hleave : importSelf.onTemplate t = (importSelf.inside t ()).1.withSelfImport := by
    rw [Pass.onTemplate, Pass.template_eq]
    rfl
  have hroots := roots_importSelf t
  rw [hleave, Template.withSelfImport_eq] at hroots
  rw [hleave, Template.withSelfImport_eq]
  -- The pass looks at the expressions that it has treated already, and has not changed.
  rw [Template.exprs, Template.exprs, ← hroots]
  rfl

/-- Whether an expression in the piece accesses the template itself. -/
def Piece.readsSelf (x : Piece) : Bool := x.roots.any Expr.readsSelf || x.parts.any Stmt.readsSelf

theorem any_readsSelf (pieces : List Piece) :
    pieces.any Piece.readsSelf = ((pieces.flatMap Piece.roots).any Expr.readsSelf ||
      (pieces.flatMap Piece.parts).any Stmt.readsSelf) := by
  induction pieces with
  | nil => rfl
  | cons x rest ih =>
    simp only [any_cons, flatMap_cons, any_append, ih, Piece.readsSelf]
    ac_rfl

theorem Template.any_pieces (t : Template) :
    t.pieces.any Piece.readsSelf = t.exprs.any Expr.accessesSelf := by
  have hexprs : t.exprs.any Expr.accessesSelf = t.roots.any Expr.readsSelf := any_flatMap
  rw [any_readsSelf, t.flatMap_parts, hexprs, roots_eq, any_append, Bool.or_comm]
  exact congrArg (· || _) any_flatMap.symm

theorem selfCalls_expr (e : Expr) :
    Notes e.readsSelf (selfCalls.expr e) (replaceSelfCalls.onExpr (importSelf.onExpr e)) := by
  intro noted outer
  rw [tallies_selfCalls.expr e (cons_ne_nil _ _), tally_noteSelf, onExpr_importSelf]
  rfl

theorem selfCalls_assigned (list : List (String × Expr)) :
    Notes ((list.map Prod.snd).any Expr.readsSelf) (selfCalls.assigned list)
      (replaceSelfCalls.assigned (importSelf.assigned list ()).1 ()).1 := by
  induction list with
  | nil => exact .pure _
  | cons entry rest ih =>
    obtain ⟨name, value⟩ := entry
    exact (selfCalls_expr value).bind (ih.map _)

/-- The pass imports and replaces calls in the piece, and notes down whether there is one. -/
def Piece.Walked (x : Piece) : Prop :=
  Notes x.readsSelf (selfCalls.piece x) (replaceSelfCalls.onPiece (importSelf.onPiece x))

theorem selfCalls_pieces {pieces : List Piece} (h : ∀ x ∈ pieces, x.Walked) :
    Notes (pieces.any Piece.readsSelf) (selfCalls.pieces pieces)
      ((pieces.map importSelf.onPiece).map replaceSelfCalls.onPiece) := by
  induction pieces with
  | nil => exact .pure _
  | cons x rest ih =>
    obtain ⟨hx, hrest⟩ := forall_mem_cons.mp h
    exact hx.bind ((ih hrest).map _)

theorem selfCalls_stmtKind {kind : Stmt.Kind} (h : ∀ x ∈ kind.pieces, x.Walked) :
    Notes (kind.roots.any Expr.readsSelf || kind.parts.any Stmt.readsSelf) (selfCalls.stmtKind kind)
      (replaceSelfCalls.onKind (importSelf.onKind kind)) := by
  intro noted outer
  rw [selfCalls.stmtKind_eq, selfCalls_pieces h, any_readsSelf, kind.flatMap_roots, kind.flatMap_parts,
    replaceSelfCalls.onKind_eq, importSelf.pieces_onKind, Pass.onKind, importSelf.refill_stmtKind]

/-- A template has a note of its own, and leaves those of the templates around it alone. -/
theorem template_selfCalls_of {t : Template} (h : ∀ x ∈ t.pieces, x.Walked) (noted : List Bool) :
    selfCalls.template t noted = (replaceSelfCalls.onTemplate (importSelf.onTemplate t), noted) := by
  have hinside : selfCalls.inside t (false :: noted) =
      (t.refill ((t.pieces.map importSelf.onPiece).map replaceSelfCalls.onPiece),
        t.exprs.any Expr.accessesSelf :: noted) := by
    rw [selfCalls.inside_eq, selfCalls_pieces h, t.any_pieces, Bool.false_or]
  have hreplace : replaceSelfCalls.onTemplate (importSelf.onTemplate t) =
      { t.refill ((t.pieces.map importSelf.onPiece).map replaceSelfCalls.onPiece) with
        setup := (importSelf.onTemplate t).setup } := by
    rw [Pass.onTemplate, Pass.template_eq]
    show (replaceSelfCalls.inside (importSelf.onTemplate t) ()).1 = _
    rw [replaceSelfCalls.inside_eq, Pass.pieces_eq, partwise_importSelf.pieces_onTemplate,
      onTemplate_importSelf, ← importSelf.refill_inside () t]
    rfl
  rw [Pass.template_eq, hreplace, onTemplate_importSelf]
  show selfCalls.leaveTemplate (selfCalls.inside t (false :: noted)).1
    (selfCalls.inside t (false :: noted)).2 = _
  rw [hinside, selfCalls_leaveTemplate, head?_cons, Option.getD_some]
  show (if _ && !t.setup.any Stmt.isSelfImport then _ else _, noted) = _
  cases t.exprs.any Expr.accessesSelf && !t.setup.any Stmt.isSelfImport with
  | false =>
    rw [if_neg Bool.false_ne_true, if_neg Bool.false_ne_true, append_nil]
    rfl
  | true =>
    rw [if_pos rfl, if_pos rfl]
    rfl

theorem hereditary_walked : Hereditary Piece.Walked fun stmt =>
    Notes (stmt.parts.any Stmt.readsSelf) (selfCalls.stmt stmt)
      (some (replaceSelfCalls.onStmt (importSelf.onStmt stmt))) where
  expr e := ((selfCalls_expr e).map Piece.expr).of_eq (by simp [Piece.readsSelf])
  named list := ((selfCalls_assigned list).map Piece.named).of_eq (by simp [Piece.readsSelf])
  nil := .pure _
  cons stmt rest hstmt hrest := by
    have hbody : Notes (Piece.body rest).readsSelf (selfCalls.body rest)
        (replaceSelfCalls.body (importSelf.body rest ()).1 ()).1 := by
      intro noted outer
      obtain ⟨hbody, hnoted⟩ := Prod.ext_iff.mp (hrest noted outer)
      exact Prod.ext (Piece.body.inj hbody) hnoted
    obtain ⟨kind, line⟩ := stmt
    exact ((hstmt.bind (hbody.map _)).map Piece.body).of_eq (by simp [Piece.readsSelf, bodyParts])
  stmt kind line h := (selfCalls_stmtKind h).map fun kind => some (Stmt.mk kind line)
  template t h := (Notes.of_kept (template_selfCalls_of h)).map Piece.template

theorem template_selfCalls (t : Template) (noted : List Bool) :
    selfCalls.template t noted = (replaceSelfCalls.onTemplate (importSelf.onTemplate t), noted) :=
  template_selfCalls_of (fun x _ => hereditary_walked.all x) noted

/-! ## The whole pass -/

def Template.withSelfCalls (t : Template) : Template := (selfCalls.run [] t).1

theorem Template.withSelfCalls_eq (t : Template) :
    t.withSelfCalls = replaceSelfCalls.onTemplate (importSelf.onTemplate t) :=
  congrArg Prod.fst (template_selfCalls t [])

theorem Template.module_withSelfCalls (t m' : Template) :
    t.withSelfCalls.Module m' ↔ ∃ m, t.Module m ∧ m' = m.withSelfCalls := by
  rw [withSelfCalls_eq]
  constructor
  · intro hm
    obtain ⟨m₁, hm₁, rfl⟩ := local_replaceSelfCalls.module_onTemplate hm
    obtain ⟨m, hm₀, rfl⟩ := partwise_importSelf.module_onTemplate hm₁
    exact ⟨m, hm₀, m.withSelfCalls_eq.symm⟩
  · rintro ⟨m, hm, rfl⟩
    rw [m.withSelfCalls_eq]
    exact local_replaceSelfCalls.onTemplate_module (partwise_importSelf.onTemplate_module hm)

theorem Template.roots_withSelfCalls (t : Template) :
    t.withSelfCalls.roots = t.roots.map replaceSelfCalls.onExpr := by
  rw [withSelfCalls_eq, local_replaceSelfCalls.roots_onTemplate (fun _ => rfl), roots_importSelf]

theorem Template.setup_withSelfCalls (t : Template) :
    t.withSelfCalls.setup = t.setup ++
      if t.exprs.any Expr.accessesSelf && !t.setup.any Stmt.isSelfImport then [selfImport]
      else [] := by
  obtain ⟨body, blocks, macros, parent, setup⟩ := t
  rw [withSelfCalls_eq, local_replaceSelfCalls.onTemplate_eq, onTemplate_importSelf]

/-- After the pass no expression accesses the template itself. -/
theorem Template.accessesSelf_withSelfCalls (t : Template) :
    ∀ e ∈ t.withSelfCalls.exprs, e.accessesSelf = false := by
  rw [exprs, roots_withSelfCalls]
  intro e he
  obtain ⟨root, hroot, he⟩ := mem_flatMap.mp he
  obtain ⟨e₀, -, rfl⟩ := mem_map.mp hroot
  exact establishes_replaceSelfCalls.onExpr e₀ e he

/-- Where no expression accesses the template itself, the pass changes nothing. -/
theorem Template.withSelfCalls_eq_self {t : Template}
    (h : ∀ m, t.Module m → ∀ e ∈ m.exprs, e.accessesSelf = false) : t.withSelfCalls = t := by
  have himport : importSelf.onTemplate t = t := by
    refine partwise_importSelf.onTemplate_eq_self t (fun _ _ => ⟨fun _ _ => rfl, fun _ _ => rfl⟩) ?_
    intro m hm
    have hnone : m.exprs.any Expr.accessesSelf = false :=
      any_eq_false.mpr fun e he => Bool.eq_false_iff.mp (h m hm e he)
    show m.withSelfImport = m
    rw [withSelfImport, hnone, Bool.false_and, if_neg Bool.false_ne_true]
  rw [withSelfCalls_eq, himport]
  refine local_replaceSelfCalls.onTemplate_eq_self t fun m hm => ⟨fun e he => ?_, fun _ _ => rfl⟩
  have hnone : e.selfCall?.isSome = false := e.isSome_selfCall?.trans (h m hm e he)
  show e.selfCall?.getD e = e
  rw [Option.not_isSome_iff_eq_none.mp (Bool.eq_false_iff.mp hnone)]
  rfl

/-- **A template imports itself once, and its macros are called.** The pass treats each template
embedded in another one as if it stood alone. In each of them an access to the template itself under
a constant name becomes a call of that macro, with the same arguments; the parts of all other
expressions are treated, and nothing else. A template imports itself afterwards if one of its own
expressions was such an access, or if it did before, and it gains one import at most. A second run
changes nothing. -/
theorem withSelfCalls_spec (t : Template) :
    (selfCalls.run [] t).2 = [] ∧
    (∀ m', t.withSelfCalls.Module m' ↔ ∃ m, t.Module m ∧ m' = m.withSelfCalls) ∧
    (∀ m, t.Module m →
      m.withSelfCalls.roots = m.roots.map replaceSelfCalls.onExpr ∧
      (∀ e ∈ m.withSelfCalls.exprs, e.accessesSelf = false) ∧
      m.withSelfCalls.setup = m.setup ++
        if (∃ e ∈ m.exprs, e.accessesSelf = true) ∧ ¬ ∃ stmt ∈ m.setup, stmt.isSelfImport = true then
          [selfImport]
        else []) ∧
    (∀ object key list call defined line topmost method,
      object.isName selfName = true → key.string? = some method →
      replaceSelfCalls.onExpr ⟨.access object key list call defined, line, topmost⟩ =
        ⟨.macroCall object method
          ((list.map replaceSelfCalls.onExpr).map Argument.positional) defined, line, topmost⟩) ∧
    (∀ e, e.accessesSelf = false → replaceSelfCalls.onExpr e =
      ⟨(replaceSelfCalls.exprKind e.kind ()).1, e.line, e.topmost⟩) ∧
    t.withSelfCalls.withSelfCalls = t.withSelfCalls := by
  refine ⟨congrArg Prod.snd (template_selfCalls t []), t.module_withSelfCalls, fun m _ => ?_, ?_,
    fun e => onExpr_replaceSelfCalls_of_accessesSelf, ?_⟩
  · refine ⟨m.roots_withSelfCalls, m.accessesSelf_withSelfCalls, ?_⟩
    rw [m.setup_withSelfCalls]
    congr 1
    refine if_congr ?_ rfl rfl
    simp
  · intro object key list call defined line topmost method hobject hkey
    exact onExpr_replaceSelfCalls_of_string? hobject hkey list call defined line topmost
  · refine Template.withSelfCalls_eq_self fun m' hm' => ?_
    obtain ⟨m, -, rfl⟩ := (t.module_withSelfCalls m').mp hm'
    exact m.accessesSelf_withSelfCalls

/-- A template that calls a macro of its own in the arguments of an embedded one. -/
def callInEmbed : Source :=
  ⟨"\x7b% embed 'card' with [_self.field('x')] %\x7d\x7b% block c %\x7d\x7b\x7b b \x7d\x7d" ++
    "\x7b% endblock %\x7d\x7b% endembed %\x7d", "", none⟩

/-- The call belongs to the template around: the embedded one does not import itself. -/
theorem withSelfCalls_spec_callInEmbed :
    ∃ t m, (Template.parse Dialect.core callInEmbed).result = .ok t ∧ t.Module m ∧ m ≠ t ∧
      t.withSelfCalls.Module m.withSelfCalls ∧ t.withSelfCalls.setup = [selfImport] ∧
      m.withSelfCalls.setup = [] := by
  have hfacts : (Template.parse Dialect.core callInEmbed).result.toOption.any
      (fun t => t.exprs.any Expr.accessesSelf && t.setup.isEmpty &&
        (t.parts.filterMap Stmt.embedded?).any fun m =>
          m.exprs.all (!·.accessesSelf) && m.setup.isEmpty) = true := by
    rw [Template.parse, Dialect.tokenize, Lexer.tokenize, Pattern.orderSymbols_eq]
    decide +kernel
  obtain ⟨t, hresult, hfacts⟩ := eq_ok_of_any hfacts
  obtain ⟨hfacts, hinner⟩ := Bool.and_eq_true_iff.mp hfacts
  obtain ⟨hcalls, hsetup⟩ := Bool.and_eq_true_iff.mp hfacts
  obtain ⟨m, hm, hinner⟩ := any_eq_true.mp hinner
  obtain ⟨stmt, hstmt, hembedded⟩ := mem_filterMap.mp hm
  obtain ⟨hnone, hempty⟩ := Bool.and_eq_true_iff.mp hinner
  have hmodule : t.Module m := .embedded .self hstmt hembedded
  have hcall : ∃ e ∈ t.exprs, e.accessesSelf = true := any_eq_true.mp hcalls
  have hnocall : ¬ ∃ e ∈ m.exprs, e.accessesSelf = true := by
    rintro ⟨e, he, haccess⟩
    have hfalse := all_eq_true.mp hnone e he
    rw [haccess] at hfalse
    cases hfalse
  obtain ⟨-, hmodules, htreated, -⟩ := withSelfCalls_spec t
  refine ⟨t, m, hresult, hmodule, ?_, (hmodules _).mpr ⟨m, hmodule, rfl⟩, ?_, ?_⟩
  · rintro rfl
    exact hnocall hcall
  · rw [(htreated t .self).2.2, List.isEmpty_iff.mp hsetup,
      if_pos ⟨hcall, fun hmem => nomatch hmem.choose_spec.1⟩, nil_append]
  · rw [(htreated m hmodule).2.2, List.isEmpty_iff.mp hempty, if_neg fun h => hnocall h.1,
      nil_append]

end TwigToLatte
