import TwigToLatte.Proofs.Pass.Stateless

/-!
# Templates without marks

The passes of a conversion keep a state, and what they note down in it goes into two places: the
marks of loops, and the statements that prepare a template. Everything else they do as passes
without state do it.

* `Template.plain` — a template without the marks of its loops and without preparations.
* `Gives` — what a computation answers, as long as its state stays what it should be.
* `Pass.Mimics` — a pass that treats templates, marks and preparations apart, as a pass without
  state does.
* `Pass.Mimics.plain_run` — **what such a pass makes of a template is, without marks, what the
  pass without state makes of the template without marks**.
* `Dialect.plain_runStages` — the passes of a conversion as passes without state.
-/

namespace TwigToLatte

open List

mutual

/-- The statement without marks. -/
def Stmt.plain : Stmt → Stmt
  | ⟨kind, line⟩ => ⟨kind.plain, line⟩

def Stmt.Kind.plain : Stmt.Kind → Stmt.Kind
  | .loop key value sequence body otherwise _ =>
    .loop key value sequence (plainBody body) (plainOptional otherwise) false
  | .branch branches otherwise => .branch (plainBranches branches) (plainOptional otherwise)
  | .capture name body => .capture name (plainBody body)
  | .embed included template => .embed included template.plain
  | .scope bindings only body => .scope bindings only (plainBody body)
  | .apply filter body => .apply filter (plainBody body)
  | .autoescape strategy body => .autoescape strategy (plainBody body)
  | .sandbox body => .sandbox (plainBody body)
  | .cache key ttl tags body => .cache key ttl tags (plainBody body)
  | kind => kind

def plainBody : List Stmt → List Stmt
  | [] => []
  | stmt :: rest => stmt.plain :: plainBody rest

def plainOptional : Option (List Stmt) → Option (List Stmt)
  | none => none
  | some body => some (plainBody body)

def plainBranches : List (Expr × List Stmt) → List (Expr × List Stmt)
  | [] => []
  | (test, body) :: rest => (test, plainBody body) :: plainBranches rest

def plainBlocks : List (String × Block) → List (String × Block)
  | [] => []
  | (name, ⟨body, line⟩) :: rest => (name, ⟨plainBody body, line⟩) :: plainBlocks rest

def plainMacros : List (String × MacroDef) → List (String × MacroDef)
  | [] => []
  | (name, ⟨params, body, line⟩) :: rest =>
    (name, ⟨params, plainBody body, line⟩) :: plainMacros rest

/-- The template without the marks of its loops and without preparations. -/
def Template.plain : Template → Template
  | ⟨body, blocks, macros, parent, _⟩ =>
    ⟨plainBody body, plainBlocks blocks, plainMacros macros, parent, []⟩

end

theorem plainBody_eq (body : List Stmt) : plainBody body = body.map Stmt.plain := by
  induction body with
  | nil => rfl
  | cons stmt rest ih => rw [plainBody, ih, map_cons]

theorem plainBlocks_eq (blocks : List (String × Block)) :
    plainBlocks blocks = blocks.map fun entry => (entry.1, ⟨plainBody entry.2.body, entry.2.line⟩) := by
  induction blocks with
  | nil => rfl
  | cons entry rest ih =>
    obtain ⟨name, body, line⟩ := entry
    rw [plainBlocks, ih, map_cons]

theorem plainMacros_eq (macros : List (String × MacroDef)) :
    plainMacros macros = macros.map fun entry =>
      (entry.1, ⟨entry.2.params, plainBody entry.2.body, entry.2.line⟩) := by
  induction macros with
  | nil => rfl
  | cons entry rest ih =>
    obtain ⟨name, params, body, line⟩ := entry
    rw [plainMacros, ih, map_cons]

theorem length_plainBlocks (blocks : List (String × Block)) :
    (plainBlocks blocks).length = blocks.length := by
  rw [plainBlocks_eq, length_map]

/-- The piece without marks. -/
def Piece.plain : Piece → Piece
  | .body list => .body (plainBody list)
  | .template t => .template t.plain
  | x => x

/-! ## Pieces -/

theorem map_plain_optional (body : Option (List Stmt)) :
    (body.toList.map Piece.body).map Piece.plain = (plainOptional body).toList.map Piece.body := by
  cases body <;> rfl

theorem map_plain_exprs (list : List Expr) :
    (list.map Piece.expr).map Piece.plain = list.map Piece.expr := map_map

theorem map_plain_branches (branches : List (Expr × List Stmt)) :
    (branchPieces branches).map Piece.plain = branchPieces (plainBranches branches) := by
  induction branches with
  | nil => rfl
  | cons branch rest ih => exact congrArg (.expr branch.1 :: .body (plainBody branch.2) :: ·) ih

theorem map_plain_macros (macros : List (String × MacroDef)) :
    (macroPieces macros).map Piece.plain = macroPieces (plainMacros macros) := by
  induction macros with
  | nil => rfl
  | cons entry rest ih =>
    obtain ⟨name, params, body, line⟩ := entry
    exact congrArg (.named params :: .body (plainBody body) :: ·) ih

/-- The statement itself without a mark. -/
def Stmt.Kind.unmark : Stmt.Kind → Stmt.Kind
  | .loop key value sequence body otherwise _ => .loop key value sequence body otherwise false
  | kind => kind

namespace Stmt.Kind

theorem pieces_plain (kind : Kind) : kind.plain.pieces = kind.pieces.map Piece.plain := by
  cases kind with
  | loop key value sequence body otherwise withLoop => cases otherwise <;> rfl
  | branch branches otherwise =>
    rw [pieces, map_append, map_plain_branches, map_plain_optional]
    rfl
  | inclusion included => exact (map_plain_exprs (included.template :: included.bindings.toList)).symm
  | embed included t =>
    rw [pieces, map_append]
    exact congrArg (· ++ _) (map_plain_exprs (included.template :: included.bindings.toList)).symm
  | scope bindings only body => cases bindings <;> rfl
  | cache key ttl tags body => cases ttl <;> cases tags <;> rfl
  | _ => rfl

/-- The form does not depend on marks inside a statement. -/
theorem refill_plain (kind : Kind) (pieces : List Piece) :
    kind.plain.refill pieces = (kind.refill pieces).unmark := by cases kind <;> rfl

end Stmt.Kind

theorem hereditary_parts_plain : Hereditary (fun x => x.plain.parts = x.parts.map Stmt.plain)
    fun stmt => stmt.plain.parts = stmt.parts.map Stmt.plain where
  expr _ := rfl
  named _ := rfl
  nil := rfl
  cons stmt rest hstmt hrest := by
    show stmt.plain.parts ++ bodyParts (plainBody rest) = (stmt.parts ++ bodyParts rest).map Stmt.plain
    rw [map_append, ← hstmt]
    exact congrArg (_ ++ ·) hrest
  stmt kind line hkind := by
    rw [Stmt.parts_eq, Stmt.plain, ← Stmt.Kind.flatMap_parts, Stmt.Kind.pieces_plain, flatMap_map,
      Stmt.parts, map_cons, ← Stmt.Kind.flatMap_parts, map_flatMap, flatMap_congr hkind]
    rfl
  template _ _ := rfl

theorem parts_plainBody (body : List Stmt) :
    bodyParts (plainBody body) = (bodyParts body).map Stmt.plain :=
  hereditary_parts_plain.all_body body

theorem Stmt.embedded?_plain (stmt : Stmt) :
    stmt.plain.embedded? = stmt.embedded?.map Template.plain := by
  obtain ⟨kind, line⟩ := stmt
  cases kind <;> rfl

theorem Stmt.place?_plain (stmt : Stmt) : stmt.plain.place? = stmt.place? := by
  obtain ⟨kind, line⟩ := stmt
  cases kind <;> rfl

theorem Piece.roots_plain (x : Piece) : x.plain.roots = x.roots := by cases x <;> rfl

theorem Stmt.roots_plain (stmt : Stmt) : stmt.plain.kind.roots = stmt.kind.roots := by
  obtain ⟨kind, line⟩ := stmt
  show kind.plain.roots = kind.roots
  rw [← Stmt.Kind.flatMap_roots, Stmt.Kind.pieces_plain, ← Stmt.Kind.flatMap_roots, flatMap_map]
  simp only [Piece.roots_plain]

namespace Template

theorem pieces_plain (t : Template) : t.plain.pieces = t.pieces.map Piece.plain := by
  obtain ⟨body, blocks, macros, parent, setup⟩ := t
  rw [plain, pieces, pieces, map_append, map_append, map_plain_macros, map_plain_exprs,
    plainBlocks_eq, map_map, map_cons, map_map]
  rfl

theorem refill_plain (t : Template) (pieces : List Piece) :
    t.plain.refill pieces = { t.refill pieces with setup := [] } := by
  obtain ⟨body, blocks, macros, parent, setup⟩ := t
  have hblocks : ∀ bodies, refillBlocks (plainBlocks blocks) bodies = refillBlocks blocks bodies := by
    intro bodies
    rw [plainBlocks_eq, refillBlocks, zipWith_map_left]
    rfl
  have hmacros : ∀ defaults bodies,
      refillMacros (plainMacros macros) defaults bodies = refillMacros macros defaults bodies := by
    intro defaults bodies
    rw [plainMacros_eq, refillMacros, zipWith_map_left]
    rfl
  show Template.mk _ (refillBlocks (plainBlocks blocks) _) (refillMacros (plainMacros macros) _
    (List.drop (plainBlocks blocks).length _)) _ _ = _
  rw [hblocks, hmacros, length_plainBlocks]
  rfl

theorem parts_plain (t : Template) : t.plain.parts = t.parts.map Stmt.plain := by
  rw [← flatMap_parts, pieces_plain, flatMap_map, ← flatMap_parts, map_flatMap]
  exact flatMap_congr fun x _ => hereditary_parts_plain.all x

theorem roots_plain (t : Template) : t.plain.roots = t.roots := by
  rw [roots_eq, roots_eq, parts_plain, pieces_plain, flatMap_map, flatMap_map]
  simp only [Stmt.roots_plain, Piece.roots_plain]

variable {t m : Template}

/-- The templates embedded in a template without marks. -/
theorem module_plain (h : t.plain.Module m) : ∃ m₀, t.Module m₀ ∧ m = m₀.plain := by
  induction h with
  | self => exact ⟨t, .self, rfl⟩
  | @embedded outer inner stmt _ mem embeds ih =>
    obtain ⟨outer₀, houter, rfl⟩ := ih
    rw [parts_plain] at mem
    obtain ⟨stmt₀, hmem, rfl⟩ := mem_map.mp mem
    rw [Stmt.embedded?_plain] at embeds
    obtain ⟨inner₀, hinner, rfl⟩ := Option.map_eq_some_iff.mp embeds
    exact ⟨inner₀, .embedded houter hmem hinner, rfl⟩

theorem Module.plain (h : t.Module m) : t.plain.Module m.plain := by
  induction h with
  | self => exact .self
  | embedded _ mem embeds ih =>
    refine .embedded ih ?_ ((Stmt.embedded?_plain _).trans (congrArg _ embeds))
    rw [parts_plain]
    exact mem_map_of_mem mem

end Template

/-! ## Answers of a pass -/

/-- From every state of the first kind, the computation answers as wanted and ends in a state of
the second kind. -/
def Gives {σ α : Type} (before after : σ → Prop) (m : StateM σ α) (wanted : α → Prop) : Prop :=
  ∀ s, before s → wanted (m s).1 ∧ after (m s).2

namespace Gives

variable {σ α β : Type} {first second third : σ → Prop} {wanted : α → Prop}

theorem pure {a : α} (h : wanted a) :
    Gives first first (Pure.pure a : StateM σ α) wanted := fun _ hs => ⟨h, hs⟩

theorem bind {m : StateM σ α} {k : α → StateM σ β} {wanted' : β → Prop}
    (hm : Gives first second m wanted) (hk : ∀ a, wanted a → Gives second third (k a) wanted') :
    Gives first third (m >>= k) wanted' := fun s hs =>
  hk (m s).1 (hm s hs).1 (m s).2 (hm s hs).2

end Gives

namespace Pass

variable {σ : Type} {p : Pass σ} {q : Pass Unit} {level : Nat → σ → Prop}

/-- The pass treats expressions as the pass without state does, and statements and templates too
as far as they are plain. A state belongs to a level, the number of templates around. -/
structure Mimics (p : Pass σ) (q : Pass Unit) (level : Nat → σ → Prop) : Prop where
  enterTemplate : ∀ n t, Gives (level n) (level (n + 1)) (p.enterTemplate t) fun _ => True
  leaveTemplate : ∀ n t, Gives (level (n + 1)) (level n) (p.leaveTemplate t) fun t' =>
    t'.plain = (q.leaveTemplate t.plain ()).1
  enterStmt : ∀ n stmt, Gives (level (n + 1)) (level (n + 1)) (p.enterStmt stmt) fun _ => True
  leaveStmt : ∀ n stmt, Gives (level (n + 1)) (level (n + 1)) (p.leaveStmt stmt) fun stmt' =>
    stmt'.map Stmt.plain = (q.leaveStmt stmt.plain ()).1
  enterExpr : ∀ n e, Gives (level (n + 1)) (level (n + 1)) (p.enterExpr e) fun _ => True
  leaveExpr : ∀ n e, Gives (level (n + 1)) (level (n + 1)) (p.leaveExpr e) (· = q.exprStep e)

namespace Mimics

section

variable {n : Nat}

theorem exprs {list : List Expr}
    (hlist : ∀ e ∈ list, Gives (level (n + 1)) (level (n + 1)) (p.expr e) (· = q.onExpr e)) :
    Gives (level (n + 1)) (level (n + 1)) (p.exprs list) (· = (q.exprs list ()).1) := by
  induction list with
  | nil => exact .pure rfl
  | cons e rest ih =>
    obtain ⟨he, hrest⟩ := forall_mem_cons.mp hlist
    exact he.bind fun _ he => (ih hrest).bind fun _ hrest => .pure (by rw [he, hrest]; rfl)

theorem expr (h : p.Mimics q level) (e : Expr) :
    Gives (level (n + 1)) (level (n + 1)) (p.expr e) (· = q.onExpr e) := by
  induction e using Expr.children_induction with
  | _ e ih =>
    obtain ⟨kind, line, topmost⟩ := e
    have hkind : Gives (level (n + 1)) (level (n + 1)) (p.exprKind kind)
        (· = (q.exprKind kind ()).1) := by
      intro s hs
      rw [p.exprKind_eq, q.exprKind_eq]
      exact (exprs ih s hs).imp_left (congrArg kind.fill)
    refine (h.enterExpr n _).bind fun _ _ => hkind.bind fun kind' hkind' => ?_
    rw [hkind']
    exact h.leaveExpr n _

theorem assigned (h : p.Mimics q level) : ∀ list : List (String × Expr),
    Gives (level (n + 1)) (level (n + 1)) (p.assigned list) (· = (q.assigned list ()).1)
  | [] => .pure rfl
  | (_, value) :: rest =>
    (h.expr value).bind fun _ hvalue => (h.assigned rest).bind fun _ hrest =>
      .pure (by rw [hvalue, hrest]; rfl)

/-- Marks apart, the first pass makes of the piece what the second one does. -/
def Treats (p : Pass σ) (q : Pass Unit) (level : Nat → σ → Prop) (x : Piece) : Prop :=
  ∀ n, Gives (level (n + 1)) (level (n + 1)) (p.piece x) (·.plain = q.onPiece x.plain)

theorem pieces {list : List Piece} (hlist : ∀ x ∈ list, Treats p q level x) :
    Gives (level (n + 1)) (level (n + 1)) (p.pieces list)
      (·.map Piece.plain = (q.pieces (list.map Piece.plain) ()).1) := by
  induction list with
  | nil => exact .pure rfl
  | cons x rest ih =>
    obtain ⟨hx, hrest⟩ := forall_mem_cons.mp hlist
    refine (hx n).bind fun _ hx => (ih hrest).bind fun _ hrest => .pure ?_
    rw [map_cons, hx, hrest]
    rfl

/-- The form that a statement keeps decides the statement without marks, with the pieces. -/
theorem stmtKind {kind : Stmt.Kind} (hkind : ∀ x ∈ kind.pieces, Treats p q level x) :
    Gives (level (n + 1)) (level (n + 1)) (p.stmtKind kind)
      (·.plain = (q.stmtKind kind.plain ()).1) := by
  intro s hs
  obtain ⟨hpieces, hafter⟩ := pieces hkind s hs
  rw [pieces_stmtKind] at hpieces hafter
  refine ⟨(?_ : (p.stmtKind kind s).1.plain = (q.stmtKind kind.plain ()).1), hafter⟩
  dsimp only at hpieces
  rw [q.stmtKind_eq, ← (p.stmtKind kind s).1.plain.refill_pieces, Stmt.Kind.refill_plain,
    Stmt.Kind.refill_plain, refill_stmtKind, Stmt.Kind.pieces_plain, Stmt.Kind.pieces_plain, hpieces]

theorem template_of_pieces (h : p.Mimics q level) {t : Template}
    (ht : ∀ x ∈ t.pieces, Treats p q level x) :
    Gives (level n) (level n) (p.template t) (·.plain = q.onTemplate t.plain) := by
  have hinside : Gives (level (n + 1)) (level (n + 1)) (p.inside t)
      (·.plain = (q.inside t.plain ()).1) := by
    intro s hs
    obtain ⟨hpieces, hafter⟩ := pieces ht s hs
    rw [pieces_inside] at hpieces hafter
    refine ⟨(?_ : (p.inside t s).1.plain = (q.inside t.plain ()).1), hafter⟩
    dsimp only at hpieces
    rw [q.inside_eq, ← (p.inside t s).1.plain.refill_pieces, Template.refill_plain,
      Template.refill_plain, refill_inside, Template.pieces_plain, Template.pieces_plain, hpieces]
  rw [template_eq]
  -- The state is one level deeper inside; leaving the template brings it back.
  refine (h.enterTemplate n t).bind fun _ _ => hinside.bind fun t' ht' => ?_
  have hleave := h.leaveTemplate n t'
  rw [ht'] at hleave
  rw [onTemplate, template_eq]
  exact hleave

theorem hereditary (h : p.Mimics q level) :
    Hereditary (Treats p q level)
      fun stmt => ∀ n, Gives (level (n + 1)) (level (n + 1)) (p.stmt stmt) fun stmt' =>
        stmt'.map Stmt.plain = (q.stmt stmt.plain ()).1 where
  expr e _ := (h.expr e).bind fun _ he => .pure (congrArg Piece.expr he)
  named list _ := (h.assigned list).bind fun _ hlist => .pure (congrArg Piece.named hlist)
  nil _ := .pure rfl
  cons stmt rest hstmt hrest n s hs := by
    obtain ⟨hstmt, hafter⟩ := hstmt n s hs
    obtain ⟨hrest, hafter⟩ := hrest n _ hafter
    have hrest : plainBody (p.body rest (p.stmt stmt s).2).1 = (q.body (plainBody rest) ()).1 :=
      Piece.body.inj hrest
    refine ⟨congrArg Piece.body (?_ : plainBody ((p.stmt stmt s).1.toList ++
      (p.body rest (p.stmt stmt s).2).1) = (q.body (plainBody (stmt :: rest)) ()).1), hafter⟩
    rw [plainBody_eq, map_append, ← plainBody_eq (p.body rest _).1, hrest, ← Option.toList_map,
      hstmt]
    rfl
  stmt kind line hkind n := by
    refine (h.enterStmt n _).bind fun _ _ => (stmtKind hkind).bind fun kind' hkind' => ?_
    have hleave := h.leaveStmt n ⟨kind', line⟩
    rw [Stmt.plain, hkind'] at hleave
    exact hleave
  template t ht n := (h.template_of_pieces ht).bind fun _ ht => .pure (congrArg Piece.template ht)

theorem template (h : p.Mimics q level) (t : Template) :
    Gives (level n) (level n) (p.template t) (·.plain = q.onTemplate t.plain) :=
  h.template_of_pieces fun x _ => h.hereditary.all x

end

theorem plain_run (h : p.Mimics q level) {s : σ} (hs : level 0 s) (t : Template) :
    (p.run s t).1.plain = q.onTemplate t.plain := (h.template t s hs).1

end Mimics

end Pass

/-! ## The passes of a conversion -/

theorem Stmt.plain_promoteBlock (stmt : Stmt) :
    stmt.promoteBlock.plain = stmt.plain.promoteBlock := by
  obtain ⟨kind, line⟩ := stmt
  cases kind with
  | print e => obtain ⟨kind, _, _⟩ := e; cases kind <;> rfl
  | _ => rfl

theorem Stmt.plain_idiom (stmt : Stmt) : stmt.idiom.plain = stmt.plain.idiom := by
  obtain ⟨kind, line⟩ := stmt
  cases kind with
  | print e =>
    change Stmt.plain ⟨if _ then _ else _, line⟩ = ⟨if _ then _ else _, line⟩
    split <;> rfl
  | _ => rfl

theorem LoopScope.plain_close (stmt : Stmt) (scopes : List LoopScope) :
    (LoopScope.close stmt scopes).1.plain = stmt.plain := by
  obtain ⟨kind, line⟩ := stmt
  cases scopes with
  | nil => cases kind <;> rfl
  | cons _ _ => cases kind <;> rfl

/-- Calls of own macros, not noted down. -/
def replaceSelfCalls : Pass Unit where
  name := "macro_auto_import"
  leaveExpr e := return e.selfCall?.getD e

/-- Raw filters and printed blocks. -/
def simplifyOutput (rawFilter : Bool) : Pass Unit where
  name := "optimizer"
  leaveStmt stmt := return some stmt.promoteBlock
  leaveExpr e := return if rawFilter then e.dropRaw else e

theorem local_replaceSelfCalls : replaceSelfCalls.Local where
  keeps _ := rfl
  alike := .refl
  leaveTemplate _ := rfl

theorem Stmt.reworded_promoteBlock (stmt : Stmt) : stmt.Reworded stmt.promoteBlock := by
  obtain ⟨kind, line⟩ := stmt
  unfold promoteBlock
  split
  · rename_i hkind
    cases hkind
    exact .output _ _ line
  · rename_i hkind
    cases hkind
    exact .output _ _ line
  · exact .same _

theorem local_simplifyOutput (rawFilter : Bool) : (simplifyOutput rawFilter).Local where
  keeps _ := rfl
  alike stmt := stmt.reworded_promoteBlock.alike
  leaveTemplate _ := rfl

theorem selfCalls_leaveTemplate (t : Template) (calls : List Bool) :
    selfCalls.leaveTemplate t calls =
      (if calls.head?.getD false && !t.setup.any Stmt.isSelfImport then
        { t with setup := t.setup ++ [selfImport] }
      else t, calls.tail) := by
  show (if _ then pure _ else pure _ : StateM (List Bool) Template) calls.tail = _
  split <;> rfl

theorem selfCalls_leaveExpr (e : Expr) (calls : Bool) (outer : List Bool) :
    selfCalls.leaveExpr e (calls :: outer) =
      (e.selfCall?.getD e, (calls || e.selfCall?.isSome) :: outer) := by
  cases hcall : e.selfCall? with
  | none =>
    rw [Option.isSome_none, Bool.or_false]
    simp only [selfCalls, hcall]
    rfl
  | some call =>
    rw [Option.isSome_some, Bool.or_true]
    simp only [selfCalls, hcall]
    rfl

theorem mimics_selfCalls : selfCalls.Mimics replaceSelfCalls fun n calls => calls.length = n where
  enterTemplate _ _ _ hcalls := ⟨trivial, congrArg (· + 1) hcalls⟩
  leaveTemplate n t calls hcalls := by
    rw [selfCalls_leaveTemplate]
    refine ⟨?_, length_tail.trans (congrArg (· - 1) hcalls)⟩
    split
    · cases t; rfl
    · rfl
  enterStmt _ _ := .pure trivial
  leaveStmt _ _ := .pure rfl
  enterExpr _ _ := .pure trivial
  leaveExpr _ e calls hcalls := by
    obtain _ | ⟨calls, outer⟩ := calls
    · cases hcalls
    · rw [selfCalls_leaveExpr]
      exact ⟨rfl, hcalls⟩

theorem mimics_simplify (optimizations : Optimizations) :
    (simplify optimizations).Mimics (simplifyOutput optimizations.rawFilter) fun _ _ => True where
  enterTemplate _ _ _ _ := ⟨trivial, trivial⟩
  leaveTemplate _ _ _ _ := ⟨rfl, trivial⟩
  enterStmt _ _ _ _ := ⟨trivial, trivial⟩
  leaveStmt _ stmt scopes _ := by
    refine ⟨?_, trivial⟩
    obtain ⟨loopContext, rawFilter⟩ := optimizations
    cases loopContext
    · exact congrArg some stmt.plain_promoteBlock
    · have hclose := Stmt.plain_promoteBlock (LoopScope.close stmt scopes).1
      rw [LoopScope.plain_close] at hclose
      exact congrArg some hclose
  enterExpr _ _ _ _ := ⟨trivial, trivial⟩
  leaveExpr _ _ _ _ := ⟨rfl, trivial⟩

theorem mimics_latteIdioms : latteIdioms.Mimics latteIdioms fun _ _ => True where
  enterTemplate _ _ _ _ := ⟨trivial, trivial⟩
  leaveTemplate _ _ _ _ := ⟨rfl, trivial⟩
  enterStmt _ _ _ _ := ⟨trivial, trivial⟩
  leaveStmt _ stmt _ _ := ⟨congrArg some stmt.plain_idiom, trivial⟩
  enterExpr _ _ _ _ := ⟨trivial, trivial⟩
  leaveExpr _ _ _ _ := ⟨rfl, trivial⟩

/-- What the passes of a conversion make of a template, marks and preparations apart. -/
def Template.rewritten (rawFilter : Bool) (t : Template) : Template :=
  latteIdioms.onTemplate
    ((simplifyOutput rawFilter).onTemplate (replaceSelfCalls.onTemplate t.plain))

theorem Dialect.stages_eq (dialect : Dialect) :
    dialect.stages =
      [selfCalls.stage [], (simplify dialect.optimizations).stage [], latteIdioms.stage ()] := by
  refine mergeSort_of_pairwise ?_
  simp [Pass.stage, selfCalls, simplify, latteIdioms]

theorem Dialect.plain_runStages (dialect : Dialect) (t : Template) :
    (dialect.runStages t).plain = t.rewritten dialect.optimizations.rawFilter := by
  rw [runStages, stages_eq, Template.rewritten,
    ← mimics_selfCalls.plain_run (s := []) rfl,
    ← (mimics_simplify dialect.optimizations).plain_run (s := []) trivial,
    ← mimics_latteIdioms.plain_run (s := ()) trivial]
  rfl

end TwigToLatte
