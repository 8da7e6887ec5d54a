import TwigToLatte.Conversion
import TwigToLatte.Proofs.Latte.Agreement
import TwigToLatte.Proofs.Pass.Idiom

/-!
# Templates that differ in what they print

* `Template.Reprints` — a template that prints other expressions than another one, at any number of
  places, and is otherwise the same.
* `Stmt.rewritten` — a statement after the passes of a conversion, marks apart.
* `Template.Reprints.render_eq` — **if the passes make the same statement of each two expressions
  printed at the same place, then the code of the templates after the passes is the same**.
-/

namespace TwigToLatte

mutual

/-- The statements differ in printed expressions, each related to the one at its place. -/
inductive Stmt.Reprints (R : Expr → Expr → Prop) : Stmt → Stmt → Prop
  | same (stmt : Stmt) : Stmt.Reprints R stmt stmt
  | print {e e' : Expr} (line : Nat) (h : R e e') :
      Stmt.Reprints R ⟨.print e, line⟩ ⟨.print e', line⟩
  | loop {body body' : List Stmt} {otherwise otherwise' : Option (List Stmt)}
      (key : Option String) (value : String) (sequence : Expr) (withLoop : Bool) (line : Nat)
      (hbody : BodyReprints R body body') (hotherwise : OptionalReprints R otherwise otherwise') :
      Stmt.Reprints R ⟨.loop key value sequence body otherwise withLoop, line⟩
        ⟨.loop key value sequence body' otherwise' withLoop, line⟩
  | branch {branches branches' : List (Expr × List Stmt)}
      {otherwise otherwise' : Option (List Stmt)} (line : Nat)
      (hbranches : BranchesReprint R branches branches')
      (hotherwise : OptionalReprints R otherwise otherwise') :
      Stmt.Reprints R ⟨.branch branches otherwise, line⟩ ⟨.branch branches' otherwise', line⟩
  | capture {body body' : List Stmt} (name : String) (line : Nat)
      (hbody : BodyReprints R body body') :
      Stmt.Reprints R ⟨.capture name body, line⟩ ⟨.capture name body', line⟩
  | embed {t t' : Template} (included : Inclusion) (line : Nat) (ht : Template.Reprints R t t') :
      Stmt.Reprints R ⟨.embed included t, line⟩ ⟨.embed included t', line⟩
  | scope {body body' : List Stmt} (bindings : Option Expr) (only : Bool) (line : Nat)
      (hbody : BodyReprints R body body') :
      Stmt.Reprints R ⟨.scope bindings only body, line⟩ ⟨.scope bindings only body', line⟩
  | apply {body body' : List Stmt} (filter : Expr) (line : Nat)
      (hbody : BodyReprints R body body') :
      Stmt.Reprints R ⟨.apply filter body, line⟩ ⟨.apply filter body', line⟩
  | autoescape {body body' : List Stmt} (strategy : Option String) (line : Nat)
      (hbody : BodyReprints R body body') :
      Stmt.Reprints R ⟨.autoescape strategy body, line⟩ ⟨.autoescape strategy body', line⟩
  | sandbox {body body' : List Stmt} (line : Nat) (hbody : BodyReprints R body body') :
      Stmt.Reprints R ⟨.sandbox body, line⟩ ⟨.sandbox body', line⟩
  | cache {body body' : List Stmt} (key : Expr) (ttl tags : Option Expr) (line : Nat)
      (hbody : BodyReprints R body body') :
      Stmt.Reprints R ⟨.cache key ttl tags body, line⟩ ⟨.cache key ttl tags body', line⟩

inductive BodyReprints (R : Expr → Expr → Prop) : List Stmt → List Stmt → Prop
  | nil : BodyReprints R [] []
  | cons {stmt stmt' : Stmt} {rest rest' : List Stmt} (hstmt : Stmt.Reprints R stmt stmt')
      (hrest : BodyReprints R rest rest') : BodyReprints R (stmt :: rest) (stmt' :: rest')

inductive OptionalReprints (R : Expr → Expr → Prop) :
    Option (List Stmt) → Option (List Stmt) → Prop
  | none : OptionalReprints R none none
  | some {body body' : List Stmt} (hbody : BodyReprints R body body') :
      OptionalReprints R (some body) (some body')

inductive BranchesReprint (R : Expr → Expr → Prop) :
    List (Expr × List Stmt) → List (Expr × List Stmt) → Prop
  | nil : BranchesReprint R [] []
  | cons {body body' : List Stmt} {rest rest' : List (Expr × List Stmt)} (test : Expr)
      (hbody : BodyReprints R body body') (hrest : BranchesReprint R rest rest') :
      BranchesReprint R ((test, body) :: rest) ((test, body') :: rest')

inductive BlocksReprint (R : Expr → Expr → Prop) :
    List (String × Block) → List (String × Block) → Prop
  | nil : BlocksReprint R [] []
  | cons {body body' : List Stmt} {rest rest' : List (String × Block)} (name : String) (line : Nat)
      (hbody : BodyReprints R body body') (hrest : BlocksReprint R rest rest') :
      BlocksReprint R ((name, ⟨body, line⟩) :: rest) ((name, ⟨body', line⟩) :: rest')

inductive MacrosReprint (R : Expr → Expr → Prop) :
    List (String × MacroDef) → List (String × MacroDef) → Prop
  | nil : MacrosReprint R [] []
  | cons {body body' : List Stmt} {rest rest' : List (String × MacroDef)} (name : String)
      (params : List (String × Expr)) (line : Nat) (hbody : BodyReprints R body body')
      (hrest : MacrosReprint R rest rest') :
      MacrosReprint R ((name, ⟨params, body, line⟩) :: rest)
        ((name, ⟨params, body', line⟩) :: rest')

/-- The templates, and those embedded in them, differ in printed expressions, each related to the
one at its place. -/
inductive Template.Reprints (R : Expr → Expr → Prop) : Template → Template → Prop
  | mk {body body' : List Stmt} {blocks blocks' : List (String × Block)}
      {macros macros' : List (String × MacroDef)} (parent : Option Expr) (setup : List Stmt)
      (hbody : BodyReprints R body body') (hblocks : BlocksReprint R blocks blocks')
      (hmacros : MacrosReprint R macros macros') :
      Template.Reprints R ⟨body, blocks, macros, parent, setup⟩
        ⟨body', blocks', macros', parent, setup⟩

end

/-! ## After the passes -/

section

variable (rawFilter : Bool)

/-- The statement after the passes of a conversion, marks apart. -/
def Stmt.rewritten (stmt : Stmt) : Stmt :=
  latteIdioms.onStmt ((simplifyOutput rawFilter).onStmt (replaceSelfCalls.onStmt stmt.plain))

def rewrittenBody (body : List Stmt) : List Stmt :=
  (latteIdioms.body
    ((simplifyOutput rawFilter).body (replaceSelfCalls.body (plainBody body) ()).1 ()).1 ()).1

def rewrittenOptional (body : Option (List Stmt)) : Option (List Stmt) :=
  (latteIdioms.optionalBody ((simplifyOutput rawFilter).optionalBody
    (replaceSelfCalls.optionalBody (plainOptional body) ()).1 ()).1 ()).1

def rewrittenBranches (branches : List (Expr × List Stmt)) : List (Expr × List Stmt) :=
  (latteIdioms.branches ((simplifyOutput rawFilter).branches
    (replaceSelfCalls.branches (plainBranches branches) ()).1 ()).1 ()).1

def rewrittenBlocks (blocks : List (String × Block)) : List (String × Block) :=
  (latteIdioms.blocks ((simplifyOutput rawFilter).blocks
    (replaceSelfCalls.blocks (plainBlocks blocks) ()).1 ()).1 ()).1

def rewrittenMacros (macros : List (String × MacroDef)) : List (String × MacroDef) :=
  (latteIdioms.macros ((simplifyOutput rawFilter).macros
    (replaceSelfCalls.macros (plainMacros macros) ()).1 ()).1 ()).1

end

theorem rewrittenBody_eq (rawFilter : Bool) (body : List Stmt) :
    rewrittenBody rawFilter body = body.map (Stmt.rewritten rawFilter) := by
  rw [rewrittenBody, plainBody_eq, local_replaceSelfCalls.body_eq,
    (local_simplifyOutput rawFilter).body_eq, local_latteIdioms.body_eq, List.map_map, List.map_map,
    List.map_map]
  rfl

/-- Related expressions become the same statement where they are printed. -/
def PrintedAlike (rawFilter : Bool) (R : Expr → Expr → Prop) : Prop :=
  ∀ line e e', R e e' →
    Stmt.rewritten rawFilter ⟨.print e, line⟩ = Stmt.rewritten rawFilter ⟨.print e', line⟩

section

variable {R : Expr → Expr → Prop} {rawFilter : Bool}

mutual

theorem Stmt.Reprints.rewritten_eq {stmt stmt' : Stmt} (hR : PrintedAlike rawFilter R) :
    Stmt.Reprints R stmt stmt' → stmt.rewritten rawFilter = stmt'.rewritten rawFilter
  | .same _ => rfl
  | .print line h => hR line _ _ h
  | .loop key value _ _ line hbody hotherwise => by
    show Stmt.mk (.loop key value _ (rewrittenBody rawFilter _) (rewrittenOptional rawFilter _) _)
      line = _
    rw [hbody.rewritten_eq hR, hotherwise.rewritten_eq hR]
    rfl
  | .branch line hbranches hotherwise => by
    show Stmt.mk (.branch (rewrittenBranches rawFilter _) (rewrittenOptional rawFilter _)) line = _
    rw [hbranches.rewritten_eq hR, hotherwise.rewritten_eq hR]
    rfl
  | .capture _ line hbody => by
    show Stmt.mk (.capture _ (rewrittenBody rawFilter _)) line = _
    rw [hbody.rewritten_eq hR]
    rfl
  | .embed _ line ht => by
    show Stmt.mk (.embed _ (Template.rewritten rawFilter _)) line = _
    rw [ht.rewritten_eq hR]
    rfl
  | .scope _ _ line hbody => by
    show Stmt.mk (.scope _ _ (rewrittenBody rawFilter _)) line = _
    rw [hbody.rewritten_eq hR]
    rfl
  | .apply _ line hbody => by
    show Stmt.mk (.apply _ (rewrittenBody rawFilter _)) line = _
    rw [hbody.rewritten_eq hR]
    rfl
  | .autoescape _ line hbody => by
    show Stmt.mk (.autoescape _ (rewrittenBody rawFilter _)) line = _
    rw [hbody.rewritten_eq hR]
    rfl
  | .sandbox line hbody => by
    show Stmt.mk (.sandbox (rewrittenBody rawFilter _)) line = _
    rw [hbody.rewritten_eq hR]
    rfl
  | .cache _ _ _ line hbody => by
    show Stmt.mk (.cache _ _ _ (rewrittenBody rawFilter _)) line = _
    rw [hbody.rewritten_eq hR]
    rfl

theorem BodyReprints.rewritten_eq {body body' : List Stmt} (hR : PrintedAlike rawFilter R) :
    BodyReprints R body body' → rewrittenBody rawFilter body = rewrittenBody rawFilter body'
  | .nil => rfl
  | .cons hstmt hrest => by
    have hrest := hrest.rewritten_eq hR
    rw [rewrittenBody_eq, rewrittenBody_eq] at hrest ⊢
    rw [List.map_cons, List.map_cons, hstmt.rewritten_eq hR, hrest]

theorem OptionalReprints.rewritten_eq {body body' : Option (List Stmt)}
    (hR : PrintedAlike rawFilter R) : OptionalReprints R body body' →
      rewrittenOptional rawFilter body = rewrittenOptional rawFilter body'
  | .none => rfl
  | .some hbody => congrArg some (hbody.rewritten_eq hR)

theorem BranchesReprint.rewritten_eq {branches branches' : List (Expr × List Stmt)}
    (hR : PrintedAlike rawFilter R) : BranchesReprint R branches branches' →
      rewrittenBranches rawFilter branches = rewrittenBranches rawFilter branches'
  | .nil => rfl
  | .cons _ hbody hrest => by
    show (_, rewrittenBody rawFilter _) :: rewrittenBranches rawFilter _ = _
    rw [hbody.rewritten_eq hR, hrest.rewritten_eq hR]
    rfl

theorem BlocksReprint.rewritten_eq {blocks blocks' : List (String × Block)}
    (hR : PrintedAlike rawFilter R) : BlocksReprint R blocks blocks' →
      rewrittenBlocks rawFilter blocks = rewrittenBlocks rawFilter blocks'
  | .nil => rfl
  | .cons name line hbody hrest => by
    show (name, Block.mk (rewrittenBody rawFilter _) line) :: rewrittenBlocks rawFilter _ = _
    rw [hbody.rewritten_eq hR, hrest.rewritten_eq hR]
    rfl

theorem MacrosReprint.rewritten_eq {macros macros' : List (String × MacroDef)}
    (hR : PrintedAlike rawFilter R) : MacrosReprint R macros macros' →
      rewrittenMacros rawFilter macros = rewrittenMacros rawFilter macros'
  | .nil => rfl
  | .cons name _ line hbody hrest => by
    show (name, MacroDef.mk _ (rewrittenBody rawFilter _) line) :: rewrittenMacros rawFilter _ = _
    rw [hbody.rewritten_eq hR, hrest.rewritten_eq hR]
    rfl

theorem Template.Reprints.rewritten_eq {t t' : Template} (hR : PrintedAlike rawFilter R) :
    Template.Reprints R t t' → t.rewritten rawFilter = t'.rewritten rawFilter
  | .mk _ _ hbody hblocks hmacros => by
    show Template.mk (rewrittenBody rawFilter _) (rewrittenBlocks rawFilter _)
      (rewrittenMacros rawFilter _) _ _ = _
    rw [hbody.rewritten_eq hR, hblocks.rewritten_eq hR, hmacros.rewritten_eq hR]
    rfl

end

end

/-- Templates that print alike have the same code and line map after the passes. -/
theorem Template.Reprints.render_eq {R : Expr → Expr → Prop} {dialect : Dialect}
    {t t' : Template} (h : Template.Reprints R t t')
    (hR : PrintedAlike dialect.optimizations.rawFilter R) (name : String) :
    Latte.render dialect name (dialect.runStages t) =
      Latte.render dialect name (dialect.runStages t') := by
  rw [Latte.render_runStages, Latte.render_runStages, h.rewritten_eq hR]

end TwigToLatte
