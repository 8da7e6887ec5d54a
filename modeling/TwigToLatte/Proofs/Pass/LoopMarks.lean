import Mathlib.Data.List.Forall2
import TwigToLatte.Proofs.Pass.Stateless
import TwigToLatte.Pass.LoopContext

/-!
# Marks of loops

While a template is walked, the open loops are known with the variables that they assign. A use of
the loop variable marks the innermost of them, unless one of them assigns a variable of that name.

* `LoopScope.Grows` — open loops that got marks, and nothing else.
* `Stmt.Kind.reads` — the expressions of a statement and of those inside it, up to inner loops.
* `Notes` — open loops that have noted down the use of the loop variable in some expressions.
* `Stmt.Marked` — **every loop that reads the loop variable, in its sequence, its body or its
  alternative, has its mark**, unless a loop around assigns a variable of that name.
* `marked_simplify` — so it is after the pass.
-/

namespace TwigToLatte

open List

namespace LoopScope

/-! ## Open loops -/

/-- A loop assigns a variable with the name of the loop variable. -/
def shadowed (scopes : List LoopScope) : Bool := scopes.any (·.targets.contains "loop")

/-- The innermost open loop, if there is one, is marked. -/
def innermostMarked (scopes : List LoopScope) : Prop :=
  ∀ scope ∈ scopes.head?, scope.withLoop = true

/-- Loops may have got marks; nothing else has changed. -/
abbrev Grows : List LoopScope → List LoopScope → Prop :=
  List.Forall₂ fun scope scope' =>
    scope'.targets = scope.targets ∧ (scope.withLoop = true → scope'.withLoop = true)

variable {scopes scopes' scopes'' : List LoopScope}

theorem Grows.refl (scopes : List LoopScope) : Grows scopes scopes :=
  forall₂_same.mpr fun _ _ => ⟨rfl, id⟩

theorem Grows.trans (h : Grows scopes scopes') (h' : Grows scopes' scopes'') :
    Grows scopes scopes'' := by
  induction h generalizing scopes'' with
  | nil => exact h'
  | cons hhead _ ih =>
    cases h' with
    | cons hhead' htail' =>
      exact .cons ⟨hhead'.1.trans hhead.1, hhead'.2 ∘ hhead.2⟩ (ih htail')

theorem Grows.shadowed_eq (h : Grows scopes scopes') : shadowed scopes' = shadowed scopes := by
  induction h with
  | nil => rfl
  | cons hhead _ ih =>
    rw [shadowed, any_cons, hhead.1, shadowed, any_cons]
    exact congrArg (_ || ·) ih

theorem Grows.innermostMarked (h : Grows scopes scopes') (hmarked : innermostMarked scopes) :
    innermostMarked scopes' := by
  cases h with
  | nil => exact hmarked
  | cons hhead _ =>
    rintro scope ⟨⟩
    exact hhead.2 (hmarked _ rfl)

theorem grows_markInnermost (scopes : List LoopScope) : Grows scopes (markInnermost scopes) := by
  cases scopes with
  | nil => exact .nil
  | cons scope outer => exact .cons ⟨rfl, fun _ => rfl⟩ (Grows.refl outer)

theorem grows_markAll (scopes : List LoopScope) : Grows scopes (markAll scopes) := by
  rw [markAll, Grows, forall₂_map_right_iff]
  exact forall₂_same.mpr fun _ _ => ⟨rfl, fun _ => rfl⟩

theorem innermostMarked_markInnermost (scopes : List LoopScope) :
    innermostMarked (markInnermost scopes) := by
  cases scopes with
  | nil => exact fun _ h => nomatch h
  | cons scope outer => rintro _ ⟨⟩; rfl

theorem grows_enterExpr (e : Expr) (scopes : List LoopScope) :
    Grows scopes (enterExpr e scopes) := by
  unfold enterExpr
  split
  · split
    · exact grows_markInnermost scopes
    · exact .refl scopes
  · exact grows_markInnermost scopes
  · exact grows_markInnermost scopes
  · split
    · exact grows_markAll scopes
    · exact .refl scopes
  · split
    · exact grows_markAll scopes
    · exact .refl scopes
  · exact .refl scopes

/-- The use of the loop variable in some of the expressions has been noted down: unless the name is
taken, the innermost loop is marked. -/
structure Notes (reads : List Expr) (scopes scopes' : List LoopScope) : Prop where
  grows : Grows scopes scopes'
  marks : shadowed scopes = false → (∃ x ∈ reads, x.isName "loop" = true) → innermostMarked scopes'

namespace Notes

variable {reads reads' : List Expr}

theorem of_grows (h : Grows scopes scopes') : Notes [] scopes scopes' :=
  ⟨h, fun _ ⟨_, hx, _⟩ => nomatch hx⟩

theorem refl (scopes : List LoopScope) : Notes [] scopes scopes := of_grows (.refl scopes)

theorem append (h : Notes reads scopes scopes') (h' : Notes reads' scopes' scopes'') :
    Notes (reads ++ reads') scopes scopes'' where
  grows := h.grows.trans h'.grows
  marks hshadowed := by
    rintro ⟨x, hx, hname⟩
    rcases mem_append.mp hx with hx | hx
    · exact h'.grows.innermostMarked (h.marks hshadowed ⟨x, hx, hname⟩)
    · exact h'.marks (h.grows.shadowed_eq.trans hshadowed) ⟨x, hx, hname⟩

theorem mono (h : Notes reads scopes scopes')
    (hreads : ∀ x ∈ reads', x.isName "loop" = true → x ∈ reads) : Notes reads' scopes scopes' :=
  ⟨h.grows, fun hshadowed ⟨x, hx, hname⟩ => h.marks hshadowed ⟨x, hreads x hx hname, hname⟩⟩

end Notes

theorem notes_enterExpr {e e' : Expr} (h : e'.isName "loop" = e.isName "loop")
    (scopes : List LoopScope) : Notes [e'] scopes (enterExpr e scopes) where
  grows := grows_enterExpr e scopes
  marks hshadowed := by
    rintro ⟨x, hx, hname⟩
    rw [mem_singleton.mp hx, h] at hname
    have henter : enterExpr e scopes = markInnermost scopes := by
      obtain ⟨kind, line, topmost⟩ := e
      cases kind with
      | name n defined =>
        have hvariable : isLoopVariable scopes ⟨.name n defined, line, topmost⟩ = true := by
          rw [shadowed] at hshadowed
          rw [isLoopVariable, hname, hshadowed]
          rfl
        exact if_pos hvariable
      | _ => cases hname
    rw [henter]
    exact innermostMarked_markInnermost scopes

end LoopScope

open LoopScope

/-! ## Expressions -/

/-- The values that are assigned to variables, with the expressions inside them. -/
def assignedReads : List (String × Expr) → List Expr
  | [] => []
  | (_, value) :: rest => value.parts ++ assignedReads rest

/-- The expressions of an inclusion, with those inside them. -/
def Inclusion.reads (included : Inclusion) : List Expr :=
  included.template.parts ++ optionalExprParts included.bindings

theorem Expr.parts_dropRaw_subset (e : Expr) : e.dropRaw.parts ⊆ e.parts := by
  unfold dropRaw
  split
  · rename_i operand list hkind
    rw [e.parts_eq, hkind]
    exact fun x hx => mem_cons_of_mem _ (mem_append_left _ hx)
  · exact fun x hx => hx

section

variable {rawFilter : Bool}

theorem notes_exprs {list : List Expr}
    (h : ∀ e ∈ list, ∀ scopes, Notes ((simplify ⟨true, rawFilter⟩).expr e scopes).1.parts scopes
      ((simplify ⟨true, rawFilter⟩).expr e scopes).2) (scopes : List LoopScope) :
    Notes (listParts ((simplify ⟨true, rawFilter⟩).exprs list scopes).1) scopes
      ((simplify ⟨true, rawFilter⟩).exprs list scopes).2 := by
  induction list generalizing scopes with
  | nil => exact .refl scopes
  | cons e rest ih =>
    obtain ⟨he, hrest⟩ := forall_mem_cons.mp h
    exact (he scopes).append (ih hrest _)

theorem notes_expr (e : Expr) (scopes : List LoopScope) :
    Notes ((simplify ⟨true, rawFilter⟩).expr e scopes).1.parts scopes
      ((simplify ⟨true, rawFilter⟩).expr e scopes).2 := by
  induction e using Expr.children_induction generalizing scopes with
  | _ e ih =>
    obtain ⟨kind, line, topmost⟩ := e
    have hkind := notes_exprs ih (enterExpr ⟨kind, line, topmost⟩ scopes)
    rw [← Pass.parts_exprKind] at hkind
    have hname : Expr.isName "loop" ⟨((simplify ⟨true, rawFilter⟩).exprKind kind
        (enterExpr ⟨kind, line, topmost⟩ scopes)).1, line, topmost⟩ =
          Expr.isName "loop" ⟨kind, line, topmost⟩ := by
      cases kind <;> rfl
    have h := (notes_enterExpr hname scopes).append hkind
    rw [← congrArg Prod.snd (Pass.exprKind_eq _ kind _)] at h
    cases rawFilter with
    | false => exact h
    | true => exact h.mono fun x hx _ => Expr.parts_dropRaw_subset _ hx

theorem notes_assigned (list : List (String × Expr)) (scopes : List LoopScope) :
    Notes (assignedReads ((simplify ⟨true, rawFilter⟩).assigned list scopes).1) scopes
      ((simplify ⟨true, rawFilter⟩).assigned list scopes).2 := by
  induction list generalizing scopes with
  | nil => exact .refl scopes
  | cons entry rest ih => exact (notes_expr entry.2 scopes).append (ih _)

end

/-! ## Statements -/

mutual

/-- The statement without inner loops reads these expressions. -/
def Stmt.reads : Stmt → List Expr
  | ⟨.loop .., _⟩ => []
  | ⟨kind, _⟩ => kind.reads

/-- The expressions of a statement and of those inside it, up to inner loops and embedded
templates. -/
def Stmt.Kind.reads : Stmt.Kind → List Expr
  | .text _ | .comment _ | .verbatim _ | .block _ | .flush => []
  | .print e | .output e | .evaluate e | .deprecated e | .importAs e _ | .useBlocks e _
  | .inherit e => e.parts
  | .loop _ _ sequence body otherwise _ =>
    sequence.parts ++ bodyReads body ++ optionalReads otherwise
  | .branch branches otherwise => branchReads branches ++ optionalReads otherwise
  | .assign targets => assignedReads targets
  | .inclusion included | .embed included _ => included.reads
  | .capture _ body | .autoescape _ body | .sandbox body => bodyReads body
  | .scope bindings _ body => optionalExprParts bindings ++ bodyReads body
  | .apply filter body => filter.parts ++ bodyReads body
  | .cache key ttl tags body =>
    key.parts ++ optionalExprParts ttl ++ optionalExprParts tags ++ bodyReads body

def bodyReads : List Stmt → List Expr
  | [] => []
  | stmt :: rest => stmt.reads ++ bodyReads rest

def optionalReads : Option (List Stmt) → List Expr
  | none => []
  | some body => bodyReads body

def branchReads : List (Expr × List Stmt) → List Expr
  | [] => []
  | (test, body) :: rest => test.parts ++ bodyReads body ++ branchReads rest

end

/-- Whether the name of the loop variable is taken inside a loop. -/
def takenInside (key : Option String) (value : String) (taken : Bool) : Bool :=
  (value :: key.toList).contains "loop" || taken

mutual

/-- Every loop in the statement that reads the loop variable is marked, as long as its name is not
taken by a loop around. -/
def Stmt.Marked (taken : Bool) : Stmt → Prop
  | ⟨.loop key value sequence body otherwise withLoop, _⟩ =>
    (takenInside key value taken = false →
      (∃ x ∈ Stmt.Kind.reads (.loop key value sequence body otherwise withLoop),
        x.isName "loop" = true) → withLoop = true) ∧
    bodyMarked (takenInside key value taken) body ∧
    optionalMarked (takenInside key value taken) otherwise
  | ⟨kind, _⟩ => kind.Marked taken

/-- The same for the loops inside a statement. -/
def Stmt.Kind.Marked (taken : Bool) : Stmt.Kind → Prop
  | .loop _ _ _ body otherwise _ => bodyMarked taken body ∧ optionalMarked taken otherwise
  | .branch branches otherwise => branchesMarked taken branches ∧ optionalMarked taken otherwise
  | .capture _ body | .autoescape _ body | .sandbox body | .scope _ _ body | .apply _ body
  | .cache _ _ _ body => bodyMarked taken body
  | .embed _ t => t.Marked taken
  | _ => True

def bodyMarked (taken : Bool) : List Stmt → Prop
  | [] => True
  | stmt :: rest => stmt.Marked taken ∧ bodyMarked taken rest

def optionalMarked (taken : Bool) : Option (List Stmt) → Prop
  | none => True
  | some body => bodyMarked taken body

def branchesMarked (taken : Bool) : List (Expr × List Stmt) → Prop
  | [] => True
  | (_, body) :: rest => bodyMarked taken body ∧ branchesMarked taken rest

def blocksMarked (taken : Bool) : List (String × Block) → Prop
  | [] => True
  | (_, ⟨body, _⟩) :: rest => bodyMarked taken body ∧ blocksMarked taken rest

def macrosMarked (taken : Bool) : List (String × MacroDef) → Prop
  | [] => True
  | (_, ⟨_, body, _⟩) :: rest => bodyMarked taken body ∧ macrosMarked taken rest

/-- The same for all statements of a template. -/
def Template.Marked (taken : Bool) : Template → Prop
  | ⟨body, blocks, macros, _, _⟩ =>
    bodyMarked taken body ∧ blocksMarked taken blocks ∧ macrosMarked taken macros

end

section

variable {taken : Bool}

theorem assignedReads_eq (targets : List (String × Expr)) :
    assignedReads targets = targets.flatMap fun target => target.2.parts :=
  eq_flatMap_of_cons rfl (fun _ _ => rfl) targets

theorem bodyReads_eq (body : List Stmt) : bodyReads body = body.flatMap Stmt.reads :=
  eq_flatMap_of_cons rfl (fun _ _ => rfl) body

theorem bodyMarked_iff {body : List Stmt} :
    bodyMarked taken body ↔ ∀ stmt ∈ body, stmt.Marked taken := by
  induction body with
  | nil => exact iff_of_true trivial fun _ h => nomatch h
  | cons stmt rest ih => rw [bodyMarked, forall_mem_cons, ih]

theorem blocksMarked_iff {blocks : List (String × Block)} :
    blocksMarked taken blocks ↔ ∀ block ∈ blocks, bodyMarked taken block.2.body := by
  induction blocks with
  | nil => exact iff_of_true trivial fun _ h => nomatch h
  | cons block rest ih =>
    obtain ⟨name, body, line⟩ := block
    rw [blocksMarked, forall_mem_cons, ih]

/-! ## Pieces -/

/-- What a piece reads, up to inner loops and embedded templates. -/
@[simp] def Piece.reads : Piece → List Expr
  | .expr e => e.parts
  | .named list => assignedReads list
  | .body stmts => bodyReads stmts
  | .template _ => []

/-- Every loop in the piece that reads the loop variable is marked. -/
@[simp] def Piece.Marked (taken : Bool) : Piece → Prop
  | .expr _ | .named _ => True
  | .body stmts => bodyMarked taken stmts
  | .template t => t.Marked taken

theorem Stmt.Kind.flatMap_reads (kind : Stmt.Kind) :
    kind.pieces.flatMap Piece.reads = kind.reads := by
  have hbranches : ∀ branches, (branchPieces branches).flatMap Piece.reads = branchReads branches := by
    intro branches
    induction branches with
    | nil => rfl
    | cons branch rest ih => simp [branchPieces, branchReads, ih]
  have hoptional : ∀ body : Option (List Stmt),
      (body.toList.map Piece.body).flatMap Piece.reads = optionalReads body := by
    rintro (_ | body) <;> simp [optionalReads]
  have hexprs : ∀ e : Option Expr,
      (e.toList.map Piece.expr).flatMap Piece.reads = optionalExprParts e := by
    rintro (_ | e) <;> simp [optionalExprParts]
  cases kind <;>
    simp [pieces, reads, Inclusion.pieces, Inclusion.reads, hbranches, hoptional, hexprs]

theorem Stmt.Kind.marked_iff (kind : Stmt.Kind) :
    kind.Marked taken ↔ ∀ x ∈ kind.pieces, x.Marked taken := by
  have hbranches : ∀ branches,
      branchesMarked taken branches ↔ ∀ x ∈ branchPieces branches, x.Marked taken := by
    intro branches
    induction branches with
    | nil => simp [branchesMarked, branchPieces]
    | cons branch rest ih => simp [branchesMarked, branchPieces, ih]
  have hoptional : ∀ body, optionalMarked taken body ↔
      ∀ x ∈ body.toList.map Piece.body, x.Marked taken := by
    rintro (_ | body) <;> simp [optionalMarked]
  cases kind <;> simp [pieces, Marked, Inclusion.pieces, hbranches, hoptional, or_imp, forall_and]

theorem Template.marked_iff (t : Template) : t.Marked taken ↔ ∀ x ∈ t.pieces, x.Marked taken := by
  obtain ⟨body, blocks, macros, parent, setup⟩ := t
  have hmacros : macrosMarked taken macros ↔ ∀ x ∈ macroPieces macros, x.Marked taken := by
    induction macros with
    | nil => simp [macrosMarked, macroPieces]
    | cons definition rest ih =>
      obtain ⟨name, params, body, line⟩ := definition
      simp [macrosMarked, macroPieces, ih]
  rw [pieces, forall_mem_append, forall_mem_append, forall_mem_cons, forall_mem_map, ← hmacros,
    Marked, blocksMarked_iff]
  simp [and_assoc]

end

/-! ## Single steps on statements -/

section

variable {kind : Stmt.Kind}

theorem Stmt.reads_eq (h : kind.isLoop = false) (line : Nat) :
    Stmt.reads ⟨kind, line⟩ = kind.reads := by
  cases kind with
  | loop => cases h
  | _ => rfl

theorem Stmt.marked_eq (h : kind.isLoop = false) (line : Nat) (taken : Bool) :
    Stmt.Marked taken ⟨kind, line⟩ = kind.Marked taken := by
  cases kind with
  | loop => cases h
  | _ => rfl

theorem LoopScope.grows_enterStmt (h : kind.isLoop = false) (line : Nat)
    (scopes : List LoopScope) : Grows scopes (enterStmt ⟨kind, line⟩ scopes) := by
  cases kind with
  | loop => cases h
  | block => exact grows_markInnermost scopes
  | inclusion included | embed included =>
    show Grows scopes (if included.only then scopes else markAll scopes)
    split
    · exact .refl scopes
    · exact grows_markAll scopes
  | _ => exact .refl scopes

theorem LoopScope.close_eq (h : kind.isLoop = false) (line : Nat) (scopes : List LoopScope) :
    close ⟨kind, line⟩ scopes = (⟨kind, line⟩, scopes) := by
  cases kind with
  | loop => cases h
  | _ => rfl

theorem isLoop_stmtKind (p : Pass (List LoopScope)) (kind : Stmt.Kind)
    (scopes : List LoopScope) : (p.stmtKind kind scopes).1.isLoop = kind.isLoop := by
  cases kind <;> rfl

end

variable {stmt : Stmt}

/-- A block that becomes a statement has no new variables. -/
theorem Stmt.mem_reads_promoteBlock {x : Expr} (hx : x ∈ stmt.promoteBlock.reads)
    (hname : x.isName "loop" = true) : x ∈ stmt.reads := by
  unfold promoteBlock at hx
  split at hx
  · rename_i hkind
    obtain ⟨kind, line⟩ := stmt
    cases hkind
    rcases mem_cons.mp hx with rfl | hx
    · cases hname
    · exact mem_cons_of_mem _ hx
  · rename_i hkind
    obtain ⟨kind, line⟩ := stmt
    cases hkind
    rcases mem_cons.mp hx with rfl | hx
    · cases hname
    · exact mem_cons_of_mem _ hx
  · exact hx

theorem Stmt.marked_promoteBlock {taken : Bool} (h : stmt.Marked taken) :
    stmt.promoteBlock.Marked taken := by
  unfold promoteBlock
  split
  · trivial
  · trivial
  · exact h

/-! ## The walk -/

/-- The uses in some expressions have been noted down on the way from open loops to open loops, and
what depends on whether the name of the loop variable is taken there holds. -/
structure Walked (reads : List Expr) (marked : Bool → Prop) (scopes scopes' : List LoopScope) :
    Prop where
  notes : Notes reads scopes scopes'
  marked : marked (shadowed scopes)

namespace Walked

variable {reads reads' : List Expr} {marked marked' : Bool → Prop}
  {scopes scopes' scopes'' : List LoopScope}

theorem append (h : Walked reads marked scopes scopes')
    (h' : Walked reads' marked' scopes' scopes'') :
    Walked (reads ++ reads') (fun taken => marked taken ∧ marked' taken) scopes scopes'' :=
  ⟨h.notes.append h'.notes, h.marked, h.notes.grows.shadowed_eq ▸ h'.marked⟩

theorem after (h : Walked reads' marked scopes' scopes'') (h' : Notes reads scopes scopes') :
    Walked (reads ++ reads') marked scopes scopes'' :=
  ⟨h'.append h.notes, h'.grows.shadowed_eq ▸ h.marked⟩

theorem forget (h : Walked reads marked scopes scopes') : Walked [] marked scopes scopes' :=
  ⟨h.notes.mono (fun _ hx => nomatch hx), h.marked⟩

/-- Leaving a statement that is no loop keeps what its walk has gathered. -/
theorem leave {kind : Stmt.Kind} (h : Walked kind.reads (kind.Marked ·) scopes scopes')
    (hloop : kind.isLoop = false) (line : Nat) :
    Walked (close ⟨kind, line⟩ scopes').1.promoteBlock.reads
      ((close ⟨kind, line⟩ scopes').1.promoteBlock.Marked ·) scopes
      (close ⟨kind, line⟩ scopes').2 := by
  rw [close_eq hloop]
  refine ⟨h.notes.mono fun x hx hname => ?_, Stmt.marked_promoteBlock ?_⟩
  · rw [← Stmt.reads_eq hloop line]
    exact Stmt.mem_reads_promoteBlock hx hname
  · rw [Stmt.marked_eq hloop]
    exact h.marked

/-- Leaving a loop gives it the mark that its scope has gathered. -/
theorem leaveLoop {key : Option String} {value : String} {sequence : Expr} {body : List Stmt}
    {otherwise : Option (List Stmt)} {withLoop : Bool}
    (h : Walked (Stmt.Kind.reads (.loop key value sequence body otherwise withLoop))
      ((Stmt.Kind.loop key value sequence body otherwise withLoop).Marked ·)
      (⟨false, value :: key.toList⟩ :: scopes) scopes') (line : Nat) :
    Walked
      (close ⟨.loop key value sequence body otherwise withLoop, line⟩ scopes').1.promoteBlock.reads
      ((close ⟨.loop key value sequence body otherwise withLoop, line⟩
        scopes').1.promoteBlock.Marked ·) scopes
      (close ⟨.loop key value sequence body otherwise withLoop, line⟩ scopes').2 := by
  obtain ⟨⟨hgrows, hmarks⟩, hbody, hotherwise⟩ := h
  cases hgrows with
  | cons hhead htail =>
    -- The scope of the loop goes into its mark; the loops around see none of its variables.
    exact ⟨.of_grows htail, fun htaken hreads => hmarks htaken hreads _ rfl, hbody, hotherwise⟩

end Walked

section

variable {rawFilter : Bool}

theorem stmt_simplify (kind : Stmt.Kind) (line : Nat) (scopes : List LoopScope) :
    (simplify ⟨true, rawFilter⟩).stmt ⟨kind, line⟩ scopes =
      (fun (walked : Stmt.Kind × List LoopScope) =>
        (some (close ⟨walked.1, line⟩ walked.2).1.promoteBlock,
          (close ⟨walked.1, line⟩ walked.2).2))
        ((simplify ⟨true, rawFilter⟩).stmtKind kind (enterStmt ⟨kind, line⟩ scopes)) := rfl

/-- The walk over a piece notes down what it reads, and marks the loops in it. -/
def Piece.Walks (rawFilter : Bool) (x : Piece) : Prop :=
  ∀ scopes, Walked ((simplify ⟨true, rawFilter⟩).piece x scopes).1.reads
    (((simplify ⟨true, rawFilter⟩).piece x scopes).1.Marked ·) scopes
    ((simplify ⟨true, rawFilter⟩).piece x scopes).2

theorem walk_pieces {list : List Piece} (h : ∀ x ∈ list, x.Walks rawFilter)
    (scopes : List LoopScope) :
    Walked (((simplify ⟨true, rawFilter⟩).pieces list scopes).1.flatMap Piece.reads)
      (fun taken => ∀ x ∈ ((simplify ⟨true, rawFilter⟩).pieces list scopes).1, x.Marked taken) scopes
      ((simplify ⟨true, rawFilter⟩).pieces list scopes).2 := by
  induction list generalizing scopes with
  | nil => exact ⟨.refl scopes, forall_mem_nil _⟩
  | cons x rest ih =>
    obtain ⟨hfirst, hrest⟩ := forall_mem_cons.mp h
    obtain ⟨hnotes, hmarked⟩ := (hfirst scopes).append (ih hrest _)
    exact ⟨hnotes, forall_mem_cons.mpr hmarked⟩

theorem walk_stmtKind {kind : Stmt.Kind} (h : ∀ x ∈ kind.pieces, x.Walks rawFilter)
    (scopes : List LoopScope) :
    Walked ((simplify ⟨true, rawFilter⟩).stmtKind kind scopes).1.reads
      (((simplify ⟨true, rawFilter⟩).stmtKind kind scopes).1.Marked ·) scopes
      ((simplify ⟨true, rawFilter⟩).stmtKind kind scopes).2 := by
  have hpieces := walk_pieces h scopes
  simp only [Pass.pieces_stmtKind, Stmt.Kind.flatMap_reads, ← Stmt.Kind.marked_iff] at hpieces
  exact hpieces

theorem hereditary_walks : Hereditary (Piece.Walks rawFilter) fun stmt => ∀ scopes,
    ∃ stmt', ((simplify ⟨true, rawFilter⟩).stmt stmt scopes).1 = some stmt' ∧
      Walked stmt'.reads (stmt'.Marked ·) scopes
        ((simplify ⟨true, rawFilter⟩).stmt stmt scopes).2 where
  expr e scopes := ⟨notes_expr e scopes, trivial⟩
  named list scopes := ⟨notes_assigned list scopes, trivial⟩
  nil scopes := ⟨.refl scopes, trivial⟩
  cons stmt rest hstmt hrest scopes := by
    obtain ⟨stmt', hstmt', hwalked⟩ := hstmt scopes
    have h := hwalked.append (hrest _)
    show Walked (bodyReads (Option.toList ((simplify ⟨true, rawFilter⟩).stmt stmt scopes).1 ++ _))
      (bodyMarked · (Option.toList ((simplify ⟨true, rawFilter⟩).stmt stmt scopes).1 ++ _)) scopes _
    rw [hstmt']
    exact h
  stmt kind line h scopes := by
    have hkind := walk_stmtKind h (enterStmt ⟨kind, line⟩ scopes)
    rw [stmt_simplify]
    refine ⟨_, rfl, ?_⟩
    cases hloop : kind.isLoop with
    | false =>
      have henter := Notes.of_grows (grows_enterStmt hloop line scopes)
      exact (hkind.after henter).leave ((isLoop_stmtKind _ kind _).trans hloop) line
    | true =>
      cases kind with
      | loop => exact hkind.leaveLoop line
      | _ => cases hloop
  template t h scopes := by
    have hinside := (walk_pieces h scopes).forget
    simp only [Pass.pieces_inside, ← Template.marked_iff] at hinside
    cases t
    exact hinside

end

/-- **After the pass every loop that reads the loop variable is marked.** -/
theorem marked_simplify (rawFilter : Bool) (t : Template) :
    ((simplify ⟨true, rawFilter⟩).run [] t).1.Marked false :=
  (hereditary_walks.all_template t []).marked

end TwigToLatte
