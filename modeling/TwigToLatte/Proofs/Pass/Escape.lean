import TwigToLatte.Proofs.Pass.Reprint

/-!
# Explicit escaping

Latte escapes what it prints, so a filter that escapes is dropped from a printed expression. It is
dropped after printed blocks have become statements: the content of a block under an escape filter
is no statement, and the tag that includes it is printed. A raw filter is dropped before that, with
its arguments.

* `Expr.printsBlock` — an expression that is the content of a block once raw filters are gone.
* `render_escaped` — **escape filters around printed expressions do not show in the code of a
  template, but for the content of a block, which is enclosed in a tag that prints it**.
* `render_raw` — **raw filters around printed expressions do not show at all**.
-/

namespace TwigToLatte

open Latte (Rendered)

/-! ## Printed blocks -/

/-- Whether the expression is the content of a block, of this template or of its parent. -/
def Expr.isBlock (e : Expr) : Bool :=
  match e.kind with
  | .blockCall .. | .parent .. => true
  | _ => false

/-- Whether the expression is the content of a block, after raw filters are dropped. -/
def Expr.printsBlock (rawFilter : Bool) : Expr → Bool
  | ⟨.blockCall .., _, _⟩ | ⟨.parent .., _, _⟩ => true
  | ⟨.filter operand name _, _, _⟩ => rawFilter && name == "raw" && operand.printsBlock rawFilter
  | _ => false

/-- The printed expression when the passes look for blocks. -/
def Expr.simplified (rawFilter : Bool) (e : Expr) : Expr :=
  (simplifyOutput rawFilter).onExpr (replaceSelfCalls.onExpr e)

theorem Expr.dropRaw_filter (operand : Expr) (name : String) (list : List (Argument Expr))
    (line : Nat) (topmost : Bool) :
    Expr.dropRaw ⟨.filter operand name list, line, topmost⟩ =
      if name == "raw" then operand else ⟨.filter operand name list, line, topmost⟩ := by
  by_cases hname : name = "raw"
  · subst hname
    rfl
  · rw [if_neg (by simpa using hname)]
    unfold dropRaw
    split
    · rename_i hkind
      cases hkind
      exact absurd rfl hname
    · rfl

theorem Expr.simplified_filter (rawFilter : Bool) (operand : Expr) (name : String)
    (list : List (Argument Expr)) (line : Nat) (topmost : Bool) :
    Expr.simplified rawFilter ⟨.filter operand name list, line, topmost⟩ =
      if rawFilter && name == "raw" then operand.simplified rawFilter
      else ⟨.filter (operand.simplified rawFilter) name
        ((simplifyOutput rawFilter).arguments (replaceSelfCalls.arguments list ()).1 ()).1, line,
        topmost⟩ := by
  cases rawFilter
  · rfl
  · exact Expr.dropRaw_filter ..

theorem Expr.isBlock_simplified (rawFilter : Bool) (e : Expr) :
    (e.simplified rawFilter).isBlock = e.printsBlock rawFilter := by
  fun_induction printsBlock rawFilter e with
  | case1 => cases rawFilter <;> rfl
  | case2 => cases rawFilter <;> rfl
  | case3 operand name list line topmost ih =>
    rw [simplified_filter]
    cases rawFilter && name == "raw" with
    | true => exact ih
    | false => rfl
  | case4 e hcall hparent hfilter =>
    obtain ⟨kind, line, topmost⟩ := e
    cases kind with
    | blockCall => exact absurd rfl (hcall _ _ _ _ _ _)
    | parent => exact absurd rfl (hparent _ _ _ _)
    | filter => exact absurd rfl (hfilter _ _ _ _ _)
    | access object key list call defined =>
      -- An access becomes a macro call or stays what it is.
      show Expr.isBlock ((simplifyOutput rawFilter).onExpr
        ((if _ then Option.map _ _ else none).getD _)) = _
      split
      · cases Expr.string? _ <;> cases rawFilter <;> rfl
      · cases rawFilter <;> rfl
    | _ => cases rawFilter <;> rfl

theorem Stmt.rewritten_print (rawFilter : Bool) (e : Expr) (line : Nat) :
    Stmt.rewritten rawFilter ⟨.print e, line⟩ =
      latteIdioms.onStmt (Stmt.promoteBlock ⟨.print (e.simplified rawFilter), line⟩) := rfl

variable {e : Expr} {name : String}

theorem Stmt.promoteBlock_print (h : e.isBlock = false) (line : Nat) :
    Stmt.promoteBlock ⟨.print e, line⟩ = ⟨.print e, line⟩ := by
  obtain ⟨kind, _, _⟩ := e
  cases kind with
  | blockCall => cases h
  | parent => cases h
  | _ => rfl

/-! ## Escape filters after the passes -/

theorem isEscape_ne_raw (h : isEscape name = true) : (name == "raw") = false := by
  rw [isEscape, Bool.or_eq_true, beq_iff_eq, beq_iff_eq] at h
  rcases h with rfl | rfl <;> decide

theorem latteIdioms_onExpr_escape (h : isEscape name = true) (operand : Expr)
    (list : List (Argument Expr)) (line : Nat) (topmost : Bool) :
    latteIdioms.onExpr ⟨.filter operand name list, line, topmost⟩ = latteIdioms.onExpr operand := by
  show (if isEscape name then latteIdioms.onExpr operand else _) = _
  rw [if_pos h]

/-- An expression under an escape filter stays printed whatever it is, and the filter is gone. -/
theorem Stmt.rewritten_escape (h : isEscape name = true) (rawFilter : Bool) (e : Expr)
    (list : List (Argument Expr)) (line : Nat) (topmost : Bool) (stmtLine : Nat) :
    Stmt.rewritten rawFilter ⟨.print ⟨.filter e name list, line, topmost⟩, stmtLine⟩ =
      Stmt.idiom ⟨.print (latteIdioms.onExpr (e.simplified rawFilter)), stmtLine⟩ := by
  rw [rewritten_print, Expr.simplified_filter, isEscape_ne_raw h, Bool.and_false,
    if_neg Bool.false_ne_true, promoteBlock_print rfl, ← latteIdioms_onExpr_escape h]
  rfl

/-- The second expression is the first under a filter that escapes, and the first is not the content
of a block. -/
inductive Expr.Escaped (rawFilter : Bool) (e : Expr) : Expr → Prop
  | filter (name : String) (list : List (Argument Expr)) (line : Nat) (topmost : Bool)
      (hname : isEscape name = true) (hblock : e.printsBlock rawFilter = false) :
      Expr.Escaped rawFilter e ⟨.filter e name list, line, topmost⟩

theorem printedAlike_escaped (rawFilter : Bool) :
    PrintedAlike rawFilter (Expr.Escaped rawFilter) := by
  rintro line e _ ⟨name, list, filterLine, topmost, hname, hblock⟩
  rw [← e.isBlock_simplified] at hblock
  rw [Stmt.rewritten_escape hname, Stmt.rewritten_print, Stmt.promoteBlock_print hblock]
  rfl

/-- The content of a block becomes a statement, and under an escape filter a printed expression of
the same text. -/
theorem Stmt.rewritten_block {rawFilter : Bool} (h : e.printsBlock rawFilter = true)
    (scope : Latte.Scope) (line : Nat) :
    ∃ x x' : Expr, Stmt.rewritten rawFilter ⟨.print e, line⟩ = ⟨.output x, line⟩ ∧
      Stmt.idiom ⟨.print (latteIdioms.onExpr (e.simplified rawFilter)), line⟩ = ⟨.print x', line⟩ ∧
      x'.isBlock = true ∧ Latte.expression scope x = Latte.expression scope x' := by
  rw [← e.isBlock_simplified] at h
  rw [rewritten_print]
  generalize e.simplified rawFilter = z at h ⊢
  obtain ⟨kind, line', topmost⟩ := z
  cases kind with
  | parent block output =>
    refine ⟨⟨.parent block true, line', topmost⟩, ⟨.parent block output, line', true⟩,
      rfl, rfl, rfl, ?_⟩
    simp only [Latte.expression, Latte.expressionKind]
  | blockCall name template defined output =>
    let call (output topmost : Bool) : Expr :=
      ⟨.blockCall (latteIdioms.onExpr name) (latteIdioms.optionalExpr template ()).1 defined output,
        line', topmost⟩
    refine ⟨call true topmost, call output true, rfl, rfl, rfl, ?_⟩
    simp only [call, Latte.expression, Latte.expressionKind]
  | _ => cases h

/-! ## The text of a printed block -/

namespace Latte

def Rendered.Begins (c : Char) (r : Rendered) : Prop := r.text.toList.head? = some c

theorem Rendered.Begins.append {c : Char} {a : Rendered} (h : a.Begins c) (b : Rendered) :
    (a ++ b).Begins c := by
  by_cases herror : a.error = none
  · rw [append_eq herror, Begins, String.toList_append, List.head?_append, h, Option.some_or]
  · rwa [append_of_error herror]

variable {e : Expr}

theorem begins_block (h : e.isBlock = true) (scope : Scope) :
    (expression scope e).Begins '{' ∨ (expression scope e).Begins 'i' := by
  have htext : ∀ {c : Char} {a : String}, Rendered.Begins c (a : Rendered) → ∀ b : String,
      Rendered.Begins c ((a ++ b : String) : Rendered) := fun ha b => ha.append b
  have hinclude : Rendered.Begins '{' ("\x7binclude " : Rendered) := by
    show "\x7binclude ".toList.head? = _
    decide +kernel
  have hifset : Rendered.Begins 'i' ("ifset " : Rendered) := by
    show "ifset ".toList.head? = _
    decide +kernel
  obtain ⟨kind, line, topmost⟩ := e
  cases kind with
  | parent =>
    rw [expression, expressionKind]
    exact .inl (hinclude.append "parent\x7d")
  | blockCall name template defined output =>
    cases defined <;> cases hname : name.string? <;> simp only [expression, expressionKind, hname]
    · exact .inl (((hinclude.append _).append _).append _)
    · exact .inl (((htext hinclude _).append _).append _)
    · exact .inr ((hifset.append "block ").append _)
    · exact .inr (htext hifset _)
  | _ => cases h

/-- The tag that prints the content of a block has an equals sign. -/
theorem map_printTag_block (h : e.isBlock = true) (scope : Scope) :
    (expression scope e).map printTag =
      (expression scope e).map fun text => "\x7b=" ++ text ++ "\x7d" := by
  have hhead : ((expression scope e).text.toList.head? == some '$') = false := by
    rcases begins_block h scope with h | h <;> rw [h] <;> decide
  unfold Rendered.map
  split
  · rfl
  · rw [printTag, if_neg (by rw [hhead]; exact Bool.false_ne_true)]

/-- What a text on its own is rendered to. -/
def Rendered.result (r : Rendered) : Except RenderError (String × Array (Nat × Nat)) :=
  match r.error with
  | none => .ok (r.text, #[(1, 1)])
  | some error => .error error

theorem Rendered.result_map (r : Rendered) (f : String → String) :
    (r.map f).result = r.result.map fun (text, lineMap) => (f text, lineMap) := by
  obtain ⟨text, error⟩ := r
  cases error <;> rfl

/-- The code of a template with one statement, by the statement's text. -/
theorem render_single (dialect : Dialect) (name : String) (kind : Stmt.Kind) {r : Rendered}
    (hkind : ∀ text, kind ≠ .text text)
    (h : ∀ block, statementKind kind 1 block { dialect, template := name } = Emit.rendered r) :
    render dialect name ⟨[⟨kind, 1⟩], [], [], none, []⟩ = r.result := by
  have hstmt : ∀ block, statement ⟨kind, 1⟩ block { dialect, template := name } =
      (do Emit.mark 1; Emit.rendered r) := by
    intro block
    rw [← h block]
    cases kind with
    | text text => exact absurd rfl (hkind text)
    | _ => rfl
  rw [render, template]
  simp only [statements, macroDefs, hstmt]
  obtain ⟨text, error⟩ := r
  cases error with
  | none => exact congrArg (fun text => Except.ok (text, #[(1, 1)])) String.empty_append
  | some error => rfl

end Latte

/-! ## Escape filters in a conversion -/

def printing (e : Expr) : Template := ⟨[⟨.print e, 1⟩], [], [], none, []⟩

theorem rewritten_printing (rawFilter : Bool) (e : Expr) :
    (printing e).rewritten rawFilter =
      ⟨[Stmt.rewritten rawFilter ⟨.print e, 1⟩], [], [], none, []⟩ := by
  show Template.mk (rewrittenBody rawFilter [⟨.print e, 1⟩]) [] [] none [] = _
  rw [rewrittenBody_eq]
  rfl

/-- **Escape filters do not show** in the code and the line map, wherever in a template, its blocks
and macros and the templates embedded in it they stand around printed expressions, except for the
content of a block. That is enclosed in a tag that prints it. -/
theorem render_escaped (dialect : Dialect) (name : String) :
    (∀ t t', Template.Reprints (Expr.Escaped dialect.optimizations.rawFilter) t t' →
      Latte.render dialect name (dialect.runStages t') =
        Latte.render dialect name (dialect.runStages t)) ∧
    ∀ e filter list line topmost, e.printsBlock dialect.optimizations.rawFilter = true →
      isEscape filter = true →
      Latte.render dialect name
          (dialect.runStages (printing ⟨.filter e filter list, line, topmost⟩)) =
        (Latte.render dialect name (dialect.runStages (printing e))).map fun (code, lineMap) =>
          ("\x7b=" ++ code ++ "\x7d", lineMap) := by
  refine ⟨fun t t' h => (h.render_eq (printedAlike_escaped _) name).symm, ?_⟩
  intro e filter list line topmost hblock hfilter
  obtain ⟨x, x', hplain, hescaped, hx', htext⟩ :=
    Stmt.rewritten_block hblock { dialect, template := name } 1
  have hincluded := Latte.render_single dialect name (.output x) (fun _ h => nomatch h) fun _ => rfl
  have hprinted := Latte.render_single dialect name (.print x') (fun _ h => nomatch h)
    fun _ => Latte.Emit.mapped_eq _ _
  rw [Latte.render_runStages, Latte.render_runStages, rewritten_printing, rewritten_printing,
    Stmt.rewritten_escape hfilter, hescaped, hplain, hincluded, hprinted, htext,
    Latte.map_printTag_block hx', Latte.Rendered.result_map]

/-- A template that embeds another one, whose block prints an expression in a loop. -/
def printingInLoop (e : Expr) : Template :=
  ⟨[⟨.embed { template := Expr.string "card" 1 }
      ⟨[⟨.block "main", 2⟩],
        [("main", ⟨[⟨.loop none "x" (Expr.name "xs" 3) [⟨.print e, 4⟩] none false, 3⟩], 2⟩)],
        [], none, []⟩, 1⟩],
    [], [], none, []⟩

/-- A template included by function. -/
def includedRow : Expr :=
  ⟨.function "include" .inclusion [.positional (Expr.string "row" 4)] false, 4, false⟩

/-- The content of a block, as an expression. -/
def titleBlock : Expr := ⟨.blockCall (Expr.string "title" 1) none false false, 1, false⟩

/-- An escaped inclusion in an embedded template is still a statement; an escaped block is not. -/
theorem render_escaped_inclusion :
    Latte.render {} "" (Dialect.runStages {} (printingInLoop
        ⟨.filter includedRow "e" [.positional (Expr.string "html" 4)], 4, false⟩)) =
      .ok ("\x7bembed card\x7d\n\x7bblock main\x7d\x7bforeach $xs as $x\x7d\x7binclude row\x7d"
        ++ "\x7b/foreach\x7d\x7b/block\x7d\x7b/embed\x7d", #[(1, 1), (2, 2)]) ∧
    Latte.render {} ""
        (Dialect.runStages {} (printing ⟨.filter titleBlock "escape" [], 1, false⟩)) =
      .ok ("\x7b=\x7binclude title\x7d\x7d", #[(1, 1)]) := by
  have hescaped := (render_escaped {} "").1 (printingInLoop includedRow) (printingInLoop
    ⟨.filter includedRow "e" [.positional (Expr.string "html" 4)], 4, false⟩)
    (.mk none [] (.cons (.embed _ 1 (.mk none [] (.cons (.same _) .nil)
      (.cons "main" 2 (.cons (.loop none "x" _ false 3
        (.cons (.print 4 (.filter "e" _ 4 false rfl rfl)) .nil) .none) .nil) .nil) .nil)) .nil)
      .nil .nil)
  have hblock := (render_escaped {} "").2 titleBlock "escape" [] 1 false rfl rfl
  rw [hescaped, hblock, Dialect.runStages, Dialect.runStages, Dialect.stages_eq]
  decide +kernel

/-- The content of a block under an escape filter is not included but printed. -/
theorem render_escaped_block :
    Latte.render {} "" (Dialect.runStages {} (printing titleBlock)) =
        .ok ("\x7binclude title\x7d", #[(1, 1)]) ∧
      Latte.render {} ""
          (Dialect.runStages {} (printing ⟨.filter titleBlock "escape" [], 1, false⟩)) =
        .ok ("\x7b=\x7binclude title\x7d\x7d", #[(1, 1)]) := by
  rw [Dialect.runStages, Dialect.runStages, Dialect.stages_eq]
  decide +kernel

/-! ## Raw filters in a conversion -/

/-- The second expression is the first under a raw filter. -/
inductive Expr.UnderRaw (e : Expr) : Expr → Prop
  | filter (list : List (Argument Expr)) (line : Nat) (topmost : Bool) :
      Expr.UnderRaw e ⟨.filter e "raw" list, line, topmost⟩

/-- The filter is gone before printed blocks are looked for. -/
theorem printedAlike_underRaw : PrintedAlike true Expr.UnderRaw := by
  rintro line e _ ⟨list, filterLine, topmost⟩
  rw [Stmt.rewritten_print, Stmt.rewritten_print, Expr.simplified_filter]
  rfl

/-- **Raw filters do not show** in the code and the line map where they are dropped, wherever in a
template, its blocks and macros and the templates embedded in it they stand around printed
expressions. What their arguments use, a loop variable or a macro of the template, changes marks and
preparations at most. -/
theorem render_raw {dialect : Dialect} (hraw : dialect.optimizations.rawFilter = true)
    {t t' : Template} (h : Template.Reprints Expr.UnderRaw t t') (name : String) :
    Latte.render dialect name (dialect.runStages t') =
      Latte.render dialect name (dialect.runStages t) :=
  (h.render_eq (hraw ▸ printedAlike_underRaw) name).symm

/-- The filter and the loop variable in its arguments leave no trace. -/
theorem render_raw_loop :
    Latte.render {} "" (Dialect.runStages {} (printingInLoop
        ⟨.filter includedRow "raw" [.positional (Expr.name "loop" 4)], 4, false⟩)) =
      .ok ("\x7bembed card\x7d\n\x7bblock main\x7d\x7bforeach $xs as $x\x7d\x7binclude row\x7d"
        ++ "\x7b/foreach\x7d\x7b/block\x7d\x7b/embed\x7d", #[(1, 1), (2, 2)]) := by
  have hprints : Template.Reprints Expr.UnderRaw (printingInLoop includedRow) (printingInLoop
      ⟨.filter includedRow "raw" [.positional (Expr.name "loop" 4)], 4, false⟩) :=
    .mk none [] (.cons (.embed _ 1 (.mk none [] (.cons (.same _) .nil) (.cons "main" 2
      (.cons (.loop none "x" _ false 3 (.cons (.print 4 (.filter _ 4 false)) .nil) .none) .nil)
      .nil) .nil)) .nil) .nil .nil
  rw [render_raw rfl hprints, Dialect.runStages, Dialect.stages_eq]
  decide +kernel

end TwigToLatte
