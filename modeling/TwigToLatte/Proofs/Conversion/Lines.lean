import TwigToLatte.Proofs.Conversion.TestArguments
import TwigToLatte.Proofs.Lexer.Lines
import TwigToLatte.Proofs.Pass.Steps

/-!
# Lines of conversions

Whatever a conversion reports, it reports on a line of the template. The lines of a parsed template are
those of its tokens, the passes keep them, and the errors of rendering are those of statements and
expressions.

* `line_parse` — a parsed template has its lines in the text, or the fault has.
* `Pass.Rewords.lined_onTemplate` — **each pass keeps the lines of statements, expressions, blocks
  and macros**.
* `line_of_render` — rendering stops on a line of the template.
* `lines_convert` — the lines of a conversion are lines of the text.
-/

namespace TwigToLatte

open List

open Text

/-! ## Parsing -/

theorem line_parse (dialect : Dialect) (source : Source) :
    match (Template.parse dialect source).result with
    | .error fault => Line source.text.toList fault.line
    | .ok t => ∀ m, t.Module m → m.Lined (Line source.text.toList) := by
  have htokenize := Lexer.line_tokenize source.text dialect.operatorSymbols
  rcases parse_cases dialect source with ⟨fault, hfault, hresult⟩ | ⟨tokens, log, htokens, hresult⟩
  · rw [hfault] at htokenize
    rw [hresult]
    exact htokenize
  · rw [htokens] at htokenize
    have hat : ∀ i, Line source.text.toList
        ((Parse.Context.mk dialect source.displayName tokens).tokenAt i).line :=
      Parse.Context.forall_tokenAt (line_lineAt source.text.toList 0)
        fun token htoken => (htokenize token htoken).1
    have : Parse.OnLines ⟨dialect, source.displayName, tokens⟩ (Line source.text.toList) := ⟨hat⟩
    rw [hresult]
    cases hrun : Grammar.template ⟨dialect, source.displayName, tokens⟩ { log } with
    | ok t after => exact (Grammar.lined_template (L := Line source.text.toList)).of_ok hrun
    | error fault after =>
      exact ((Grammar.lined_template (L := Line source.text.toList)).of_error hrun).line

/-! ## Passes -/

theorem stable_line (L : Nat → Prop) : Expr.Stable fun e => L e.line where
  inside _ _ _ _ h := h
  marked _ h := h
  made h hline _ _ _ := by
    rw [hline]
    exact h

theorem Stmt.line_plain (stmt : Stmt) : stmt.plain.line = stmt.line := by
  cases stmt
  rfl

namespace Template

variable {L : Nat → Prop} {t : Template}

theorem lined_iff : t.Lined L ↔
    (∀ line ∈ t.parts.map Stmt.line, L line) ∧ (∀ line ∈ t.exprs.map Expr.line, L line) ∧
      (∀ line ∈ t.blocks.map (·.2.line), L line) ∧ ∀ line ∈ t.macros.map (·.2.line), L line := by
  simp only [forall_mem_map]
  exact ⟨fun h => ⟨h.statements, h.exprs, h.blocks, h.macros⟩,
    fun h => ⟨h.1, h.2.1, h.2.2.1, h.2.2.2⟩⟩

theorem lined_plain : t.plain.Lined L ↔ t.Lined L := by
  rw [lined_iff, lined_iff, parts_plain, exprs, roots_plain, map_map]
  have hline : (Stmt.line ∘ Stmt.plain) = Stmt.line := funext Stmt.line_plain
  obtain ⟨body, blocks, macros, parent, setup⟩ := t
  rw [hline, Template.plain, plainBlocks_eq, plainMacros_eq, map_map, map_map]
  rfl

end Template

variable {L : Nat → Prop} {t : Template} {error : Latte.RenderError}

theorem Pass.Rewords.lined_onTemplate {q : Pass Unit} (hq : q.Rewords) (h : t.Lined L) :
    (q.onTemplate t).Lined L := by
  refine ⟨?_, (hq.stable (stable_line L)).exprs_onTemplate hq.toLocal h.exprs, ?_, ?_⟩
  · rw [hq.parts_onTemplate]
    refine forall_mem_map.mpr fun stmt hstmt => ?_
    rw [onStmt, (hq.reworded _).line_eq]
    exact h.statements stmt hstmt
  · rw [hq.onTemplate_eq, blocks_eq]
    exact forall_mem_map.mpr h.blocks
  · rw [hq.onTemplate_eq, macros_eq]
    exact forall_mem_map.mpr h.macros

/-! ## Rendering -/

/-- What is wrong with an expression is reported on its line. -/
theorem Expr.line_of_unwritable? {e : Expr} (h : e.unwritable? = some error) :
    error.line = e.line := by
  unfold Expr.unwritable? at h
  split at h
  · split at h <;> cases h
    rfl
  · split at h <;> cases h
    rfl
  · cases h

/-- Rendering stops on the line of a statement or of an expression. -/
theorem line_of_render {dialect : Dialect} {name : String} (h : ∀ m, t.Module m → m.Lined L)
    (hrender : Latte.render dialect name t = .error error) : L error.line := by
  have hexcused : ∀ m, t.Module m → ∀ e ∈ m.roots,
      e.All (Latte.Excused fun error => L error.line) := by
    intro m hm e he x hx error herror
    show L error.line
    rw [Expr.line_of_unwritable? herror]
    exact (h m hm).exprs x (mem_flatMap.mpr ⟨e, he, hx⟩)
  refine Latte.within_render (C := fun error => L error.line)
    ⟨fun m hm stmt hstmt => ?_, fun m hm e he => ?_⟩ hrender
  · refine ⟨fun e he => hexcused m hm e ?_, fun _ _ => (h m hm).statements stmt hstmt⟩
    exact mem_append_left _ (mem_append_left _ (mem_flatMap.mpr ⟨stmt, hstmt, he⟩))
  · have hroot : e ∈ m.roots := by
      rw [Template.roots, List.append_assoc]
      exact mem_append_right _ he
    refine ⟨hexcused m hm e hroot, fun _ => (h m hm).exprs e ?_⟩
    exact mem_flatMap.mpr ⟨e, hroot, by cases e; exact mem_cons_self⟩

/-! ## Conversions -/

/-- **The lines of a conversion are lines of the text.** Whatever stops a conversion is reported on a
line between the first and the last one of the source. If the source is parsed, then every statement,
expression, block and macro of the template and of those embedded in it is on such a line, before the
passes of the conversion and after them. -/
theorem lines_convert (dialect : Dialect) (source : Source) :
    (∀ error, (convert dialect source).result = .error error →
      Line source.text.toList error.line) ∧
    ∀ t, (Template.parse dialect source).result = .ok t →
      (∀ m, t.Module m → m.Lined (Line source.text.toList)) ∧
        ∀ m, (dialect.runStages t).Module m → m.Lined (Line source.text.toList) := by
  have hparse := line_parse dialect source
  have hlined : ∀ t, (Template.parse dialect source).result = .ok t →
      (∀ m, t.Module m → m.Lined (Line source.text.toList)) ∧
        ∀ m, (dialect.runStages t).Module m → m.Lined (Line source.text.toList) := by
    intro t ht
    rw [ht] at hparse
    exact ⟨hparse, Dialect.forall_module_runStages (fun _ => Template.lined_plain)
      (fun _ hq _ => hq.lined_onTemplate) hparse⟩
  refine ⟨fun error herror => ?_, hlined⟩
  cases hresult : (Template.parse dialect source).result with
  | error fault =>
    rw [convert, hresult] at herror
    cases herror
    rw [hresult] at hparse
    exact hparse
  | ok t => exact line_of_render (hlined t hresult).2 (render_of_convert hresult herror)

/-- A test without its argument, on the second of two lines. -/
def bareTestBelow : Source := ⟨"a\n\x7b\x7b 1 is same as() \x7d\x7d", "", none⟩

/-- It is parsed, and rendering stops on the line where it stands. -/
theorem lines_convert_second :
    ∃ t error, (Template.parse Dialect.core bareTestBelow).result = .ok t ∧
      (convert Dialect.core bareTestBelow).result = .error error ∧ error.line = 2 ∧
      Line bareTestBelow.text.toList error.line ∧ ¬ Line bareTestBelow.text.toList 3 ∧
      (∀ m, t.Module m → m.Lined (Line bareTestBelow.text.toList)) ∧
        ∀ m, (Dialect.core.runStages t).Module m → m.Lined (Line bareTestBelow.text.toList) := by
  have hparsed : (Template.parse Dialect.core bareTestBelow).result.toOption.any
      (fun _ => true) = true := by
    rw [Template.parse, Dialect.tokenize, Lexer.tokenize, Pattern.orderSymbols_eq]
    decide +kernel
  have hconvert : (convert Dialect.core bareTestBelow).result =
      .error (.missingArgument "same as" 1 2) := by
    simp only [convert, Template.convert, Dialect.runStages, Dialect.stages_eq, Template.parse,
      Dialect.tokenize, Lexer.tokenize, Pattern.orderSymbols_eq]
    decide +kernel
  obtain ⟨t, hresult, -⟩ := eq_ok_of_any hparsed
  obtain ⟨herrors, htemplates⟩ := lines_convert Dialect.core bareTestBelow
  exact ⟨t, _, hresult, hconvert, rfl, herrors _ hconvert, by unfold Line; decide,
    htemplates t hresult⟩

end TwigToLatte
