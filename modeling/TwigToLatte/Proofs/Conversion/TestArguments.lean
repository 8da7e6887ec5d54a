import TwigToLatte.Conversion
import TwigToLatte.Proofs.Expr.TestArguments
import TwigToLatte.Proofs.Latte.Agreement
import TwigToLatte.Proofs.Latte.Causes
import TwigToLatte.Proofs.Lexer.Symbols
import TwigToLatte.Proofs.Pass.Steps
import TwigToLatte.Proofs.Template.Balance
import TwigToLatte.Proofs.Template.Origin

/-!
# Tests that lack an argument

A test that is read without the argument it needs has no text in Latte, so it stops the conversion.

* `Expr.Supplied` — the expression is no test that lacks its argument.
* `forall_supplied_rewritten` — the passes of a conversion make no such test.
* `test_arguments_parse` — **the tests that lack an argument are those written without one, and a
  template in which none is written so is never stopped by one**.
-/

namespace TwigToLatte

open List

/-- If the expression is a test that needs an argument, it has one. -/
def Expr.Supplied (e : Expr) : Prop :=
  ∀ operand name kind list, e.kind = .test operand name kind list → kind.needsArgument = true →
    list ≠ []

variable {e : Expr} {t : Template} {dialect : Dialect} {error : Latte.RenderError}
  {tokens : Array Token}

theorem Expr.Supplied.of_isTest (h : e.isTest = false) : e.Supplied := by
  intro operand name kind list hkind
  rw [Expr.isTest, hkind] at h
  cases h

instance : DecidablePred Expr.Supplied
  | ⟨.test _ _ kind list, _, _⟩ =>
    decidable_of_iff (kind.needsArgument = true → list.isEmpty = false) <| by
      rw [isEmpty_eq_false_iff]
      exact ⟨fun h _ _ _ _ hkind hneeds => by cases hkind; exact h hneeds,
        fun h => h _ _ _ _ rfl⟩
  | ⟨.constant _, _, _⟩ | ⟨.name _ _, _, _⟩ | ⟨.target _, _, _⟩ | ⟨.array _, _, _⟩
  | ⟨.unary _ _, _, _⟩ | ⟨.binary _ _ _, _, _⟩ | ⟨.conditional _ _ _, _, _⟩
  | ⟨.access _ _ _ _ _, _, _⟩ | ⟨.macroCall _ _ _ _, _, _⟩ | ⟨.filter _ _ _, _, _⟩
  | ⟨.function _ _ _ _, _, _⟩ | ⟨.arrow _ _, _, _⟩ | ⟨.blockCall _ _ _ _, _, _⟩
  | ⟨.parent _ _, _, _⟩ | ⟨.applyTarget, _, _⟩ => .isTrue (.of_isTest rfl)

/-! ## Passes -/

/-- Treating the parts of a test leaves it its arguments. -/
theorem Pass.supplied_exprKind (q : Pass Unit) {kind : Expr.Kind} {line : Nat} {topmost : Bool}
    (h : Expr.Supplied ⟨kind, line, topmost⟩) :
    Expr.Supplied ⟨(q.exprKind kind ()).1, line, topmost⟩ := by
  cases kind with
  | test operand name kind list =>
    rintro _ _ _ _ ⟨⟩ hneeds
    cases list with
    | nil => exact absurd rfl (h operand name kind [] rfl hneeds)
    | cons argument rest => exact cons_ne_nil _ _
  | _ => exact .of_isTest rfl

theorem stable_supplied : Expr.Stable Expr.Supplied where
  inside q _ _ _ := q.supplied_exprKind
  marked _ h := h
  made _ _ htest _ _ := .of_isTest htest

/-- The passes of a conversion make no test without its argument. -/
theorem forall_supplied_rewritten (rawFilter : Bool)
    (h : ∀ m, t.Module m → ∀ e ∈ m.exprs, e.Supplied) :
    ∀ m, (t.rewritten rawFilter).Module m → ∀ e ∈ m.exprs, e.Supplied := by
  have hplain : ∀ m, t.plain.Module m → ∀ e ∈ m.exprs, e.Supplied := by
    intro m hm
    obtain ⟨m₀, hm₀, rfl⟩ := Template.module_plain hm
    rw [Template.exprs, Template.roots_plain]
    exact h m₀ hm₀
  have hkept : ∀ {q : Pass Unit} {t : Template}, q.Rewords →
      (∀ m, t.Module m → ∀ e ∈ m.exprs, e.Supplied) →
        ∀ m, (q.onTemplate t).Module m → ∀ e ∈ m.exprs, e.Supplied := by
    intro q t hq ht m hm
    obtain ⟨m₀, hm₀, rfl⟩ := hq.module_onTemplate hm
    exact (hq.stable stable_supplied).exprs_onTemplate hq.toLocal (ht m₀ hm₀)
  exact hkept rewords_latteIdioms
    (hkept (rewords_simplifyOutput rawFilter) (hkept rewords_replaceSelfCalls hplain))

/-! ## Conversions -/

/-- The error of a test without its argument. -/
def Latte.RenderError.isMissingArgument : Latte.RenderError → Bool
  | .missingArgument .. => true
  | _ => false

/-- Where no test lacks its argument, none stops the rendering. -/
theorem isMissingArgument_of_render {name : String}
    (h : ∀ m, t.Module m → ∀ e ∈ m.exprs, e.Supplied)
    (hrender : Latte.render dialect name t = .error error) : error.isMissingArgument = false := by
  have hexcused : ∀ {e : Expr}, e.Supplied →
      Latte.Excused (fun error => error.isMissingArgument = false) e := by
    intro e he error hunwritable
    unfold Expr.unwritable? at hunwritable
    split at hunwritable
    · split at hunwritable <;> cases hunwritable
      rfl
    · rename_i operand test kind hkind
      split at hunwritable
      · rename_i hneeds
        exact absurd rfl (he _ _ _ _ hkind hneeds)
      · cases hunwritable
    · cases hunwritable
  have hroots : ∀ m, t.Module m → ∀ e ∈ m.roots,
      e.All (Latte.Excused fun error => error.isMissingArgument = false) := fun m hm e he x hx =>
    hexcused (h m hm x (mem_flatMap.mpr ⟨e, he, hx⟩))
  refine Latte.within_render (C := fun error => error.isMissingArgument = false)
    ⟨fun m hm stmt hstmt => ?_, fun m hm e he => ?_⟩ hrender
  · refine ⟨fun e he => hroots m hm e ?_, fun _ _ => rfl⟩
    exact mem_append_left _ (mem_append_left _ (mem_flatMap.mpr ⟨stmt, hstmt, he⟩))
  · refine ⟨hroots m hm e ?_, fun _ => rfl⟩
    rw [Template.roots, List.append_assoc]
    exact mem_append_right _ he

/-- A conversion of what was read fails where rendering does. -/
theorem render_of_convert {source : Source} (h : (Template.parse dialect source).result = .ok t)
    (hconvert : (convert dialect source).result = .error error) :
    Latte.render dialect source.displayName (dialect.runStages t) = .error error := by
  rw [convert, h] at hconvert
  dsimp only at hconvert
  cases hconverted : t.convert dialect source.displayName with
  | ok conversion =>
    rw [hconverted] at hconvert
    cases hconvert
  | error found =>
    rw [hconverted] at hconvert
    cases hconvert
    rw [Template.convert] at hconverted
    cases hrender : Latte.render dialect source.displayName (dialect.runStages t) with
    | ok code =>
      rw [hrender] at hconverted
      cases hconverted
    | error found =>
      rw [hrender] at hconverted
      cases hconverted
      rfl

/-! ## Where tests are written -/

/-- If the expression is a test that needs an argument, then some operator announces it and its name
follows, and it has no argument if and only if none follows the name. -/
def Expr.TestWritten (dialect : Dialect) (tokens : Array Token) (e : Expr) : Prop :=
  ∀ operand name kind list, e.kind = .test operand name kind list → kind.needsArgument = true →
    name ∈ argumentTests ∧ ∃ i j, dialect.isTestOperator (kindAt tokens i) = true ∧
      spelled? tokens (i + 1) name = some j ∧ (list = [] ↔ lacksArgument tokens name j = true)

theorem Expr.TestWritten.of_isTest (h : e.isTest = false) : e.TestWritten dialect tokens := by
  intro operand name kind list hkind
  rw [Expr.isTest, hkind] at h
  cases h

/-- A test is written at the tokens that it is read from. -/
theorem Grammar.admits_testWritten {context : Parse.Context} (hended : context.Ended)
    (htests : context.dialect.tests = Dialect.core.tests) {scope : Scope} (hscope : scope.Plain) :
    Admits context Parse.AnyLine scope (Expr.TestWritten context.dialect context.tokens) where
  line _ := trivial
  ordinary h _ := .of_isTest (Expr.isTest_of_isOrdinary h)
  test := by
    intro depth operand e state after _ hoperator hrun _ _ inner name kind list hkind hneeds
    obtain ⟨hname, j, hspelled, hlacks⟩ :=
      (ensures_testExpression hended htests depth operand).of_ok hrun inner name kind list hkind
        hneeds
    refine ⟨hname, state.cursor, j, ?_, hspelled, hlacks⟩
    rw [Parse.kindAt_eq hended]
    exact hoperator
  parent _ _ _ := .of_isTest rfl
  arrow _ _ := .of_isTest rfl
  imported := by
    intro kind name symbol e hsymbol he
    obtain ⟨holder, line, rfl⟩ := hscope.symbol? hsymbol he
    exact forall_mem_singleton.mpr (.of_isTest rfl)

/-- Where no test is written without its argument, none lacks it. -/
theorem Expr.TestWritten.supplied (h : e.TestWritten dialect tokens)
    (hbare : ∀ i < tokens.size, bareTest dialect tokens i = false) : e.Supplied := by
  intro operand name kind list hkind hneeds hnil
  obtain ⟨hname, i, j, hoperator, hspelled, hlacks⟩ := h operand name kind list hkind hneeds
  have hi : i < tokens.size := lt_size_of_kindAt fun heof => by
    rw [heof] at hoperator
    cases hoperator
  have hfound : bareTest dialect tokens i = true := by
    rw [bareTest, hoperator, Bool.true_and, any_eq_true]
    exact ⟨name, hname, by rw [hspelled]; exact hlacks.mp hnil⟩
  rw [hbare i hi] at hfound
  cases hfound

/-- **The tests that lack an argument are those written without one.** A test of a parsed template
that needs an argument has none if and only if, where the test is written, its list of arguments is
empty or it is `constant` without a list. If no test is written so, then every test that needs an
argument has one, and the conversion is not stopped by a test that lacks it. -/
theorem test_arguments_parse {dialect : Dialect} (htests : dialect.tests = Dialect.core.tests)
    {source : Source} {tokens : Array Token} {t : Template}
    (htokens : Lexer.tokenize source.text dialect.operatorSymbols = .ok tokens)
    (h : (Template.parse dialect source).result = .ok t) :
    (∀ m, t.Module m → ∀ e ∈ m.exprs, e.TestWritten dialect tokens) ∧
      ((∀ i < tokens.size, bareTest dialect tokens i = false) →
        (∀ m, t.Module m → ∀ e ∈ m.exprs, e.Supplied) ∧
          ∀ test number line,
            (convert dialect source).result ≠ .error (.missingArgument test number line)) := by
  have hended : (Parse.Context.mk dialect source.displayName tokens).Ended :=
    (ended_tokenize htokens).1
  have hwritten : ∀ m, t.Module m → ∀ e ∈ m.exprs, e.TestWritten dialect tokens := by
    refine forall_exprs_parse h fun tokens' htokens' scope hscope => ?_
    cases htokens.symm.trans htokens'
    exact Grammar.admits_testWritten hended htests hscope
  refine ⟨hwritten, fun hbare => ?_⟩
  have hsupplied : ∀ m, t.Module m → ∀ e ∈ m.exprs, e.Supplied := fun m hm e he =>
    (hwritten m hm e he).supplied hbare
  refine ⟨hsupplied, fun test number line hconvert => ?_⟩
  have hrender := render_of_convert h hconvert
  rw [Latte.render_runStages] at hrender
  cases isMissingArgument_of_render (forall_supplied_rewritten _ hsupplied) hrender

/-- Each of the three tests with its argument. -/
def suppliedTests : Source :=
  ⟨"\x7b\x7b 1 is divisible by(2) ? 3 is not same as 4 : 5 is constant(6) \x7d\x7d", "", none⟩

theorem test_arguments_parse_supplied :
    ∃ tokens t, Lexer.tokenize suppliedTests.text Dialect.core.operatorSymbols = .ok tokens ∧
      (Template.parse Dialect.core suppliedTests).result = .ok t ∧
      (∀ i < tokens.size, bareTest Dialect.core tokens i = false) ∧
      (t.exprs.filter Expr.isTest).length = 3 ∧
      (∀ m, t.Module m → ∀ e ∈ m.exprs, e.Supplied) ∧
        ∀ test number line, (convert Dialect.core suppliedTests).result ≠
          .error (.missingArgument test number line) := by
  have hbare : (Lexer.tokenize suppliedTests.text Dialect.core.operatorSymbols).toOption.any
      (fun tokens => decide (∀ i < tokens.size, bareTest Dialect.core tokens i = false)) = true := by
    rw [Lexer.tokenize, Pattern.orderSymbols_eq]
    decide +kernel
  have hcount : (Template.parse Dialect.core suppliedTests).result.toOption.any
      (fun t => decide ((t.exprs.filter Expr.isTest).length = 3)) = true := by
    rw [Template.parse, Dialect.tokenize, Lexer.tokenize, Pattern.orderSymbols_eq]
    decide +kernel
  obtain ⟨tokens, htokens, hbare⟩ := eq_ok_of_any hbare
  obtain ⟨t, hresult, hcount⟩ := eq_ok_of_any hcount
  have hbare := of_decide_eq_true hbare
  exact ⟨tokens, t, htokens, hresult, hbare, of_decide_eq_true hcount,
    (test_arguments_parse rfl htokens hresult).2 hbare⟩

/-- A test with an empty list of arguments. -/
def suppliedNothing : Source := ⟨"\x7b\x7b 1 is same as() \x7d\x7d", "", none⟩

/-- An empty list of arguments is taken, and the conversion ends with an internal error. -/
theorem missingArgument_same_as :
    ∃ t, (Template.parse Dialect.core suppliedNothing).result = .ok t ∧ (∃ e ∈ t.exprs, ¬ e.Supplied) ∧
      (convert Dialect.core suppliedNothing).result = .error (.missingArgument "same as" 1 1) := by
  have hlacks : (Template.parse Dialect.core suppliedNothing).result.toOption.any
      (fun t => decide (∃ e ∈ t.exprs, ¬ e.Supplied)) = true := by
    rw [Template.parse, Dialect.tokenize, Lexer.tokenize, Pattern.orderSymbols_eq]
    decide +kernel
  have hconvert : (convert Dialect.core suppliedNothing).result =
      .error (.missingArgument "same as" 1 1) := by
    simp only [convert, Template.convert, Dialect.runStages, Dialect.stages_eq, Template.parse,
      Dialect.tokenize, Lexer.tokenize, Pattern.orderSymbols_eq]
    decide +kernel
  obtain ⟨t, hresult, hlacks⟩ := eq_ok_of_any hlacks
  exact ⟨t, hresult, of_decide_eq_true hlacks, hconvert⟩

end TwigToLatte
