import TwigToLatte.Proofs.Expr.Literals
import TwigToLatte.Proofs.Lexer.Symbols
import TwigToLatte.Proofs.Parse.Ensures
import TwigToLatte.Template.Grammar

/-!
# Literals in templates

A template that prints nothing but a literal.

* `Grammar.template_print` — a template that is one print statement.
* `Template.parse_literal` — **the literal of a constant reads back as an expression that stands for
  the constant**.
-/

namespace TwigToLatte

open List

open Parse

namespace Grammar

variable {context : Context} {state : State} {taken : List Token} {opening closing last : Span}
  {e : Expr}

/-- An operand is all of an expression that no operator follows. -/
theorem expression_operand {token : Token} {rest : List Token}
    (hahead : ahead context state = taken ++ token :: rest) (hcloses : AfterConstant token)
    (h : operand (Rules.upTo (ahead context state).length) context state =
      .ok e (state.skip taken.length)) :
    expression context state = .ok e (state.skip taken.length) := by
  rw [expression, expressionWith, nested, bind_eq_of_ok remaining_eq]
  exact expressionUpTo_operand h (ahead_skip hahead) hcloses 0

theorem template_print (hscope : state.scope = {})
    (hahead : ahead context state = ⟨.varStart, opening⟩ ::
      (taken ++ [⟨.varEnd, closing⟩, ⟨.eof, last⟩]))
    (hprint : expression context (state.skip 1) = .ok e ((state.skip 1).skip taken.length)) :
    ∃ after, template context state =
      .ok ⟨[⟨.print e, opening.line⟩], [], [], none, []⟩ after := by
  have hclose := ahead_skip (ahead_skip_one hahead)
  have hend := ahead_skip_one hclose
  have hrule : printRule context (state.skip 1) =
      .ok (.print e) (((state.skip 1).skip taken.length).skip 1) := by
    rw [printRule, bind_eq_of_ok hprint, expectVarEnd, bind_eq_of_ok (expect_eq hclose rfl rfl)]
    rfl
  have hbody : statements none false context state =
      .ok [⟨.print e, opening.line⟩] (((state.skip 1).skip taken.length).skip 1) := by
    rw [statements, bind_eq_of_ok remaining_eq]
    change statementsRule _ none false context state = _
    rw [statementsRule, loop_eq, hahead, length_cons]
    refine Eq.trans (b := iterate _ _ [⟨.print e, opening.line⟩] context
      (((state.skip 1).skip taken.length).skip 1)) (iterate_inl ?_ _) ?_
    · rw [bind_eq_of_ok (current_eq hahead)]
      dsimp only
      rw [bind_eq_of_ok (next_eq hahead rfl), bind_eq_of_ok hrule]
      rfl
    · rw [iterate_inr]
      rw [bind_eq_of_ok (current_eq hend)]
      rfl
  have hget : getScope context (((state.skip 1).skip taken.length).skip 1) =
      .ok {} (((state.skip 1).skip taken.length).skip 1) := by
    rw [← hscope]
    rfl
  rw [template, bind_eq_of_ok hbody, finishTemplate, bind_eq_of_ok hget]
  exact ⟨_, rfl⟩

/-- The tokens that a literal in a print statement is read as. -/
theorem exists_expression_literal (hcore : context.dialect = Dialect.core) {value : Value}
    (hvalue : value.isReadable = true) (hnot : value.string? ≠ some "not")
    (htaken : taken.map (·.kind) = value.tokens ∨ ∃ word, value = .string word ∧
      Latte.isSymbol word = true ∧ taken.map (·.kind) = [.operator word])
    (hahead : ahead context state = taken ++ [⟨.varEnd, closing⟩, ⟨.eof, last⟩]) :
    ∃ e, expression context state = .ok e (state.skip taken.length) ∧ e.fold? = some value := by
  have hcloses : AfterConstant ⟨.varEnd, closing⟩ := .closing closing
  rcases htaken with htaken | ⟨word, rfl, hword, htaken⟩
  · have hdepth : taken.length ≤ (ahead context state).length + 1 := by
      rw [hahead, length_append]
      omega
    obtain ⟨e, hrun, hfold⟩ := operand_tokens hcore value hvalue hahead htaken hdepth hcloses
    exact ⟨e, expression_operand hahead hcloses hrun, hfold⟩
  · obtain ⟨span, more, rfl, hmore⟩ := exists_span htaken
    rw [map_eq_nil_iff.mp hmore] at hahead ⊢
    rw [Value.isReadable, if_pos hword, Bool.not_eq_true'] at hvalue
    have hrun := operand_word hcore (r := Rules.upTo (ahead context state).length) hword hvalue
      (fun h => hnot (congrArg some h)) hahead hcloses
    exact ⟨_, expression_operand hahead hcloses hrun, Expr.fold?_name _ _⟩

end Grammar

/-- A template that prints one expression, by how the tokens between its delimiters are read. -/
theorem Template.exists_parse_print {source : Source} {tokens : Array Token}
    {kinds : List Token.Kind} {p : Expr → Prop}
    (htokens : Lexer.tokenize source.text Dialect.core.operatorSymbols = .ok tokens)
    (hkinds : tokens.toList.map (·.kind) = .varStart :: (kinds ++ [.varEnd, .eof]))
    (hprint : ∀ {context : Context} {state : State} {taken : List Token} {closing last : Span},
      context.dialect = Dialect.core → taken.map (·.kind) = kinds →
      ahead context state = taken ++ [⟨.varEnd, closing⟩, ⟨.eof, last⟩] →
      ∃ e, Grammar.expression context state = .ok e (state.skip taken.length) ∧ p e) :
    ∃ e line, (Template.parse Dialect.core source).result =
      .ok ⟨[⟨.print e, line⟩], [], [], none, []⟩ ∧ p e := by
  obtain ⟨opening, tail, hopening, htail⟩ := Grammar.exists_span hkinds
  obtain ⟨taken, ends, rfl, htaken, hends⟩ := map_eq_append_iff.mp htail
  obtain ⟨closing, lasts, rfl, hlasts⟩ := Grammar.exists_span hends
  obtain ⟨last, nothing, rfl, hnothing⟩ := Grammar.exists_span hlasts
  rw [map_eq_nil_iff.mp hnothing] at hopening
  have hrun : ∀ template log, ∃ e line after,
      Grammar.template ⟨Dialect.core, template, tokens⟩ { log } =
        .ok ⟨[⟨.print e, line⟩], [], [], none, []⟩ after ∧ p e := by
    intro template log
    have hahead : ahead ⟨Dialect.core, template, tokens⟩ { log } = ⟨.varStart, opening⟩ ::
        (taken ++ [⟨.varEnd, closing⟩, ⟨.eof, last⟩]) := hopening
    obtain ⟨e, hexpression, he⟩ := hprint rfl htaken (ahead_skip_one hahead)
    obtain ⟨after, hafter⟩ := Grammar.template_print rfl hahead hexpression
    exact ⟨e, _, after, hafter, he⟩
  obtain ⟨e, line, after, hafter, he⟩ :=
    hrun source.displayName #[source.tokenizedRecord tokens]
  refine ⟨e, line, ?_, he⟩
  rw [Template.parse, Dialect.tokenize, htokens]
  dsimp only
  rw [hafter]

/-- **Literals read back.** In a print statement, the literal of a constant is read as an expression
that stands for the constant. -/
theorem Template.parse_literal {value : Value} (hvalue : value.isReadable = true)
    (hnot : value.string? ≠ some "not") (name : String) (path : Option String) :
    ∃ e line, (Template.parse Dialect.core
        ⟨"\x7b\x7b " ++ Latte.literal value ++ " \x7d\x7d", name, path⟩).result =
          .ok ⟨[⟨.print e, line⟩], [], [], none, []⟩ ∧ e.fold? = some value := by
  obtain ⟨tokens, kinds, htokens, hkinds, hliteral⟩ := tokenize_literal hvalue
  refine Template.exists_parse_print htokens hkinds fun hcore htaken hahead => ?_
  rw [← htaken] at hliteral
  exact Grammar.exists_expression_literal hcore hvalue hnot hliteral hahead

/-- A value with the hard cases. -/
def nestedConstant : Value :=
  .array [(.int 0, .string "tab\there # 'quoted' \"twice\""), (.int 1, .array [(.int 0, .int (-7)),
    (.int 1, .string "not"), (.int 2, .string "None"), (.int 3, .bool true)]), (.int 2, .null)]

theorem Template.parse_literal_nested :
    nestedConstant.isReadable = true ∧ nestedConstant.string? ≠ some "not" ∧
    ∃ e line, (Template.parse Dialect.core
        ⟨"\x7b\x7b " ++ Latte.literal nestedConstant ++ " \x7d\x7d", "", none⟩).result =
          .ok ⟨[⟨.print e, line⟩], [], [], none, []⟩ ∧ e.fold? = some nestedConstant := by
  have hreadable : nestedConstant.isReadable = true := by decide +kernel
  have hnot : nestedConstant.string? ≠ some "not" := by rintro ⟨⟩
  exact ⟨hreadable, hnot, Template.parse_literal hreadable hnot "" none⟩

/-- The expression of a template that is one print statement. -/
def Template.printed? : Template → Option Expr
  | ⟨[⟨.print e, _⟩], [], [], none, []⟩ => some e
  | _ => none

theorem Template.eq_of_printed? {t : Template} {e : Expr} (h : t.printed? = some e) :
    ∃ line, t = ⟨[⟨.print e, line⟩], [], [], none, []⟩ := by
  unfold printed? at h
  split at h <;> cases h
  exact ⟨_, rfl⟩

def Expr.isNegated (e : Expr) : Bool :=
  match e.kind with
  | .unary .neg _ => true
  | _ => false

theorem Expr.exists_of_isNegated {e : Expr} (h : e.isNegated = true) :
    ∃ operand, e.kind = .unary .neg operand := by
  unfold isNegated at h
  split at h
  · exact ⟨_, ‹_›⟩
  · cases h

/-- Constants that their literals do not stand for: a hyphen is a minus sign, `not` takes an operand,
double quotes allow for interpolations, and the least integer has no positive counterpart. -/
def unreadableConstants : List Value :=
  [.string "main-menu", .string "not", .string "\n#\x7b", .int Int64.minValue]

/-- **Literals that do not read back**, and those of negative integers, which are no constants. -/
theorem Template.parse_literal_unreadable :
    (∃ e operand line, (Template.parse Dialect.core
        ⟨"\x7b\x7b " ++ Latte.literal (.int (-5)) ++ " \x7d\x7d", "", none⟩).result =
          .ok ⟨[⟨.print e, line⟩], [], [], none, []⟩ ∧ e.kind = .unary .neg operand) ∧
    ∀ value ∈ unreadableConstants, ¬ ∃ e line, (Template.parse Dialect.core
        ⟨"\x7b\x7b " ++ Latte.literal value ++ " \x7d\x7d", "", none⟩).result =
          .ok ⟨[⟨.print e, line⟩], [], [], none, []⟩ ∧ e.fold? = some value := by
  have hnegative : (Template.parse Dialect.core
      ⟨"\x7b\x7b " ++ Latte.literal (.int (-5)) ++ " \x7d\x7d", "", none⟩).result.toOption.any
        (fun t => t.printed?.any Expr.isNegated) = true := by
    simp only [Template.parse, Dialect.tokenize, Lexer.tokenize, Pattern.orderSymbols_eq]
    decide +kernel
  have hrest : unreadableConstants.all (fun value => !(Template.parse Dialect.core
      ⟨"\x7b\x7b " ++ Latte.literal value ++ " \x7d\x7d", "", none⟩).result.toOption.any
        fun t => t.printed?.any (·.fold?.isSome)) = true := by
    simp only [Template.parse, Dialect.tokenize, Lexer.tokenize, Pattern.orderSymbols_eq]
    decide +kernel
  constructor
  · obtain ⟨t, hresult, hprinted⟩ := eq_ok_of_any hnegative
    obtain ⟨e, he, hkind⟩ := (Option.any_eq_true _ _).mp hprinted
    obtain ⟨line, rfl⟩ := Template.eq_of_printed? he
    obtain ⟨operand, hunary⟩ := Expr.exists_of_isNegated hkind
    exact ⟨e, operand, line, hresult, hunary⟩
  · rintro value hvalue ⟨e, line, hresult, hfold⟩
    have hnone := all_eq_true.mp hrest value hvalue
    rw [hresult, Bool.not_eq_true'] at hnone
    have hfold' : e.fold?.isSome = false := hnone
    rw [hfold] at hfold'
    cases hfold'

end TwigToLatte
