import TwigToLatte.Proofs.Expr.Calls
import TwigToLatte.Proofs.Latte.Capture

/-!
# Texts that are made alike

A text is put together from the texts of parts, and stops at a part that has no text of its own. A
relation between texts that respects how they are put together holds between the texts of an
expression in two scopes that name things alike.

* `Scope.Agrees` — scopes that give filters and functions the same names, and bind the same
  variables.
* `Expr.unwritable?` — why a single expression has no text, whatever its parts are.
* `Rendered.Respects` — a relation that respects how texts are put together.
* `related_expression` — **such a relation holds between the texts of an expression**.
* `related_loopHead`, `related_inclusionHead`, `related_macroHead` and others — the same of tags.
-/

namespace TwigToLatte

open List

open Latte

/-- Why an expression has no text of its own. -/
def Expr.unwritable? (e : Expr) : Option RenderError :=
  match e.kind with
  | .binary op _ _ =>
    if binaryForm op = .unsupported then some (.fault ⟨.bitwiseOr, e.line⟩) else none
  | .test _ name kind [] =>
    if kind.needsArgument then some (.missingArgument name 1 e.line) else none
  | _ => none

namespace Latte

/-- The expression is written, or the reason why not is one of the given errors. -/
def Excused (C : RenderError → Prop) (e : Expr) : Prop :=
  ∀ error, e.unwritable? = some error → C error

/-- The scopes name filters and functions alike and bind the same variables. -/
structure Scope.Agrees (scope scope' : Scope) : Prop where
  filters : ∀ name, scope.dialect.latteFilter name = scope'.dialect.latteFilter name
  functions : ∀ name, scope.dialect.latteFunction name = scope'.dialect.latteFunction name
  template : scope.template = scope'.template
  bound : scope.bound = scope'.bound

namespace Scope.Agrees

variable {scope scope' : Scope}

theorem refl (scope : Scope) : scope.Agrees scope := ⟨fun _ => rfl, fun _ => rfl, rfl, rfl⟩

theorem bind (h : scope.Agrees scope') (key : Option String) (value : String) :
    (scope.bind key value).Agrees (scope'.bind key value) :=
  { h with bound := congrArg (· ++ key.toList ++ [value]) h.bound }

theorem functionName (h : scope.Agrees scope') (name : String) (defined : Bool) :
    functionName scope.dialect name defined = functionName scope'.dialect name defined := by
  rw [Latte.functionName, Latte.functionName, h.functions]

theorem testFunction (h : scope.Agrees scope') (name : String) :
    testFunction scope.dialect name = testFunction scope'.dialect name := by
  rw [Latte.testFunction, Latte.testFunction, h.functions]

end Scope.Agrees

/-- The relation holds between equal texts and between the given errors, and of texts that are put
together alike from parts of which it holds. -/
structure Rendered.Respects (C : RenderError → Prop) (R : Rendered → Rendered → Prop) : Prop where
  text : ∀ text : String, R text text
  fail : ∀ {error : RenderError}, C error → R (.fail error) (.fail error)
  append : ∀ {a a' b b' : Rendered}, R a a' → R b b' → R (a ++ b) (a' ++ b')
  map : ∀ {a a' : Rendered}, R a a' → ∀ f, R (a.map f) (a'.map f)

/-- The relation respects how texts are put together, and the scopes agree. -/
structure Corresponds (C : RenderError → Prop) (R : Rendered → Rendered → Prop)
    (scope scope' : Scope) : Prop extends Rendered.Respects C R, scope.Agrees scope'

section

variable {C : RenderError → Prop} {R : Rendered → Rendered → Prop}

theorem related_ite {p : Prop} [Decidable p] {a a' b b' : Rendered} (ha : R a a') (hb : R b b') :
    R (if p then a else b) (if p then a' else b') := by
  by_cases hp : p
  · rwa [if_pos hp, if_pos hp]
  · rwa [if_neg hp, if_neg hp]

namespace Rendered.Respects

variable (hR : Respects C R) {a a' : Rendered}

include hR

theorem after (h : R a a') (text : String) : R (text ++ a) (text ++ a') := hR.append (hR.text _) h

theorem before (h : R a a') (text : String) : R (a ++ text) (a' ++ text) := hR.append h (hR.text _)

theorem parenthesize (h : R a a') : R a.parenthesize a'.parenthesize := hR.before (hR.after h _) _

theorem groupUnless (h : R a a') (topmost : Bool) :
    R (groupUnless topmost a) (groupUnless topmost a') :=
  related_ite h (hR.parenthesize h)

end Rendered.Respects

variable {α : Type} {f f' : α → Rendered} {list : List α}

theorem related_foldl {join : Rendered → Rendered → Rendered} {start start' : Rendered}
    (hjoin : ∀ {a a' b b' : Rendered}, R a a' → R b b' → R (join a b) (join a' b'))
    (hstart : R start start') (hlist : ∀ x ∈ list, R (f x) (f' x)) :
    R ((list.map f).foldl join start) ((list.map f').foldl join start') := by
  induction list generalizing start start' with
  | nil => exact hstart
  | cons x rest ih =>
    rw [forall_mem_cons] at hlist
    exact ih (hjoin hstart hlist.1) hlist.2

theorem Rendered.Respects.commaSeparated (hR : Respects C R) (hlist : ∀ x ∈ list, R (f x) (f' x)) :
    R (Latte.commaSeparated (list.map f)) (Latte.commaSeparated (list.map f')) := by
  cases list with
  | nil => exact hR.text _
  | cons first rest =>
    rw [forall_mem_cons] at hlist
    exact related_foldl (fun ha hb => hR.append (hR.before ha _) hb) hlist.1 hlist.2

/-! ## Expressions -/

variable {scope scope' : Scope} (hR : Corresponds C R scope scope')

include hR

mutual

/-- All three ways to write an expression. -/
theorem related_forms : ∀ e : Expr, e.All (Excused C) →
    R (expression scope e) (expression scope' e) ∧
      R (expressionAlone scope e) (expressionAlone scope' e) ∧
      R (operand scope e) (operand scope' e)
  | ⟨kind, line, topmost⟩, h => by
    have hkind := fun topmost =>
      related_expressionKind line topmost kind (Expr.all_iff.mp h).1 h.kind_parts
    exact ⟨hkind topmost, hkind true, related_ite (hR.parenthesize (hkind false)) (hkind topmost)⟩

theorem related_expressionKind (line : Nat) (topmost : Bool) : ∀ kind : Expr.Kind,
    Excused C ⟨kind, line, topmost⟩ → (∀ x ∈ kind.parts, Excused C x) →
      R (expressionKind scope kind line topmost) (expressionKind scope' kind line topmost)
  | .constant _, _, _ | .target _, _, _ | .parent _ _, _, _ | .applyTarget, _, _ => hR.text _
  | .name name defined, _, _ => by
    rw [expressionKind, expressionKind, hR.bound]
    exact hR.text _
  | .array items, _, h => hR.before (hR.after (related_elements items h) _) _
  | .unary _ e, _, h => hR.after (related_forms e h).2.2 _
  | .binary op left right, hself, h => by
    obtain ⟨hl, hr⟩ := forall_mem_append.mp h
    have hleft := (related_forms left hl).1
    have hright := (related_forms right hr).1
    have hleft' := (related_forms left hl).2.2
    have hright' := (related_forms right hr).2.2
    rw [expressionKind, expressionKind]
    cases hform : binaryForm op with
    | infixed symbol => exact hR.groupUnless (hR.append (hR.before hleft' _) hright') _
    | call function => exact hR.after (hR.parenthesize (hR.append (hR.before hleft _) hright)) _
    | callSwapped function =>
      exact hR.after (hR.parenthesize (hR.append (hR.before hright _) hleft)) _
    | notContained => exact hR.before (hR.append (hR.before (hR.after hleft _) _) hright) _
    | floor => exact hR.after (hR.parenthesize (hR.append (hR.before hleft' _) hright')) _
    | unsupported => exact hR.fail (hself _ (if_pos hform))
  | .conditional test yes no, _, h => by
    obtain ⟨h, hn⟩ := forall_mem_append.mp h
    obtain ⟨ht, hy⟩ := forall_mem_append.mp h
    have htest := hR.before (related_forms test ht).2.2 " ? "
    refine hR.append (hR.append htest (related_forms yes hy).2.2) ?_
    exact related_ite (hR.text _) (hR.after (related_forms no hn).2.2 _)
  | .access object key list call defined, _, h => by
    obtain ⟨h, hl⟩ := forall_mem_append.mp h
    obtain ⟨ho, hk⟩ := forall_mem_append.mp h
    have hobject := (related_forms object ho).2.2
    have hkey := (related_forms key hk).1
    have hpath : R (operand scope object ++ (match plainKey? key with
          | some way => way
          | none => "->\x7b" ++ expression scope key ++ "\x7d" : Rendered))
        (operand scope' object ++ (match plainKey? key with
          | some way => way
          | none => "->\x7b" ++ expression scope' key ++ "\x7d" : Rendered)) := by
      refine hR.append hobject ?_
      cases plainKey? key with
      | some way => exact hR.text _
      | none => exact hR.before (hR.after hkey _) _
    have hlist := hR.parenthesize (related_expressions list hl)
    have hparameters : ∀ p : Bool, R (if p then (expressions scope list).parenthesize else "")
        (if p then (expressions scope' list).parenthesize else "") := fun _ =>
      related_ite hlist (hR.text _)
    exact related_ite (hR.text _) (related_ite
      (hR.append (hR.before (hR.after hpath _) _) (hparameters _))
      (hR.append hpath (hparameters _)))
  | .macroCall _ _ list defined, _, h => by
    have hlist := related_moreArguments list (forall_mem_append.mp h).2
    exact related_ite (hR.text _) (hR.before (hR.after hlist _) _)
  | .filter e name list, _, h => by
    obtain ⟨he, hl⟩ := forall_mem_append.mp h
    have hcall := related_filterCall name list hl
    exact related_ite (hR.append (related_forms e he).2.1 hcall)
      (hR.parenthesize (hR.append (related_forms e he).2.2 hcall))
  | .function name kind list defined, _, h => by
    have hinclusion := related_inclusionArguments list h
    have hlist := related_arguments list h
    cases kind with
    | inclusion => exact hR.before (hR.after hinclusion _) _
    | generic =>
      rw [expressionKind, expressionKind, hR.functionName]
      exact hR.after (hR.parenthesize hlist) _
  | .test e name kind list, hself, h => by
    obtain ⟨he, hl⟩ := forall_mem_append.mp h
    have hexpression := (related_forms e he).1
    have hoperand := (related_forms e he).2.2
    match kind, list with
    | .divisibleBy, [] | .sameAs, [] | .constant, [] => exact hR.fail (hself _ rfl)
    | .defined, _ => exact hexpression
    | .null, _ | .even, _ | .odd, _ => exact hR.before hoperand _
    | .divisibleBy, ⟨_, divisor⟩ :: _ =>
      have hdivisor := (related_forms divisor (forall_mem_append.mp hl).1).2.2
      exact hR.before (hR.append (hR.before hoperand _) hdivisor) _
    | .sameAs, ⟨_, other⟩ :: _ =>
      have hother := (related_forms other (forall_mem_append.mp hl).1).2.2
      exact hR.append (hR.before hoperand _) hother
    | .constant, ⟨_, constant⟩ :: rest =>
      have hclass := related_classOf rest (forall_mem_append.mp hl).2
      have hconstant := (related_forms constant (forall_mem_append.mp hl).1).1
      exact hR.append (hR.before (hR.append (hR.after hclass _) hconstant) _) hoperand
    | .generic, list =>
      have hlist := related_moreArguments list hl
      rw [expressionKind, expressionKind, hR.testFunction]
      exact hR.after (hR.parenthesize (hR.append hexpression hlist)) _
  | .arrow _ body, _, h => hR.after (related_forms body h).1 _
  | .blockCall name template defined _, _, h => by
    obtain ⟨hn, ht⟩ := forall_mem_append.mp h
    have hname := (related_forms name hn).1
    have htemplate := related_fromTemplate template ht
    unfold expressionKind
    cases defined <;> cases name.string?
    · exact hR.before (hR.append (hR.after hname _) htemplate) _
    · exact hR.before (hR.after htemplate _) _
    · exact hR.after hname _
    · exact hR.text _

theorem related_filterCall (name : String) : ∀ list : List (Argument Expr),
    (∀ x ∈ argumentParts list, Excused C x) →
      R (filterCall scope name list) (filterCall scope' name list)
  | [], _ => by
    rw [filterCall, filterCall, hR.filters]
    exact hR.text _
  | ⟨argument, value⟩ :: rest, h => by
    obtain ⟨hv, hr⟩ := forall_mem_append.mp h
    rw [filterCall, filterCall, hR.filters]
    exact hR.append (hR.after (related_argument ⟨argument, value⟩ hv) _)
      (related_moreArguments rest hr)

theorem related_inclusionArguments : ∀ list : List (Argument Expr),
    (∀ x ∈ argumentParts list, Excused C x) →
      R (inclusionArguments scope list) (inclusionArguments scope' list)
  | [], _ => hR.text _
  | ⟨_, template⟩ :: rest, h => by
    obtain ⟨ht, hr⟩ := forall_mem_append.mp h
    exact hR.append (hR.map (related_forms template ht).1 _) (related_moreArguments rest hr)

theorem related_classOf : ∀ list : List (Argument Expr),
    (∀ x ∈ argumentParts list, Excused C x) → R (classOf scope list) (classOf scope' list)
  | [], _ => hR.text _
  | ⟨_, object⟩ :: _, h =>
    hR.before (hR.after (related_forms object (forall_mem_append.mp h).1).1 _) _

theorem related_fromTemplate : ∀ e : Option Expr,
    (∀ x ∈ optionalExprParts e, Excused C x) → R (fromTemplate scope e) (fromTemplate scope' e)
  | none, _ => hR.text _
  | some template, h => hR.after (hR.map (related_forms template h).1 _) _

theorem related_argument : ∀ a : Argument Expr, a.value.All (Excused C) →
    R (argument scope a) (argument scope' a)
  | ⟨_, value⟩, h => hR.after (related_forms value h).1 _

theorem related_moreArguments : ∀ list : List (Argument Expr),
    (∀ x ∈ argumentParts list, Excused C x) →
      R (moreArguments scope list) (moreArguments scope' list)
  | [], _ => hR.text _
  | ⟨name, value⟩ :: rest, h => by
    obtain ⟨hv, hr⟩ := forall_mem_append.mp h
    exact hR.append (hR.after (related_argument ⟨name, value⟩ hv) _) (related_moreArguments rest hr)

theorem related_arguments : ∀ list : List (Argument Expr),
    (∀ x ∈ argumentParts list, Excused C x) → R (arguments scope list) (arguments scope' list)
  | [], _ => hR.text _
  | ⟨name, value⟩ :: rest, h => by
    obtain ⟨hv, hr⟩ := forall_mem_append.mp h
    exact hR.append (related_argument ⟨name, value⟩ hv) (related_moreArguments rest hr)

theorem related_moreExpressions : ∀ list : List Expr, (∀ x ∈ listParts list, Excused C x) →
    R (moreExpressions scope list) (moreExpressions scope' list)
  | [], _ => hR.text _
  | e :: rest, h => by
    obtain ⟨he, hr⟩ := forall_mem_append.mp h
    exact hR.append (hR.after (related_forms e he).1 _) (related_moreExpressions rest hr)

theorem related_expressions : ∀ list : List Expr, (∀ x ∈ listParts list, Excused C x) →
    R (expressions scope list) (expressions scope' list)
  | [], _ => hR.text _
  | e :: rest, h => by
    obtain ⟨he, hr⟩ := forall_mem_append.mp h
    exact hR.append (related_forms e he).1 (related_moreExpressions rest hr)

theorem related_elements : ∀ items : List (Expr × Expr), (∀ x ∈ itemParts items, Excused C x) →
    R (elements scope items) (elements scope' items)
  | [], _ => hR.text _
  | (key, value) :: rest, h => by
    obtain ⟨hi, hr⟩ := forall_mem_append.mp h
    exact hR.append (related_element 0 (key, value) hi) (related_moreElements _ rest hr)

theorem related_moreElements : ∀ (count : Nat) (items : List (Expr × Expr)),
    (∀ x ∈ itemParts items, Excused C x) →
      R (moreElements scope count items) (moreElements scope' count items)
  | _, [], _ => hR.text _
  | count, (key, value) :: rest, h => by
    obtain ⟨hi, hr⟩ := forall_mem_append.mp h
    exact hR.append (hR.after (related_element count (key, value) hi) _)
      (related_moreElements _ rest hr)

theorem related_element (count : Nat) : ∀ item : Expr × Expr,
    (∀ x ∈ item.1.parts ++ item.2.parts, Excused C x) →
      R (element scope count item) (element scope' count item)
  | (key, value), h => by
    obtain ⟨hk, hv⟩ := forall_mem_append.mp h
    have hvalue := (related_forms value hv).1
    exact related_ite hvalue (hR.append (hR.before (related_forms key hk).1 _) hvalue)

end

theorem related_expression (e : Expr) (h : e.All (Excused C)) :
    R (expression scope e) (expression scope' e) := (related_forms hR e h).1

theorem related_expressionAlone (e : Expr) (h : e.All (Excused C)) :
    R (expressionAlone scope e) (expressionAlone scope' e) := (related_forms hR e h).2.1

/-! ## Tags -/

theorem related_fileName {e : Expr} (h : e.All (Excused C)) :
    R (fileName scope e) (fileName scope' e) :=
  hR.map (related_expression hR e h) _

theorem related_loopHead (key : Option String) (value : String) {sequence : Expr}
    (h : sequence.All (Excused C)) :
    R (loopHead scope key value sequence) (loopHead scope' key value sequence) :=
  hR.before (hR.after (related_expression hR sequence h) _) _

theorem related_assignTag {targets : List (String × Expr)}
    (h : ∀ target ∈ targets, target.2.All (Excused C)) :
    R (assignTag scope targets) (assignTag scope' targets) :=
  hR.before (hR.after (hR.commaSeparated fun target htarget =>
    hR.after (related_expression hR target.2 (h target htarget)) _) _) _

theorem related_templateTag (tag : String) {template : Expr} (rest rest' : Rendered)
    (h : template.All (Excused C)) (hrest : R rest rest') :
    R (templateTag scope tag template rest) (templateTag scope' tag template rest') :=
  hR.append (hR.after (related_fileName hR h) _) hrest

theorem related_inclusionHead (tag : String) {included : Inclusion}
    (h : ∀ e ∈ included.roots, e.All (Excused C)) :
    R (inclusionHead scope tag included) (inclusionHead scope' tag included) := by
  rw [Inclusion.roots, forall_mem_cons] at h
  refine related_templateTag hR tag _ _ h.1 (hR.before ?_ _)
  cases hbindings : included.bindings with
  | none => exact hR.text _
  | some e =>
    rw [hbindings] at h
    have he := forall_mem_singleton.mp h.2
    have hexpression := hR.after (related_expression hR e he) ", ..."
    obtain ⟨kind, line, topmost⟩ := e
    cases kind with
    | array items => exact hR.after (related_elements hR items he.kind_parts) _
    | _ => exact hexpression

theorem related_scopeVariable {item : Expr × Expr}
    (h : item.1.All (Excused C) ∧ item.2.All (Excused C)) :
    R (scopeVariable scope item) (scopeVariable scope' item) := by
  refine hR.append (hR.before ?_ _) (related_expression hR item.2 h.2)
  cases item.1.string? with
  | some name => exact hR.text _
  | none => exact related_expression hR item.1 h.1

theorem related_scopeTag {items : List (Expr × Expr)}
    (h : ∀ item ∈ items, item.1.All (Excused C) ∧ item.2.All (Excused C)) :
    R (scopeTag scope items) (scopeTag scope' items) :=
  hR.before (hR.after (hR.commaSeparated fun item hitem =>
    related_scopeVariable hR (h item hitem)) _) _

theorem related_cacheOption (name : String) {e : Option Expr}
    (h : ∀ x ∈ e.toList, x.All (Excused C)) :
    R (cacheOption scope name e) (cacheOption scope' name e) := by
  cases e with
  | none => exact hR.text _
  | some e => exact hR.after (related_expression hR e (forall_mem_singleton.mp h)) _

theorem related_deprecation {message : Expr} (h : message.All (Excused C)) (line : Nat) :
    R (deprecation scope message line) (deprecation scope' message line) := by
  rw [deprecation, deprecation, hR.template]
  exact hR.before (hR.before (hR.before (hR.after (related_expression hR message h) _) _) _) _

/-- An expression beside the statements of a template, as the default of a macro's parameter, is
excused, and so is the name of the parameter. -/
structure ExcusedBeside (C : RenderError → Prop) (e : Expr) : Prop where
  all : e.All (Excused C)
  reserved : ∀ name, C (.fault ⟨.reservedArgument name, e.line⟩)

theorem related_macroHead (name : String) {params : List (String × Expr)}
    (h : ∀ param ∈ params, ExcusedBeside C param.2) :
    R (macroHead scope name params) (macroHead scope' name params) := by
  unfold macroHead
  cases hfind : params.find? (·.1 == "varargs") with
  | some param => exact hR.fail ((h param (mem_of_find?_eq_some hfind)).reserved name)
  | none =>
    refine hR.before (related_foldl hR.append (hR.text _) fun param hparam => ?_) _
    have hdefault := related_expression hR param.2 (h param hparam).all
    exact hR.after (related_ite (hR.text _) (hR.after hdefault _)) _

end

end Latte

end TwigToLatte
