import TwigToLatte.Dialect.Core
import TwigToLatte.Proofs.Lexer.Symbols
import TwigToLatte.Proofs.Pass.Escape

/-!
# Tests for the existence of attributes

An attribute access that is the operand of a test for existence is written as a call of `isset`. The
call is closed before the arguments of the access, not after them.

* `expression_access` — an access is the way to the attribute, and then the arguments.
* `expression_access_defined` — the same access under the test.
* `isset_access_eq_iff` — **the call of `isset` is around the whole access if and only if there are no
  arguments, or the text does not get that far**.
* `isset_access_arguments` — an access whose arguments are left outside.
-/

namespace TwigToLatte.Latte

variable (scope : Scope) (object key : Expr) (list : List Expr) (call : CallStyle) (line : Nat)
  (topmost : Bool)

/-- The way to an attribute, without arguments. -/
def accessPath : Rendered := expression scope ⟨.access object key [] .any false, line, topmost⟩

/-- The arguments of an access, if it is a call or has any. -/
def accessArguments : Rendered :=
  if call == .method || !list.isEmpty then (expressions scope list).parenthesize else ""

theorem expression_access :
    expression scope ⟨.access object key list call false, line, topmost⟩ =
      accessPath scope object key line topmost ++ accessArguments scope list call := by
  have hbare : ∀ path : Rendered, path ++ accessArguments scope [] .any = path :=
    Rendered.append_empty
  exact congrArg (· ++ accessArguments scope list call) (hbare _).symm

/-- The call of `isset` is around the way to the attribute. -/
theorem expression_access_defined (hcall : call ≠ .method) :
    expression scope ⟨.access object key list call true, line, topmost⟩ =
      ("isset(" : Rendered) ++ accessPath scope object key line topmost ++ (")" : Rendered) ++
        accessArguments scope list call := by
  have hbare : ∀ path : Rendered, path ++ accessArguments scope [] .any = path :=
    Rendered.append_empty
  have hmarked : (true && call == CallStyle.method) = false := by simpa using hcall
  refine (if_neg (Bool.eq_false_iff.mp hmarked)).trans ((if_pos rfl).trans ?_)
  exact congrArg (fun path => ("isset(" : Rendered) ++ path ++ (")" : Rendered) ++
    accessArguments scope list call) (hbare _).symm

theorem begins_accessArguments (h : list ≠ []) : (accessArguments scope list call).Begins '(' := by
  have hempty : list.isEmpty = false := by simpa using h
  have hopen : Rendered.Begins '(' ("(" : Rendered) := by
    show "(".toList.head? = _
    decide
  rw [accessArguments, hempty, Bool.not_false, Bool.or_true, if_pos rfl]
  exact (hopen.append _).append _

variable {call}

/-- With arguments, a parenthesis closes the call of `isset` where the access opens its own. -/
theorem eq_nil_of_isset_eq {path : Rendered} (hpath : path.error = none)
    (h : ("isset(" : Rendered) ++ path ++ (")" : Rendered) ++ accessArguments scope list call =
      ("isset(" : Rendered) ++ (path ++ accessArguments scope list call) ++ (")" : Rendered)) :
    list = [] := by
  by_contra hlist
  have hopen := (begins_accessArguments scope list call hlist).append (")" : Rendered)
  have hclose : ((")" : Rendered) ++ accessArguments scope list call).Begins ')' := by
    refine Rendered.Begins.append ?_ _
    show ")".toList.head? = _
    decide
  have hisset : ∀ r : Rendered, ("isset(" : Rendered) ++ r = ⟨"isset(" ++ r.text, r.error⟩ :=
    Rendered.append_eq rfl
  simp only [Rendered.append_assoc] at h
  rw [hisset, hisset, Rendered.append_eq hpath, Rendered.append_eq hpath] at h
  have htext := congrArg (fun r : Rendered => r.text.toList) h
  simp only [String.toList_append, List.append_cancel_left_eq] at htext
  rw [Rendered.Begins, htext, hopen] at hclose
  cases hclose

/-- **When the call of `isset` is around the access.** Under a test for existence a method call is
written as `true`. Any other access is written as a call of `isset` around the way to the attribute, and
the arguments after it; that is the call around the access as it is written without the test exactly if
there are no arguments, or if the text ends with an error before they come. -/
theorem isset_access_eq_iff (call : CallStyle) :
    (call = .method →
      expression scope ⟨.access object key list call true, line, topmost⟩ = ("true" : Rendered)) ∧
    (call ≠ .method →
      expression scope ⟨.access object key list call true, line, topmost⟩ =
        ("isset(" : Rendered) ++ accessPath scope object key line topmost ++ (")" : Rendered) ++
          accessArguments scope list call ∧
      expression scope ⟨.access object key list call false, line, topmost⟩ =
        accessPath scope object key line topmost ++ accessArguments scope list call ∧
      (expression scope ⟨.access object key list call true, line, topmost⟩ =
        ("isset(" : Rendered) ++
          expression scope ⟨.access object key list call false, line, topmost⟩ ++ (")" : Rendered) ↔
        list = [] ∨ (accessPath scope object key line topmost).error ≠ none)) := by
  refine ⟨?_, fun hcall => ⟨expression_access_defined scope object key list call line topmost hcall,
    expression_access scope object key list call line topmost, ?_⟩⟩
  · rintro rfl
    rfl
  · rw [expression_access_defined scope object key list call line topmost hcall, expression_access]
    generalize accessPath scope object key line topmost = path
    constructor
    · intro h
      by_cases hpath : path.error = none
      · exact .inl (eq_nil_of_isset_eq scope list hpath h)
      · exact .inr hpath
    · rintro (rfl | hpath)
      · have hnone : accessArguments scope [] call = ("" : Rendered) := by
          cases call with
          | method => exact absurd rfl hcall
          | _ => rfl
        rw [hnone, Rendered.append_empty, Rendered.append_empty]
      · have hstart : (("isset(" : Rendered) ++ path).error ≠ none := by
          rwa [Rendered.append_eq rfl]
        rw [Rendered.append_of_error hpath, Rendered.append_of_error hstart,
          Rendered.append_of_error hstart]

/-- The access `a.b`. -/
theorem isset_access_eq_iff_name :
    expression ⟨{}, "", []⟩ ⟨.access (.name "a" 1) (.string "b" 1) [] .any true, 1, false⟩ =
      ("isset(" : Rendered) ++
        expression ⟨{}, "", []⟩ ⟨.access (.name "a" 1) (.string "b" 1) [] .any false, 1, false⟩ ++
          (")" : Rendered) :=
  ((isset_access_eq_iff ⟨{}, "", []⟩ (.name "a" 1) (.string "b" 1) [] 1 false .any).2
    (by decide)).2.2.mpr (.inl rfl)

/-- A test for an attribute whose name and arguments are computed. -/
def definedAttribute : Source :=
  ⟨"\x7b\x7b attribute(a, 'b', [1]) is defined \x7d\x7d", "", none⟩

/-- The argument stays outside of the call of `isset`. -/
theorem isset_access_arguments :
    (convert Dialect.core definedAttribute).result =
      .ok ⟨"\x7b=isset($a->b)(1)\x7d", #[(1, 1)]⟩ := by
  simp only [convert, Template.convert, Dialect.runStages, Dialect.stages_eq, Template.parse,
    Dialect.tokenize, Lexer.tokenize, Pattern.orderSymbols_eq]
  decide +kernel

end TwigToLatte.Latte
