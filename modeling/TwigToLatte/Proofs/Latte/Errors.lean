import TwigToLatte.Proofs.Latte.Correspondence

/-!
# Errors of texts

The text of an expression stops at a part that has no text of its own, and the tags that are made of
expressions stop where these do. No text asks for a block.

* `Rendered.Within` — a text stops with none but the given errors.
* `corresponds_within` — **texts stop with none but the errors of their parts**.
* `OfText` — all errors but that of an undefined block; every expression is within them.
-/

namespace TwigToLatte.Latte

/-- The text ends with none but the given errors. -/
def Rendered.Within (C : RenderError → Prop) (r : Rendered) : Prop :=
  ∀ error, r.error = some error → C error

namespace Rendered.Within

variable {C : RenderError → Prop} {a b : Rendered}

theorem text (text : String) : Within C (text : Rendered) := nofun

theorem fail {error : RenderError} (h : C error) : Within C (.fail error) := by
  rintro _ ⟨⟩
  exact h

theorem append (ha : Within C a) (hb : Within C b) : Within C (a ++ b) := by
  show Within C (a.append b)
  unfold Rendered.append
  split
  · exact ha
  · exact hb

theorem map (ha : Within C a) (f : String → String) : Within C (a.map f) := by
  unfold Rendered.map
  split
  · exact ha
  · exact text _

end Rendered.Within

theorem corresponds_within (C : RenderError → Prop) (scope : Scope) :
    Corresponds C (fun r _ => r.Within C) scope scope :=
  ⟨⟨.text, .fail, .append, .map⟩, .refl scope⟩

theorem within_expression {C : RenderError → Prop} (scope : Scope) (e : Expr)
    (h : e.All (Excused C)) : (expression scope e).Within C :=
  related_expression (corresponds_within C scope) e h

/-! ## Errors that are no undefined blocks -/

/-- The errors of texts: all but those of undefined blocks. -/
def OfText (error : RenderError) : Prop := ∀ name line, error ≠ .undefinedBlock name line

theorem excused_ofText (e : Expr) : Excused OfText e := by
  intro error h
  unfold Expr.unwritable? at h
  split at h
  · split at h <;> cases h
    nofun
  · split at h <;> cases h
    nofun
  · cases h

end TwigToLatte.Latte
