import TwigToLatte.Fault
import TwigToLatte.Text.Replace

/-!
# Rendered text

* `RenderError` — why a template has no Latte form.
* `Rendered` — the text of a part of a template. Rendering stops at the first error and keeps the
  text before it.
-/

namespace TwigToLatte.Latte

/-- Why rendering stops. -/
inductive RenderError where
  /-- The template asks for something that Latte does not have. -/
  | fault (fault : Fault)
  | undefinedBlock (name : String) (line : Nat)
  | missingArgument (test : String) (number line : Nat)
  deriving DecidableEq, Repr

namespace RenderError

def line : RenderError → Nat
  | fault f => f.line
  | undefinedBlock _ line => line
  | missingArgument _ _ line => line

def message : RenderError → String
  | fault f => f.cause.message
  | undefinedBlock name _ => "Block \"" ++ name ++ "\" is referenced but not defined"
  | missingArgument test number _ =>
    "Test \"" ++ test ++ "\" is missing argument " ++ toString number

/-- The full text of an error in the template with the given name. -/
def display (template : String) : RenderError → String
  | fault f => (f.report template).display
  | e => "Internal error at line " ++ toString e.line ++ ": " ++ e.message

end RenderError

/-- Text, and the error that ended it. -/
structure Rendered where
  text : String
  error : Option RenderError := none
  deriving DecidableEq, Repr

namespace Rendered

instance : Inhabited Rendered := ⟨⟨"", none⟩⟩

instance : Coe String Rendered := ⟨fun text => ⟨text, none⟩⟩

def fail (error : RenderError) : Rendered := ⟨"", some error⟩

/-- One text after the other, up to the first error. -/
protected def append (a b : Rendered) : Rendered :=
  match a.error with
  | some _ => a
  | none => ⟨a.text ++ b.text, b.error⟩

instance : Append Rendered := ⟨Rendered.append⟩

theorem append_eq {a : Rendered} (h : a.error = none) (b : Rendered) :
    a ++ b = ⟨a.text ++ b.text, b.error⟩ := by
  show Rendered.append a b = _
  rw [Rendered.append, h]

/-- After an error nothing is written. -/
theorem append_of_error {a : Rendered} (h : a.error ≠ none) (b : Rendered) : a ++ b = a := by
  show Rendered.append a b = a
  cases herror : a.error with
  | none => exact absurd herror h
  | some e => rw [Rendered.append, herror]

theorem append_empty (a : Rendered) : a ++ (⟨"", none⟩ : Rendered) = a := by
  by_cases h : a.error = none
  · rw [append_eq h, String.append_empty, ← h]
  · exact append_of_error h _

theorem append_assoc (a b c : Rendered) : a ++ b ++ c = a ++ (b ++ c) := by
  by_cases ha : a.error = none
  · by_cases hb : b.error = none
    · have hab : (a ++ b).error = none := by rwa [append_eq ha]
      rw [append_eq hab, append_eq ha, append_eq ha, append_eq hb, String.append_assoc]
    · rw [append_of_error hb, append_of_error]
      rwa [append_eq ha]
  · rw [append_of_error ha, append_of_error ha, append_of_error ha]

/-- Changes a text that is complete. -/
def map (f : String → String) (r : Rendered) : Rendered :=
  match r.error with
  | some _ => r
  | none => ⟨f r.text, none⟩

/-- The text between brackets. -/
def parenthesize (r : Rendered) : Rendered := ("(" : Rendered) ++ r ++ (")" : Rendered)

end Rendered

end TwigToLatte.Latte
