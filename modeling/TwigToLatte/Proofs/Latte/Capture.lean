import TwigToLatte.Latte.Statement

/-!
# Captured text

A part whose text is needed as a whole is written, taken back and written again in another form. The
text that was there before is left as it was, and so is the count of its lines.

* `Output.dropBytes?_append` — what comes after the bytes of a text.
* `Emit.mapped_eq` — **capturing a part and writing it in another form is writing that form**.
* `templateTag`, `inclusionHead` — the texts of tags that name a template.
* `nameTemplate_eq`, `openInclusion_eq` — they are what is written for such tags.
-/

namespace TwigToLatte.Latte

namespace Output

theorem write_empty (out : Output) : out.write "" = out := by simp [write]

theorem dropBytes?_append (front rest : List Char) :
    dropBytes? (String.ofList front).utf8ByteSize (front ++ rest) = some rest := by
  induction front with
  | nil => rw [String.ofList_nil, String.utf8ByteSize_empty, List.nil_append, dropBytes?]
  | cons c front ih =>
    rw [String.ofList_cons, String.utf8ByteSize_append, String.utf8ByteSize_singleton]
    obtain ⟨n, hn⟩ := Nat.exists_eq_add_one.mpr c.utf8Size_pos
    have hsize : c.utf8Size + (String.ofList front).utf8ByteSize =
        (n + (String.ofList front).utf8ByteSize) + 1 := by omega
    rw [hsize, List.cons_append, dropBytes?, if_pos (by omega), ← hsize,
      Nat.add_sub_cancel_left, ih]

theorem splitOff_write (out : Output) (text : String) :
    (out.write text).splitOff out.text.utf8ByteSize = (text, out) := by
  have hrest := dropBytes?_append out.text.toList text.toList
  rw [String.ofList_toList] at hrest
  simp only [splitOff, write, String.toList_append, hrest, Option.getD_some, List.length_append,
    Nat.add_sub_cancel, List.take_left, String.ofList_toList]

end Output

namespace Emit

@[simp] theorem rendered_text (text : String) : rendered text = Emit.text text := by
  simp [rendered]

theorem rendered_fail (error : RenderError) : rendered (.fail error) = throw error := by
  funext out
  exact congrArg (EStateM.Result.error error) out.write_empty

theorem rendered_append (a b : Rendered) :
    rendered (a ++ b) = (do rendered a; rendered b) := by
  funext out
  obtain ⟨text, _ | error⟩ := a
  · rw [Rendered.append_eq rfl]
    obtain ⟨more, error⟩ := b
    have hwrite : out.write (text ++ more) = (out.write text).write more := by
      simp only [Output.write, String.append_assoc]
    cases error with
    | none => exact congrArg (EStateM.Result.ok ()) hwrite
    | some error => exact congrArg (EStateM.Result.error error) hwrite
  · rw [Rendered.append_of_error (Option.some_ne_none error)]
    rfl

/-- **What is made of a captured part is written in its place.** -/
@[simp] theorem mapped_eq (f : String → String) (r : Rendered) :
    mapped f r = rendered (r.map f) := by
  funext out
  obtain ⟨text, _ | error⟩ := r
  · show EStateM.Result.ok ()
      (((out.write text).splitOff out.text.utf8ByteSize).2.write
        (f ((out.write text).splitOff out.text.utf8ByteSize).1)) = _
    rw [Output.splitOff_write]
    rfl
  · rfl

end Emit

/-! ## Names of templates -/

/-- The name of a template, with the extension that Latte templates have. -/
def fileName (scope : Scope) (e : Expr) : Rendered := (expression scope e).map latteExtension

/-- The text of a tag that names a template. -/
def templateTag (scope : Scope) (tag : String) (template : Expr) (rest : Rendered) : Rendered :=
  ("\x7b" ++ tag ++ " " : String) ++ fileName scope template ++ rest

def inclusionHead (scope : Scope) (tag : String) (inclusion : Inclusion) : Rendered :=
  templateTag scope tag inclusion.template
    (inclusionVariables scope inclusion.bindings ++ "\x7d")

@[simp] theorem nameTemplate_eq (scope : Scope) (tag : String) (template : Expr) (rest : Rendered) :
    nameTemplate scope tag template rest = Emit.rendered (templateTag scope tag template rest) := by
  simp [nameTemplate, templateTag, fileName, Emit.rendered_append]

@[simp] theorem openInclusion_eq (scope : Scope) (tag : String) (inclusion : Inclusion) :
    openInclusion scope tag inclusion = Emit.rendered (inclusionHead scope tag inclusion) :=
  nameTemplate_eq ..

end TwigToLatte.Latte
