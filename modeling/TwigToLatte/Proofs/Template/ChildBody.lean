import TwigToLatte.Dialect.Core
import TwigToLatte.Proofs.Template.Derived

/-!
# The bodies of templates that extend another one

A template with a parent shows nothing of its own body, so the parser refuses text there that would
be lost. What it looks at is a search through the statements that no region captures.

* `checked_parse` — every template with a parent has passed the check.
* `exposed_parse` — **the body of a template with a parent exposes no text and nests no block**, and
  no verbatim text either exactly if its verbatim regions are blank.
-/

namespace TwigToLatte

/-- The template passes the check if it has a parent. -/
def Template.Checked (t : Template) : Prop := t.parent.isSome = true → checkChild t.body = .ok ()

/-- Every template that extends another one has passed the check, and so has each embedded one. -/
theorem checked_parse {dialect : Dialect} {source : Source} {t m : Template}
    (h : (Template.parse dialect source).result = .ok t) (hm : t.Module m) : m.Checked := by
  cases hm with
  | self =>
    obtain ⟨tokens, log, last, -, hfinishes⟩ := Grammar.derives_parse h
    exact hfinishes.child
  | embedded outer mem embeds =>
    refine (satisfies_parse (Q := fun stmt => ∀ inner, stmt.embedded? = some inner → inner.Checked)
      (E := fun _ => True) h fun tokens htokens => ?_).statements _ outer _ mem m embeds
    refine ⟨fun _ => ⟨_, _, rfl⟩, fun _ hstmt _ inner hinner => ?_, fun _ _ _ => nofun,
      fun _ => nofun, fun _ _ => trivial, fun _ _ _ _ => trivial⟩
    cases hstmt with
    | embed opens expr arguments inside child =>
      cases hinner
      exact child
    | literal token =>
      obtain ⟨text, rfl | rfl | rfl⟩ := Grammar.literal?_eq_some token <;> cases hinner
    | single opens holds => cases holds <;> cases hinner
    | around opens head inside => cases head <;> cases hinner
    | _ => cases hinner

/-- The text of a statement outside tags, or of a verbatim region. -/
def Stmt.literalText? (stmt : Stmt) : Option String :=
  match stmt.kind with
  | .text text | .verbatim text => some text
  | _ => none

/-- Where nothing captures them, the body holds no text but blanks, and no block stands inside
another statement. -/
structure Template.Bare (t : Template) : Prop where
  blank : ∀ stmt ∈ bodyExposed t.body, ∀ text, stmt.literalText? = some text →
    Text.isAllBlank text = true
  unnested : ∀ stmt ∈ bodyNested t.body, stmt.place? = none

/-- **The body of a template with a parent exposes no text and nests no block.** It is bare exactly
if the verbatim regions that it exposes are blank, which are not checked. What is not exposed stands
in a capture or in an `apply` region. -/
theorem exposed_parse {dialect : Dialect} {source : Source} {t m : Template}
    (h : (Template.parse dialect source).result = .ok t) (hm : t.Module m)
    (hparent : m.parent.isSome = true) :
    (m.Bare ↔ ∀ stmt ∈ bodyExposed m.body, ∀ text, stmt.kind = .verbatim text →
      Text.isAllBlank text = true) ∧
    (∀ stmt ∈ bodyExposed m.body, ∀ text, stmt.kind = .text text → Text.isAllBlank text = true) ∧
    (∀ stmt ∈ bodyNested m.body, stmt.place? = none) ∧
    ∀ stmt, stmt ∈ bodyParts m.body ↔
      stmt ∈ bodyExposed m.body ∨ stmt ∈ capturedParts (bodyExposed m.body) := by
  obtain ⟨htext, hnested⟩ := exposed_of_checkChild (checked_parse h hm hparent)
  refine ⟨⟨fun hbare stmt hstmt text hkind => ?_, fun hverbatim => ⟨?_, hnested⟩⟩, htext, hnested,
    splits_body m.body⟩
  · exact hbare.blank stmt hstmt text (by rw [Stmt.literalText?, hkind])
  · intro stmt hstmt text hliteral
    rw [Stmt.literalText?] at hliteral
    split at hliteral <;> cases hliteral
    · exact htext stmt hstmt _ ‹_›
    · exact hverbatim stmt hstmt _ ‹_›

/-- Blank text in a branch, blank verbatim text, and text in a capture and in a block. -/
theorem exposed_parse_branch :
    let dialect : Dialect := { tags := Dialect.core.tags }
    let source : Source :=
      ⟨"\x7b% extends 'a' %\x7d\n\x7b% if 1 %\x7d \x7b% verbatim %\x7d \x7b% endverbatim %\x7d" ++
        "\x7b% set c %\x7dx\x7b% endset %\x7d\x7b% endif %\x7d" ++
        "\x7b% block b %\x7dx\x7b% endblock %\x7d", "", none⟩
    ∃ t, (Template.parse dialect source).result = .ok t ∧ t.parent.isSome = true ∧
      (bodyExposed t.body).filterMap Stmt.literalText? = ["\n", " ", " "] ∧
      (capturedParts (bodyExposed t.body)).filterMap Stmt.literalText? = ["x"] ∧ t.Bare := by
  intro dialect source
  have hparse : (Template.parse dialect source).result.toOption.any (fun t =>
      t.parent.isSome && ((bodyExposed t.body).filterMap Stmt.literalText? == ["\n", " ", " "] &&
        (capturedParts (bodyExposed t.body)).filterMap Stmt.literalText? == ["x"])) = true := by
    decide +kernel
  obtain ⟨t, hresult, ht⟩ := eq_ok_of_any hparse
  obtain ⟨hparent, ht⟩ := (Bool.and_eq_true _ _).mp ht
  obtain ⟨hexposed, hcaptured⟩ := (Bool.and_eq_true _ _).mp ht
  have hexposed := beq_iff_eq.mp hexposed
  refine ⟨t, hresult, hparent, hexposed, beq_iff_eq.mp hcaptured, ?_⟩
  refine (exposed_parse hresult .self hparent).1.mpr fun stmt hstmt text hkind => ?_
  have htext : text ∈ (bodyExposed t.body).filterMap Stmt.literalText? :=
    List.mem_filterMap.mpr ⟨stmt, hstmt, by rw [Stmt.literalText?, hkind]⟩
  rw [hexposed] at htext
  simp only [List.mem_cons, List.not_mem_nil, or_false] at htext
  rcases htext with rfl | rfl | rfl <;> decide

/-- Verbatim text in the body of a template that extends another one is accepted. -/
theorem not_bare_verbatim :
    let dialect : Dialect := { tags := Dialect.core.tags }
    let source : Source :=
      ⟨"\x7b% extends 'a' %\x7d\x7b% verbatim %\x7dx\x7b% endverbatim %\x7d", "", none⟩
    ∃ t, (Template.parse dialect source).result = .ok t ∧ t.parent.isSome = true ∧ ¬ t.Bare := by
  intro dialect source
  have hparse : (Template.parse dialect source).result.toOption.any (fun t =>
      t.parent.isSome && (bodyExposed t.body).any fun stmt =>
        stmt.literalText?.any fun text => !Text.isAllBlank text) = true := by
    decide +kernel
  obtain ⟨t, hresult, ht⟩ := eq_ok_of_any hparse
  obtain ⟨hparent, htext⟩ := (Bool.and_eq_true _ _).mp ht
  obtain ⟨stmt, hstmt, htext⟩ := List.any_eq_true.mp htext
  obtain ⟨text, htext, hblank⟩ := (Option.any_eq_true _ _).mp htext
  refine ⟨t, hresult, hparent, fun hbare => ?_⟩
  rw [hbare.blank stmt hstmt text htext] at hblank
  cases hblank

end TwigToLatte
