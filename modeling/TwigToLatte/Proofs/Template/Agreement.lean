import TwigToLatte.Proofs.Template.Balance

/-!
# Templates in two dialects

* `parse_follows` — **a dialect that offers what another one does reads a source as the other one
  does**.
-/

namespace TwigToLatte

open Parse

variable {excused : Fault → Prop} {dialect dialect' : Dialect}

theorem Dialect.Covers.tokenize (hd : dialect.Covers excused dialect') (source : Source) :
    dialect'.tokenize source = dialect.tokenize source := by
  rw [Dialect.tokenize, Dialect.tokenize, Dialect.operatorSymbols, hd.unary, hd.binary,
    Dialect.operatorSymbols]

/-- The tokens of a template, read in two dialects. No bound is reached, so none is an excuse. -/
theorem template_follows {state : State} (context : Context)
    (hd : context.dialect.Covers excused dialect') (hroom : Room context context.tokens.size state) :
    Grammar.template { context with dialect := dialect' } state = Grammar.template context state ∨
      ∃ fault after, Grammar.template context state = .error fault after ∧ excused fault := by
  let v : Comparison :=
    { context, dialect := dialect'
      excused := fun fault => excused fault ∨ fault.Exhausted
      exhausted := fun _ => .inr
      covers := hd.mono fun _ => .inl }
  have htemplate := Grammar.advances_template (v := v) context.tokens.size state trivial
  have hin : Inside context state := ⟨hroom.ended, hroom.lt_size⟩
  cases hrun : Grammar.template context state with
  | ok t after => exact .inl ((htemplate.ok hrun).same hin)
  | error fault after =>
    have hfault := htemplate.error hrun
    exact (hfault.same hin).imp_right fun h =>
      ⟨fault, after, rfl, h.resolve_right (hfault.bound hroom)⟩

/-- **A dialect that covers another one reads a source as the other one does**, unless the other
one stops at a fault that is excused. -/
theorem parse_follows (hd : dialect.Covers excused dialect') (source : Source) :
    Template.parse dialect' source = Template.parse dialect source ∨
      ∃ fault, (Template.parse dialect source).result = .error fault ∧ excused fault := by
  rw [Template.parse, Template.parse, hd.tokenize, Dialect.tokenize]
  cases htokens : Lexer.tokenize source.text dialect.operatorSymbols with
  | error fault => exact .inl rfl
  | ok tokens =>
    dsimp only
    rcases template_follows ⟨dialect, source.displayName, tokens⟩ hd (room_tokenize htokens) with
      heq | ⟨fault, after, hfault, hexcused⟩
    · rw [heq]
      exact .inl rfl
    · rw [hfault]
      exact .inr ⟨fault, rfl, hexcused⟩

end TwigToLatte
