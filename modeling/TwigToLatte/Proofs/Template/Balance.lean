import TwigToLatte.Proofs.Template.Derived
import TwigToLatte.Proofs.Template.Progress

/-!
# Stacks while a template is read

Blocks and macros open scopes of imported names and close them again, and a template that is
embedded in another one has a scope of its own. Nothing of this is left when the statements are
read.

* `Grammar.IsStatements` — the rules of statements that tags are read with.
* `kind_parse` — parsing breaks no invariant of its own.
* `parse_balanced` — **statements and tags leave the stacks balanced, embedded templates leave
  everything, and parsing breaks no invariant of its own**.
-/

namespace TwigToLatte

open Parse Grammar

/-! ## Parsing -/

variable {dialect : Dialect}

/-- Where a template begins, there is room for as many levels as there are tokens. -/
theorem room_tokenize {template text : String} {symbols : List String} {tokens : Array Token}
    {log : Array Log.Record} (h : Lexer.tokenize text symbols = .ok tokens) :
    Room ⟨dialect, template, tokens⟩ tokens.size { log } :=
  have ⟨hended, hpos⟩ := ended_tokenize h
  ⟨hended, hpos, Nat.le_of_eq (Nat.zero_add _).symm⟩

theorem Cause.kind_ne_internal {cause : Cause} (hsound : cause.isBroken = false)
    (hbound : ¬ cause.isBound = true) : cause.kind ≠ .internal := by
  cases cause with
  | unbalanced | loopTargets => cases hsound
  | internal message => exact absurd rfl hbound
  | _ => nofun

/-- Parsing breaks no invariant of its own: no bound is reached, and the rest is not broken. -/
theorem kind_parse {source : Source} {fault : Fault}
    (h : (Template.parse dialect source).result = .error fault) : fault.cause.kind ≠ .internal := by
  rcases parse_cases dialect source with ⟨fault, hfault, hresult⟩ | ⟨tokens, log, htokens, hresult⟩
  · cases h.symm.trans hresult
    exact Lexer.ordinary_tokenize _ _ _ hfault
  rw [hresult] at h
  split at h <;> cases h
  rename_i after hrun
  have hsound := ((derives_template (L := AnyLine)).of_error hrun).sound
  have hfault := (advances_template (v := .same _) tokens.size { log } trivial).error hrun
  exact Cause.kind_ne_internal hsound (hfault.bound (room_tokenize htokens))

/-! ## Balance -/

/-- The rules of statements that tags are read with: for the tokens that are left, or for a given
depth. -/
def Grammar.IsStatements (inner : Statements) : Prop :=
  inner = statements ∨ ∃ depth, inner = statementsUpTo depth

theorem Grammar.IsStatements.derive {inner : Statements} (h : IsStatements inner) {O : Opening}
    {context : Context} {L : Nat → Prop} [OnLines context L] (hO : Opening.Sound O context L) :
    inner.Derive O context L := by
  rcases h with rfl | ⟨depth, rfl⟩
  · exact .statements hO
  · exact .statementsUpTo hO depth

/-- A tag is read from after its keyword on, which leaves the scope alone. -/
theorem Grammar.Opening.sound_scope (context : Context) :
    Opening.Sound (fun _ _ s s' => s'.scope = s.scope) context AnyLine :=
  ⟨Opens.scope_eq, id, fun _ => trivial⟩

section

variable {O : Opening} {context : Context} {L : Nat → Prop} (hO : Opening.Sound O context L)
  {s s' : State} (hs : 0 < s.scope.imports.length)

include hO hs

/-- The names imported inside a block are gone after it. -/
theorem Grammar.DerivesBy.imports_block {name : String} {line : Nat}
    (h : DerivesBy O context s (.statement (some ⟨.block name, line⟩)) s') :
    s'.scope.imports = s.scope.imports := by
  generalize hstmt : Stmt.mk (.block name) line = stmt at h
  cases h with
  | literal token => obtain ⟨text, rfl | rfl | rfl⟩ := literal?_eq_some token <;> cases hstmt
  | single opens holds => cases holds <;> cases hstmt
  | around opens head inside => cases head <;> cases hstmt
  | block opens named new inside =>
    have hinside := inside.stacks hO (Nat.succ_pos _)
    rw [(passes_of_expectName named).scope_eq, hO.scope_eq opens] at hinside
    exact Scope.Balanced.imports_closeBlock hs hinside _
  | shortBlock opens named new expr tail =>
    have hinside := ((passes_of_expression expr).trans tail).scope_eq
    rw [(passes_of_expectName named).scope_eq, hO.scope_eq opens] at hinside
    exact Scope.Balanced.imports_closeBlock hs (.of_eq hinside) _
  | _ => cases hstmt

/-- The names imported inside a macro are gone after it. -/
theorem Grammar.DerivesBy.imports_macro (h : DerivesBy O context s (.statement none) s') :
    s'.scope.imports = s.scope.imports := by
  cases h with
  | defineMacro opens named defaults inside =>
    have hhead := (passes_of_expectName named).trans (passes_of_macroParams defaults)
    have hinside := inside.stacks hO (Nat.succ_pos _)
    rw [hhead.scope_eq, hO.scope_eq opens] at hinside
    exact Scope.Balanced.imports_closeMacro hs hinside _ _

end

/-- An embedded template leaves the scope around it as it was, also where it fails. -/
theorem scope_embeddedTemplate (inner : Statements) (parent : Expr) (endTags : EndTags)
    (context : Context) (state : State) :
    match embeddedTemplate inner parent endTags context state with
    | .ok _ after => after.scope = state.scope
    | .error _ after => after.scope = state.scope := by
  unfold embeddedTemplate withScope
  split
  · rename_i heq
    split at heq <;> cases heq
    rfl
  · rename_i heq
    split at heq <;> cases heq
    rfl

/-- **Stacks are balanced.** Statements and tags leave the stack of open blocks and all scopes of
imported names but the innermost as they were, and blocks and macros the innermost one too. (There
is one from the start, and the last one is never closed.) A template embedded in another one
restores the scope whether or not it can be read. So parsing never finds an invariant broken. -/
theorem parse_balanced :
    (∀ (inner : Statements) (context : Context) (state after : State),
      IsStatements inner → state.scope.imports ≠ [] →
      (∀ endTags takeEnd body, inner endTags takeEnd context state = .ok body after →
        Scope.Balanced state.scope after.scope) ∧
      ∀ tag line kind, tagRule inner tag line context state = .ok kind after →
        Scope.Balanced state.scope after.scope ∧
          (tag = .block ∨ tag = .defineMacro → after.scope.imports = state.scope.imports)) ∧
    (∀ (inner : Statements) (parent : Expr) (endTags : EndTags) (context : Context) (state : State),
      match embeddedTemplate inner parent endTags context state with
      | .ok _ after => after.scope = state.scope
      | .error _ after => after.scope = state.scope) ∧
    ∀ (dialect : Dialect) (source : Source) (fault : Fault),
      (Template.parse dialect source).result = .error fault → fault.cause.kind ≠ .internal := by
  refine ⟨fun inner context state after hinner hne => ?_, scope_embeddedTemplate,
    fun dialect source fault h => kind_parse h⟩
  have hpos := List.length_pos_of_ne_nil hne
  have hO := Opening.sound_scope context
  have hi := hinner.derive hO
  have hs := state.scope.lined_any
  refine ⟨fun endTags takeEnd body hrun => ?_, fun tag line kind hrun => ⟨?_, fun htag => ?_⟩⟩
  · obtain ⟨m, hbody, hend⟩ := (hi endTags takeEnd state hs).of_ok hrun
    have hscope : after.scope = m.scope := by
      cases endTags with
      | none => rw [hend.1]
      | some endTags =>
        obtain ⟨m', hcloses, htail⟩ := hend
        split at htail
        · rw [htail.scope_eq, hcloses.after_eq]
          rfl
        · rw [htail, hcloses.after_eq]
          rfl
    rw [hscope]
    exact hbody.stacks hO hpos
  · exact ((derives_tagRule hs hO hi tag rfl).of_ok hrun).stacks hO hpos
  · rcases htag with rfl | rfl
    · have hblock : Ensures context AnyLine state (tagRule inner .block line) fun _ after =>
          after.scope.imports = state.scope.imports :=
        .map (derives_blockTag hs hO hi rfl) fun _ _ ⟨_, _, h⟩ => h.imports_block hO hpos
      exact hblock.of_ok hrun
    · have hmacro : Ensures context AnyLine state (tagRule inner .defineMacro line) fun _ after =>
          after.scope.imports = state.scope.imports :=
        .bind (derives_macroTag hs hi rfl) fun _ _ h => .pure (h.imports_macro hO hpos)
      exact hmacro.of_ok hrun

/-- A name imported inside a block is gone after it, and a stray end tag is the author's fault. -/
theorem parse_balanced_block :
    let dialect : Dialect := { tags := ⟨[("block", .block), ("import", .importAs)]⟩ }
    let kinds : List Token.Kind := [.blockStart, .name "block", .name "a", .blockEnd, .blockStart,
      .name "import", .string "b", .name "as", .name "c", .blockEnd, .blockStart, .name "endblock",
      .blockEnd, .eof]
    let context : Context := ⟨dialect, "", (kinds.map (Token.mk · ⟨0, 0, 1, 1⟩)).toArray⟩
    (∃ body after, statements none false context {} = .ok body after ∧
      Scope.Balanced {} after.scope) ∧
    (∃ kind after, tagRule statements .block 1 context { cursor := 2 } = .ok kind after ∧
      after.scope.imports = [[]]) ∧
    ∃ fault, (Template.parse dialect ⟨"\x7b% endblock %\x7d", "", none⟩).result = .error fault ∧
      fault.cause.kind ≠ .internal := by
  intro dialect kinds context
  have hok : ∀ {α : Type} {p : Parse α} {state : State},
      (EStateM.run' (p context) state).isSome = true →
      ∃ a after, p context state = .ok a after := by
    intro α p state h
    cases hrun : p context state with
    | ok a after => exact ⟨a, after, rfl⟩
    | error fault after =>
      delta EStateM.run' EStateM.run at h
      rw [hrun] at h
      cases h
  obtain ⟨body, after, hbody⟩ : ∃ body after, statements none false context {} = .ok body after :=
    hok (by decide +kernel)
  obtain ⟨kind, after', hkind⟩ : ∃ kind after',
      tagRule statements .block 1 context { cursor := 2 } = .ok kind after' :=
    hok (by decide +kernel)
  have hfault :
      (Template.parse dialect ⟨"\x7b% endblock %\x7d", "", none⟩).result.isOk = false := by
    decide +kernel
  refine ⟨⟨body, after, hbody, ?_⟩, ⟨kind, after', hkind, ?_⟩, ?_⟩
  · exact (parse_balanced.1 _ _ _ _ (.inl rfl) (List.cons_ne_nil _ _)).1 _ _ _ hbody
  · exact ((parse_balanced.1 _ _ _ _ (.inl rfl) (List.cons_ne_nil _ _)).2 _ _ _ hkind).2 (.inl rfl)
  · cases hresult : (Template.parse dialect ⟨"\x7b% endblock %\x7d", "", none⟩).result with
    | ok t => rw [hresult] at hfault; cases hfault
    | error fault => exact ⟨fault, rfl, parse_balanced.2.2 _ _ _ hresult⟩

end TwigToLatte
