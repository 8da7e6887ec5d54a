import TwigToLatte.Dialect.Core
import TwigToLatte.Proofs.Template.Checks
import TwigToLatte.Proofs.Template.Heads

/-!
# Progress of the grammar

Whatever the tokens are, every tag takes a token or fails, nothing moves back, and no bound on
repetition or nesting is reached: there are as many levels as tokens left, and every level and
every round of a repetition takes a token of its own.

* `Statements.Extends` — statements of which the second ones are those for a larger depth.
* `advances_tagRule`, `advances_statementsRule` — one level of nesting.
* `extends_statementsUpTo` — **statements of a depth and of a larger one**.
* `tagRule_statements`, `statementsRule_statements` — **statements without a depth**.
* `Call` — the ways into the grammar.
* `Call.progress` — **every call moves on, ends without reaching a bound, and is what the rules say
  without bounds**.
-/

namespace TwigToLatte.Grammar

open Parse

variable {v : Comparison} {depth : Nat} {inner inner' : Statements}

/-- The second statements are read as the first ones, unless a bound of the first ones is reached,
which does not happen where the depth has room. -/
def Statements.Extends (v : Comparison) (depth : Nat) (inner inner' : Statements) : Prop :=
  ∀ endTags takeEnd,
    Advances v depth never (inner endTags takeEnd) (inner' endTags takeEnd)

theorem advances_expectBlockEnd :
    Advances v depth always expectBlockEnd expectBlockEnd := .expect _ _ _

/-! ## Heads of tags -/

theorem advances_assignmentTargets : Advances v depth always assignmentTargets assignmentTargets :=
  .of_yields fun _ => ⟨_, yields_assignmentTargets⟩

theorem advances_escapingStrategy : Advances v depth never escapingStrategy escapingStrategy :=
  .of_yields fun _ => ⟨_, yields_escapingStrategy (.trivial _ _)⟩

theorem advances_cacheModifiers : Advances v depth never cacheModifiers cacheModifiers :=
  .of_yields fun _ => ⟨_, yields_cacheModifiers (.trivial _ _)⟩

theorem advances_aliasedName : Advances v depth always aliasedName aliasedName :=
  .of_yields fun _ => ⟨_, yields_aliasedName⟩

theorem advances_checkEndName (tag : Tag) (name : String) :
    Advances v depth never (checkEndName tag name) (checkEndName tag name) :=
  .of_yields fun _ => ⟨_, yields_checkEndName tag name⟩

theorem advances_inclusion (template : Expr) :
    Advances v depth always (inclusion template) (inclusion template) :=
  .of_yields fun _ => ⟨_, yields_inclusion (.trivial _ _) fun _ _ => trivial⟩

/-! ## Tags with a body -/

section

variable (hi : inner.Extends v depth inner')

include hi

theorem advances_region (tag : Tag) (line : Nat) (endName : String) :
    Advances v depth always (region inner tag line endName)
      (region inner' tag line endName) :=
  advances_expectBlockEnd.take fun _ _ => (hi _ _).bind fun _ _ =>
    advances_expectBlockEnd.bind fun _ _ => .pure trivial

theorem advances_guardedBody (line : Nat) :
    Advances v depth always (guardedBody inner line) (guardedBody inner' line) :=
  advances_expression.take fun _ _ => advances_expectBlockEnd.bind fun _ _ =>
    (hi _ _).bind fun _ _ => .pure trivial

theorem advances_moreBranches (line : Nat) (first : Expr × List Stmt) :
    Advances v depth never (moreBranches inner line first)
      (moreBranches inner' line first) := by
  refine .loop (I := always) trivial ?_
  rintro ⟨branches, otherwise⟩ -
  refine Advances.next.take fun token _ => ?_
  split
  · exact advances_expectBlockEnd.bind fun _ _ => (hi _ _).bind fun _ _ => .pure trivial
  · exact (advances_guardedBody hi line).bind fun _ _ => .pure trivial
  · exact .pure trivial
  · exact .fail trivial rfl

theorem advances_branchTag (line : Nat) :
    Advances v depth always (branchTag inner line) (branchTag inner' line) :=
  (advances_guardedBody hi line).take fun _ _ => (advances_moreBranches hi line _).bind fun _ _ =>
    advances_expectBlockEnd.bind fun _ _ => .pure trivial

theorem advances_loopTag (line : Nat) :
    Advances v depth always (loopTag inner line) (loopTag inner' line) := by
  refine advances_assignmentTargets.take fun targets _ => (Advances.expect _ _ _).bind fun _ _ => ?_
  refine advances_expression.bind fun sequence _ => advances_expectBlockEnd.bind fun _ _ => ?_
  refine (hi _ _).bind fun body _ => Advances.next.bind fun token _ => ?_
  extract_lets close
  have hclose : ∀ otherwise,
      Advances v depth never (close otherwise) (close otherwise) := by
    intro otherwise
    refine advances_expectBlockEnd.bind fun _ _ => ?_
    split
    · exact .pure trivial
    · exact .pure trivial
    · exact .fail trivial rfl
  refine .ite (advances_expectBlockEnd.bind fun _ _ => (hi _ _).bind fun _ _ => hclose _) (hclose none)

theorem advances_assignTag (line : Nat) :
    Advances v depth always (assignTag inner line) (assignTag inner' line) := by
  refine advances_assignmentTargets.take fun names _ => (Advances.nextIf _).bind fun equals _ => ?_
  refine .ite ?_ ?_
  · refine (Reads.commaList advances_expression).bind fun values _ => ?_
    exact advances_expectBlockEnd.bind fun _ _ =>
      .ite (.pure trivial) (.currentLine fun _ _ => .fail trivial rfl)
  · split
    · exact (advances_region hi _ _ _).bind fun _ _ => .pure trivial
    · exact .currentLine fun _ _ => .fail trivial rfl

theorem advances_scopeTag (line : Nat) :
    Advances v depth always (scopeTag inner line) (scopeTag inner' line) := by
  refine Advances.current.bind fun token _ => .ite ?_ ?_
  · exact (advances_region hi _ _ _).take fun _ _ => .pure trivial
  · exact advances_expression.take fun _ _ => (Advances.nextIf _).bind fun _ _ =>
      (advances_region hi _ _ _).bind fun _ _ => .pure trivial

theorem advances_applyTag (line : Nat) :
    Advances v depth always (applyTag inner line) (applyTag inner' line) :=
  (nests_filterChain _).nested.take fun _ _ => (advances_region hi _ _ _).bind fun _ _ => .pure trivial

end

theorem advances_autoescapeTag (hi : inner.Extends v depth inner') (line : Nat) :
    Advances v depth always (autoescapeTag inner line)
      (autoescapeTag inner' line) :=
  advances_escapingStrategy.bind fun _ _ => (advances_region hi _ _ _).take fun _ _ => .pure trivial

theorem advances_sandboxTag (hi : inner.Extends v depth inner') (line : Nat) :
    Advances v depth always (sandboxTag inner line) (sandboxTag inner' line) :=
  (advances_region hi _ _ _).take fun _ _ =>
    (Reads.check (fun _ _ => trivial) fun _ h => ⟨trivial, (fault_of_sandboxed h).2⟩).bind fun _ _ => .pure trivial

theorem advances_cacheTag (hi : inner.Extends v depth inner') (line : Nat) :
    Advances v depth always (cacheTag inner line) (cacheTag inner' line) :=
  advances_expression.take fun _ _ => advances_cacheModifiers.bind fun _ _ =>
    (advances_region hi _ _ _).bind fun _ _ => .pure trivial

/-! ## Single tags -/

theorem advances_evaluateTag : Advances v depth always evaluateTag evaluateTag :=
  advances_expression.take fun _ _ => advances_expectBlockEnd.bind fun _ _ => .pure trivial

theorem advances_flushTag : Advances v depth always flushTag flushTag :=
  advances_expectBlockEnd.take fun _ _ => .pure trivial

theorem advances_deprecatedTag (line : Nat) :
    Advances v depth always (deprecatedTag line) (deprecatedTag line) := by
  refine advances_expression.take fun e _ => advances_expectBlockEnd.bind fun _ _ => ?_
  split
  · exact .ask ((Reads.record _).bind fun _ _ => .pure trivial)
  · exact .pure trivial

/-! ## Blocks, macros and other templates -/

theorem advances_blockBody (hi : inner.Extends v depth inner') (name : String) (line : Nat) :
    Advances v depth never (blockBody inner name line)
      (blockBody inner' name line) :=
  (Advances.nextIf _).bind fun _ _ =>
    .ite ((hi _ _).bind fun _ _ => (advances_checkEndName _ _).bind fun _ _ => .pure trivial)
      (advances_expression.bind fun _ _ => .pure trivial)

theorem advances_blockTag (hi : inner.Extends v depth inner') (line : Nat) :
    Advances v depth always (blockTag inner line) (blockTag inner' line) := by
  refine Advances.expectName.take fun name _ => Advances.getScope.bind fun scope _ => ?_
  split
  · exact .currentLine fun _ _ => .fail trivial rfl
  · refine (Advances.modifyScope _).bind fun _ _ => (Advances.modifyScope _).bind fun _ _ =>
      (Advances.modifyScope _).bind fun _ _ => (advances_blockBody hi _ _).bind fun body _ => ?_
    exact advances_expectBlockEnd.bind fun _ _ => (Advances.modifyScope _).bind fun _ _ =>
      (Advances.modifyScope _).bind fun _ _ => (Advances.modifyScope _).bind fun _ _ => .pure trivial

theorem advances_extendsMisuse? : Advances v depth never extendsMisuse? extendsMisuse? := by
  refine (Reads.peek peeks_enclosingBlock fun _ => rfl).bind fun _ _ => .ite (.pure trivial) ?_
  refine (Reads.peek peeks_isMainScope fun _ => rfl).bind fun _ _ => .ite (.pure trivial) ?_
  exact Advances.getScope.bind fun _ _ => .ite (.pure trivial) (.pure trivial)

theorem advances_inheritTag (line : Nat) :
    Advances v depth always (inheritTag line) (inheritTag line) := by
  refine advances_extendsMisuse?.bind fun misuse _ => ?_
  cases misuse with
  | some misuse => exact .fail trivial rfl
  | none =>
    exact advances_expression.take fun _ _ => advances_expectBlockEnd.bind fun _ _ =>
      (Advances.modifyScope _).bind fun _ _ => .pure trivial

theorem advances_useTag (line : Nat) : Advances v depth always (useTag line) (useTag line) := by
  refine advances_expression.take fun template _ => .ite (.fail trivial rfl) ?_
  refine (Advances.nextIf _).bind fun _ _ => ?_
  extract_lets close
  have hclose : ∀ targets,
      Advances v depth never (close targets) (close targets) := fun _ =>
    advances_expectBlockEnd.bind fun _ _ => (Advances.modifyScope _).bind fun _ _ => .pure trivial
  exact .ite ((Reads.commaList advances_aliasedName).bind fun _ _ => hclose _) (hclose [])

theorem advances_macroTag (hi : inner.Extends v depth inner') (line : Nat) :
    Advances v depth always (macroTag inner line) (macroTag inner' line) := by
  refine Advances.expectName.take fun name _ => nests_macroParams.nested.bind fun params _ => ?_
  refine advances_expectBlockEnd.bind fun _ _ => (Advances.modifyScope _).bind fun _ _ => ?_
  refine (hi _ _).bind fun _ _ => (advances_checkEndName _ _).bind fun _ _ => ?_
  exact (Advances.modifyScope _).bind fun _ _ => advances_expectBlockEnd.bind fun _ _ => Advances.modifyScope _

theorem advances_importTag : Advances v depth always importTag importTag :=
  advances_expression.take fun _ _ => (Advances.expect _ _ _).bind fun _ _ =>
    Advances.expectName.bind fun _ _ => advances_expectBlockEnd.bind fun _ _ =>
      (Advances.modifyScope _).bind fun _ _ => .pure trivial

theorem advances_importNamesTag (line : Nat) :
    Advances v depth always (importNamesTag line) (importNamesTag line) := by
  refine advances_expression.take fun template _ => (Advances.expect _ _ _).bind fun _ _ => ?_
  refine (Reads.commaList advances_aliasedName).bind fun targets _ => ?_
  refine advances_expectBlockEnd.bind fun _ _ => Advances.freshName.bind fun variableName _ => ?_
  refine Reads.bind (?_ : Advances v depth never _ _) fun _ _ => .pure trivial
  clear * -
  induction targets with
  | nil => exact .pure trivial
  | cons target targets ih => exact (Advances.modifyScope _).bind fun _ _ => ih

theorem advances_inclusionTag : Advances v depth always inclusionTag inclusionTag :=
  advances_expression.take fun _ _ => (advances_inclusion _).bind fun _ _ => .pure trivial

theorem advances_finishTemplate (body : List Stmt) :
    Advances v depth never (finishTemplate body) (finishTemplate body) := by
  refine Advances.getScope.bind fun scope _ => ?_
  extract_lets finish
  have hfinish : ∀ checked,
      Advances v depth never (finish checked) (finish checked) := fun _ =>
    .ite (.currentLine fun _ _ => .fail trivial rfl)
      ((Advances.modifyScope _).bind fun _ _ => .pure trivial)
  exact .ite ((Reads.check (fun _ _ => trivial) fun _ h => ⟨trivial, (fault_of_checkChild h).2⟩).bind
    fun u _ => hfinish u) (hfinish ())

theorem advances_embedTag (hi : inner.Extends v depth inner') (line : Nat) :
    Advances v depth always (embedTag inner line) (embedTag inner' line) := by
  refine advances_expression.take fun parent _ => (advances_inclusion _).bind fun _ _ => ?_
  have hembedded : Advances v depth never
      (embeddedTemplate inner parent ⟨"embed", line, ["endembed"]⟩)
      (embeddedTemplate inner' parent ⟨"embed", line, ["endembed"]⟩) :=
    .withScope _ ((hi _ _).bind fun body _ => advances_finishTemplate body)
  exact hembedded.bind fun _ _ => advances_expectBlockEnd.bind fun _ _ => .pure trivial

/-- **Every tag takes a token.** -/
theorem advances_tagRule (hi : inner.Extends v depth inner') (tag : Tag) (line : Nat) :
    Advances v depth always (tagRule inner tag line) (tagRule inner' tag line) := by
  cases tag with
  | apply => exact (advances_applyTag hi line).map _ fun _ _ => trivial
  | autoescape => exact (advances_autoescapeTag hi line).map _ fun _ _ => trivial
  | block => exact (advances_blockTag hi line).map _ fun _ _ => trivial
  | cache => exact (advances_cacheTag hi line).map _ fun _ _ => trivial
  | deprecated => exact (advances_deprecatedTag line).map _ fun _ _ => trivial
  | evaluate => exact advances_evaluateTag.map _ fun _ _ => trivial
  | embed => exact (advances_embedTag hi line).map _ fun _ _ => trivial
  | inherit => exact (advances_inheritTag line).map _ fun _ _ => trivial
  | flush => exact advances_flushTag.map _ fun _ _ => trivial
  | loop => exact (advances_loopTag hi line).map _ fun _ _ => trivial
  | importNames => exact (advances_importNamesTag line).map _ fun _ _ => trivial
  | branch => exact (advances_branchTag hi line).map _ fun _ _ => trivial
  | importAs => exact advances_importTag.map _ fun _ _ => trivial
  | inclusion => exact advances_inclusionTag.map _ fun _ _ => trivial
  | defineMacro => exact (advances_macroTag hi line).take fun _ _ => .pure trivial
  | sandbox => exact (advances_sandboxTag hi line).map _ fun _ _ => trivial
  | assign => exact (advances_assignTag hi line).map _ fun _ _ => trivial
  | useBlocks => exact (advances_useTag line).map _ fun _ _ => trivial
  | scope => exact (advances_scopeTag hi line).map _ fun _ _ => trivial

/-! ## Statements -/

theorem advances_printRule : Advances v depth always printRule printRule :=
  advances_expression.take fun _ _ => (Advances.expect _ _ _).bind fun _ _ => .pure trivial

theorem advances_tagName : Advances v depth never tagName tagName := by
  refine Advances.current.bind fun token _ => ?_
  split
  · exact .pure trivial
  · exact .fail trivial rfl

theorem advances_tagStatement (hi : inner.Extends v depth inner')
    (endTags : Option EndTags) (name : String) :
    Advances v depth never (tagStatement inner endTags name)
      (tagStatement inner' endTags name) := by
  refine .currentLine fun line _ => .ask ?_
  rw [Dialect.tag?, Dialect.tag?, v.loose.tags_other]
  split
  · cases endTags with
    | some endTags => exact .fail trivial rfl
    | none =>
      refine .ask ?_
      rw [v.loose.tags_other]
      exact .fail trivial rfl
  · exact Advances.next.bind fun _ _ => (Reads.record _).bind fun _ _ =>
      (advances_tagRule hi _ _).bind fun _ _ => .pure trivial

theorem advances_endOfStatements (endTags : Option EndTags) (body : List Stmt) :
    Advances v depth never (endOfStatements endTags body)
      (endOfStatements endTags body) := by
  cases endTags with
  | none => exact .pure trivial
  | some endTags => exact .currentLine fun _ _ => .fail trivial rfl

/-- The delimiter before a tag is taken first, so the statements inside the tag may nest one level
less. -/
theorem advances_statementsRule (hi : inner.Extends v depth inner') :
    Statements.Extends v (depth + 1) (statementsRule inner) (statementsRule inner') := by
  intro endTags takeEnd
  refine .loop (I := always) trivial fun body _ => Advances.current.bind fun token _ => ?_
  split
  · exact (advances_endOfStatements _ _).bind fun _ _ => .inr trivial
  · exact Advances.next.take fun _ _ => .pure trivial
  · exact Advances.next.take fun _ _ => .pure trivial
  · exact Advances.next.take fun _ _ => .pure trivial
  · exact Advances.next.take fun _ _ => advances_printRule.bind fun _ _ => .pure trivial
  · refine Advances.next.descend fun _ _ => advances_tagName.bind fun name _ => .ite ?_ ?_
    · exact .ite (Advances.next.bind fun _ _ => .pure trivial) (.pure trivial)
    · exact (advances_tagStatement hi _ _).bind fun _ _ => .pure trivial
  · exact .fail trivial rfl

/-- **Statements of a depth are read as those of a larger one**, unless the depth is reached. -/
theorem extends_statementsUpTo {depth' : Nat} (h : depth ≤ depth') :
    Statements.Extends v depth (statementsUpTo depth) (statementsUpTo depth') := by
  induction depth generalizing depth' with
  | zero =>
    exact fun _ _ => .exhaust
  | succ depth ih =>
    obtain ⟨depth', rfl⟩ := Nat.exists_eq_add_of_le' h
    exact advances_statementsRule (ih (Nat.le_add_left depth depth'))

theorem deepens_statements (endTags : Option EndTags) (takeEnd : Bool) :
    Deepens v never fun depth => statementsUpTo depth endTags takeEnd :=
  fun _ _ h => extends_statementsUpTo h endTags takeEnd

theorem deepens_tagRule (tag : Tag) (line : Nat) :
    Deepens v always fun depth => tagRule (statementsUpTo depth) tag line :=
  fun _ _ h => advances_tagRule (extends_statementsUpTo h) tag line

theorem deepens_template :
    Deepens v never fun depth =>
      (do finishTemplate (← statementsUpTo depth none false)) :=
  fun _ _ h => (extends_statementsUpTo h none false).bind fun body _ => advances_finishTemplate body

theorem advances_template (depth : Nat) : Advances v depth never template template :=
  (deepens_statements none false).advances_deepest.bind fun body _ => advances_finishTemplate body

section

variable {context : Context} {state : State}

theorem extends_statements (depth : Nat) :
    Statements.Extends (.same context) depth (statementsUpTo depth) statements :=
  fun endTags takeEnd => (deepens_statements endTags takeEnd).advances depth

/-- The statements inside a tag are read as if there were no depth. -/
theorem tagRule_statements (hin : Inside context state) (tag : Tag) (line : Nat) :
    tagRule statements tag line context state =
      tagRule (statementsUpTo context.tokens.size) tag line context state :=
  (advances_tagRule (extends_statements _) tag line state trivial).eq_of_room
    (hin.room (Nat.le_add_left _ _))

/-- **Statements are what their own rule says, without a depth.** -/
theorem statementsRule_statements (hin : Inside context state) (endTags : Option EndTags)
    (takeEnd : Bool) :
    statementsRule statements endTags takeEnd context state =
      statements endTags takeEnd context state :=
  have hroom : context.tokens.size ≤ state.cursor + (context.tokens.size + 1) :=
    Nat.le_add_left_of_le (Nat.le_succ _)
  calc
    statementsRule statements endTags takeEnd context state
      = statementsUpTo (context.tokens.size + 1) endTags takeEnd context state :=
        (advances_statementsRule (extends_statements _) endTags takeEnd state trivial).eq_of_room
          (hin.room hroom)
    _ = statements endTags takeEnd context state :=
        (deepens_statements endTags takeEnd).eq_deepest hin _ hroom

/-! ## Calls -/

theorem ended_of_toList {front : List Token} {last : Token}
    (htokens : context.tokens.toList = front ++ [last]) (hlast : last.isEof = true) :
    context.Ended := by
  intro i hi
  have hsize : context.tokens.size = front.length + 1 := by
    rw [← Array.length_toList, htokens, List.length_append, List.length_singleton]
  rw [Context.tokenAt, show min i (context.tokens.size - 1) = front.length by omega,
    Array.getD_eq_getD_getElem?, ← Array.getElem?_toList, htokens, List.getElem?_concat_length]
  exact hlast

end

/-- The ways into the grammar: expressions and their parts, tags, statements and templates. -/
inductive Call : Type → Type
  | expression (least : Precedence) (allowArrow : Bool) : Call Expr
  | primary : Call Expr
  | filterChain (operand : Expr) : Call Expr
  | arguments (named allowArrow : Bool) : Call (List (Argument Expr))
  | assignmentTargets : Call (List String)
  | tag (kind : Tag) (line : Nat) : Call (Option Stmt.Kind)
  | statements (endTags : Option EndTags) (takeEnd : Bool) : Call (List Stmt)
  | template : Call Template

namespace Call

variable {α : Type} {context : Context} {state : State}

/-- The least number of tokens that a successful call takes. Statements may be none. -/
def leastTokens : Call α → Nat
  | .statements .. | .template => 0
  | _ => 1

theorem leastTokens_eq (call : Call α) : call.leastTokens = 0 ∨ call.leastTokens = 1 := by
  cases call with
  | statements | template => exact .inl rfl
  | _ => exact .inr rfl

def run : Call α → Parse α
  | .expression least allowArrow => expressionWith least allowArrow
  | .primary => Grammar.primary
  | .filterChain operand => nested fun r => Grammar.filterChain r operand
  | .arguments named allowArrow => nested fun r => Grammar.arguments r named allowArrow
  | .assignmentTargets => Grammar.assignmentTargets
  | .tag kind line => tagRule Grammar.statements kind line
  | .statements endTags takeEnd => Grammar.statements endTags takeEnd
  | .template => Grammar.template

/-- The call, when what it calls may nest as deep as given. -/
def upTo (depth : Nat) : Call α → Parse α
  | .expression least allowArrow => expressionUpTo depth least allowArrow
  | .primary => primaryUpTo depth
  | .filterChain operand => Grammar.filterChain (Rules.upTo depth) operand
  | .arguments named allowArrow => Grammar.arguments (Rules.upTo depth) named allowArrow
  | .assignmentTargets => Grammar.assignmentTargets
  | .tag kind line => tagRule (statementsUpTo depth) kind line
  | .statements endTags takeEnd => statementsUpTo depth endTags takeEnd
  | .template => do finishTemplate (← statementsUpTo depth none false)

/-- The rule that the call follows, with calls of any depth inside it. -/
def rule : Call α → Parse α
  | .expression least allowArrow => expressionRule Rules.unbounded least allowArrow
  | .primary => primaryRule Rules.unbounded
  | .filterChain operand => Grammar.filterChain Rules.unbounded operand
  | .arguments named allowArrow => Grammar.arguments Rules.unbounded named allowArrow
  | .assignmentTargets => Grammar.assignmentTargets
  | .tag kind line => tagRule Grammar.statements kind line
  | .statements endTags takeEnd => statementsRule Grammar.statements endTags takeEnd
  | .template => do finishTemplate (← Grammar.statements none false)

theorem deepens (call : Call α) : Deepens v (fun _ => call.leastTokens = 1) call.upTo := by
  cases call with
  | expression least allowArrow =>
    exact (nests_expression least allowArrow).deepens.mono fun _ _ => trivial
  | primary => exact nests_primary.deepens.mono fun _ _ => trivial
  | filterChain operand => exact (nests_filterChain operand).deepens.mono fun _ _ => trivial
  | arguments named allowArrow =>
    exact (nests_arguments named allowArrow).deepens.mono fun _ _ => trivial
  | assignmentTargets =>
    exact fun _ _ _ => advances_assignmentTargets.mono fun _ _ => trivial
  | tag kind line => exact (deepens_tagRule kind line).mono fun _ _ => trivial
  | statements endTags takeEnd =>
    exact (deepens_statements endTags takeEnd).mono fun _ h => Nat.zero_ne_one h
  | template => exact deepens_template.mono fun _ h => Nat.zero_ne_one h

theorem upTo_eq_run (call : Call α) (hin : Inside context state) (depth : Nat)
    (hdepth : context.tokens.size ≤ state.cursor + depth) :
    call.upTo depth context state = call.run context state := by
  have hdeepest := call.deepens.eq_deepest hin depth hdepth
  cases call with
  | assignmentTargets => rfl
  | tag kind line =>
    have hsize := (deepens_tagRule kind line).eq_deepest hin context.tokens.size
      (Nat.le_add_left _ _)
    exact hdeepest.trans (hsize.symm.trans (tagRule_statements hin kind line).symm)
  | template => exact hdeepest.trans (deepest_bind _ _)
  | expression | primary | filterChain | arguments | statements => exact hdeepest

theorem rule_eq_run (call : Call α) (hin : Inside context state) :
    call.rule context state = call.run context state := by
  cases call with
  | expression least allowArrow => exact expressionRule_unbounded hin least allowArrow
  | primary => exact primaryRule_unbounded hin
  | filterChain operand => exact (nests_filterChain operand).unbounded_eq hin
  | arguments named allowArrow => exact (nests_arguments named allowArrow).unbounded_eq hin
  | statements endTags takeEnd => exact statementsRule_statements hin endTags takeEnd
  | assignmentTargets | tag | template => rfl

/-- **Every call makes progress.** The tokens end with the end of the template, and are any tokens
otherwise; the position is one of them. A call that succeeds has taken a token, unless it asks for
statements, and no call moves back, whether it succeeds or fails. None of them reaches a bound on
repetition or nesting: the levels that it needs are at most as many as there are tokens left, and
the outcome is that of the same rules without a depth. -/
theorem progress (call : Call α) {front : List Token} {last : Token}
    (htokens : context.tokens.toList = front ++ [last]) (hlast : last.isEof = true)
    (hposition : state.cursor < context.tokens.size) :
    (∀ a after, call.run context state = .ok a after →
      state.cursor + call.leastTokens ≤ after.cursor ∧ after.cursor < context.tokens.size) ∧
    (∀ fault after, call.run context state = .error fault after →
      state.cursor ≤ after.cursor ∧ after.cursor < context.tokens.size ∧
        fault.cause.isBound = false) ∧
    (∀ depth, context.tokens.size - state.cursor ≤ depth →
      call.upTo depth context state = call.run context state) ∧
    call.rule context state = call.run context state := by
  have hin : Inside context state := ⟨ended_of_toList htokens hlast, hposition⟩
  have hroom : Room context context.tokens.size state := hin.room (Nat.le_add_left _ _)
  have hcall := call.deepens (v := .same context) _ _ (Nat.le_refl context.tokens.size) state trivial
  have hrun := call.upTo_eq_run hin context.tokens.size hroom.size_le
  refine ⟨fun a after hok => ?_, fun fault after herror => ?_, fun depth hdepth => ?_,
    call.rule_eq_run hin⟩
  · obtain ⟨hm, htook⟩ := hcall.ok (hrun.trans hok)
    refine ⟨?_, hm.lt_size hin.ended hposition⟩
    have hle := hm.le
    rcases call.leastTokens_eq with hzero | hone
    · rwa [hzero]
    · rw [hone]
      exact htook hone
  · obtain ⟨hm, hbound⟩ := hcall.error (hrun.trans herror)
    exact ⟨hm.le, hm.lt_size hin.ended hposition, Bool.eq_false_iff.mpr (hbound hroom)⟩
  · exact call.upTo_eq_run hin depth (by omega)

/-- An array that is never closed: the position moves over its only element and stays there. -/
theorem progress_unclosed :
    let span : Span := ⟨0, 0, 1, 1⟩
    let context : Context := ⟨Dialect.core, "", #[⟨.punctuation '[', span⟩,
      ⟨.number (.int 1), span⟩, ⟨.eof, span⟩]⟩
    (∃ after, Call.primary.run context { cursor := 1 } =
        .ok (Expr.constant (.int 1) 1) after ∧ 1 + 1 ≤ after.cursor ∧ after.cursor < 3) ∧
      ∃ fault after, Call.primary.run context {} = .error fault after ∧
        (0 ≤ after.cursor ∧ after.cursor < 3 ∧ fault.cause.isBound = false) ∧
        ∀ depth, 3 ≤ depth → Call.primary.upTo depth context {} = .error fault after := by
  intro span context
  have htokens : context.tokens.toList =
      [⟨.punctuation '[', span⟩, ⟨.number (.int 1), span⟩] ++ [⟨.eof, span⟩] := rfl
  have hvalue : Call.primary.run context { cursor := 1 } =
      .ok (Expr.constant (.int 1) 1) { cursor := 2 } := rfl
  have harray : Call.primary.run context {} =
      .error ⟨.expected (some "An array element must be followed by a comma") .eof
        "\"punctuation\" with value \",\"", 1⟩ { cursor := 2 } := rfl
  have hstart : ({} : State).cursor < context.tokens.size := Nat.zero_lt_succ 2
  have hsecond : ({ cursor := 1 } : State).cursor < context.tokens.size := Nat.one_lt_succ_succ 1
  obtain ⟨hok, -⟩ := Call.primary.progress htokens rfl hsecond
  obtain ⟨-, herror, hdepth, -⟩ := Call.primary.progress htokens rfl hstart
  exact ⟨⟨_, hvalue, hok _ _ hvalue⟩, _, _, harray, herror _ _ harray,
    fun depth hle => (hdepth depth hle).trans harray⟩

end Call

end TwigToLatte.Grammar
