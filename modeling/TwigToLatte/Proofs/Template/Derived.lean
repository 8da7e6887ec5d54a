import TwigToLatte.Proofs.Lexer.Step
import TwigToLatte.Proofs.Parse.Positions
import TwigToLatte.Proofs.Template.Origin

/-!
# The rules of statements answer what is derived

The rules are followed through their runs. Where they succeed, what they answer is derived, and where
they fail, they complain on the line of a token and break no invariant of their own.

* `Stops` — statements are derived up to an end tag, or to the end of the template.
* `Statements.Derive` — a rule of statements whose answers are derived.
* `derives_branchTag`, `derives_blockTag`, … — the tags, for such a rule of the statements inside.
* `Statements.Derive.rule` — **the rule of statements, for a rule of the statements inside them**.
* `Finishes`, `derives_parse` — **the statements of a template are derived from its tokens**.
* `satisfies_parse` — every template that a source holds satisfies what is known of statements where
  they are read.
* `lined_template` — a template that is read has its lines there, or the fault has.
-/

namespace TwigToLatte.Grammar

open Parse

/-! ## Rules whose answers are derived -/

/-- The statements are derived up to an end tag, the name of which may be taken too, or to the end
of the template. -/
def Stops (O : Opening) (context : Context) (endTags : Option EndTags) (takeEnd : Bool)
    (state : State) (body : List Stmt) (after : State) : Prop :=
  ∃ m, DerivesBy O context state (.body body) m ∧
    match endTags with
    | none => after = m ∧ (context.tokenAt m.cursor).kind = .eof
    | some endTags =>
      ∃ m', Closes context endTags.names m m' ∧ if takeEnd then Passes context m' after else after = m'

/-- The statements that the rule answers are derived. -/
def Statements.Derive (inner : Statements) (O : Opening) (context : Context) (L : Nat → Prop) :
    Prop :=
  ∀ (endTags : Option EndTags) (takeEnd : Bool) (state : State), state.scope.Lined L →
    Ensures context L state (inner endTags takeEnd) (Stops O context endTags takeEnd state)

/-- The statement that the rule of a tag answers is derived, from the state before the tag on. -/
abbrev DerivesTag (O : Opening) (context : Context) (L : Nat → Prop) (start state : State)
    (line : Nat) (rule : Parse Stmt.Kind) : Prop :=
  Ensures context L state rule fun kind after =>
    DerivesBy O context start (.statement (some ⟨kind, line⟩)) after

section

variable {O : Opening} {context : Context} {L : Nat → Prop} [OnLines context L]
  {start state : State} {line : Nat} (hs : state.scope.Lined L)

section

include hs

omit [OnLines context L] in
theorem lined_of_passes {after : State} (h : Passes context state after) : after.scope.Lined L :=
  hs.of_eq h.scope_eq

theorem reads_expression : Ensures context L state expression fun e after =>
    expression context state = .ok e after ∧ e.Lined L ∧ after.scope.Lined L :=
  (Yields.ensures (yields_expression hs.holders.admits) rfl).with_run.mono fun _ _ h =>
    ⟨h.1, h.2.2, lined_of_passes hs h.2.1⟩

theorem reads_inclusion {template : Expr} (htemplate : template.Lined L) :
    Ensures context L state (inclusion template) fun included after =>
      inclusion template context state = .ok included after ∧ after.scope.Lined L :=
  (Yields.ensures (yields_inclusion hs.holders.admits htemplate) rfl).with_run.mono fun _ _ h =>
    ⟨h.1, lined_of_passes hs h.2.1⟩

theorem reads_targets : Ensures context L state assignmentTargets fun names after =>
    assignmentTargets context state = .ok names after ∧ names ≠ [] ∧ after.scope.Lined L :=
  (Yields.ensures yields_assignmentTargets rfl).with_run.mono fun _ _ h =>
    ⟨h.1, h.2.2.1, lined_of_passes hs h.2.1⟩

theorem reads_name : Ensures context L state expectName fun name after =>
    expectName context state = .ok name after ∧ after.scope.Lined L :=
  passes_expectName.with_run.mono fun _ _ h => ⟨h.1, lined_of_passes hs h.2⟩

end

variable (hO : Opening.Sound O context L) {inner : Statements} (hi : inner.Derive O context L)

include hs hO hi

theorem Statements.Derive.upTo (endTags : EndTags) :
    Ensures context L state (inner (some endTags) false) fun body after =>
      ∃ m, DerivesBy O context state (.body body) m ∧ Closes context endTags.names m after ∧
        after.scope.Lined L := by
  refine (hi (some endTags) false state hs).mono fun body after hstops => ?_
  obtain ⟨m, hinside, m', hcloses, rfl⟩ := hstops
  refine ⟨m, hinside, hcloses, ?_⟩
  rw [hcloses.after_eq]
  exact (hinside.lined hO hs).2

omit [OnLines context L] hO in
theorem Statements.Derive.through (endTags : EndTags) :
    Ensures context L state (inner (some endTags) true) fun body after =>
      DerivesBy O context state (.region endTags.names body) after := by
  refine (hi (some endTags) true state hs).mono fun body after hstops => ?_
  obtain ⟨m, hinside, m', hcloses, htail⟩ := hstops
  exact .region (.refl _) hinside hcloses htail

omit hO in
theorem derives_region (tag : Tag) (endName : String) :
    Ensures context L state (region inner tag line endName) fun body after =>
      DerivesBy O context state (.region [endName] body) after := by
  refine .bind passes_expectBlockEnd fun _ m hhead => ?_
  refine .bind (hi.through (lined_of_passes hs hhead) _) fun body m1 hbody => ?_
  refine .bind passes_expectBlockEnd fun _ m4 htail => .pure ?_
  exact (hbody.before_pass htail).after_pass hhead

/-! ### Tags with a body -/

/-- A condition and its body, up to the keyword of the end tag. -/
theorem derives_guardedBody :
    Ensures context L state (guardedBody inner line) fun branch after =>
      (∃ m, expression context state = .ok branch.1 m ∧
        DerivesBy O context m (.region ["elseif", "else", "endif"] branch.2) after) := by
  refine .bind (reads_expression hs) fun test m htest => ?_
  refine .bind passes_expectBlockEnd fun _ m1 hhead => ?_
  refine .bind (hi.upTo (lined_of_passes htest.2.2 hhead) hO _) fun body m2 hbody => .pure ?_
  obtain ⟨m3, hinside, hcloses, -⟩ := hbody
  exact ⟨m, htest.1, .region hhead hinside hcloses (.refl _)⟩

omit hs in
theorem derives_moreBranches (hstart : start.scope.Lined L) {first : Expr × List Stmt}
    (hfirst : DerivesBy O context start (.branches [first]) state) :
    Ensures context L state (moreBranches inner line first) fun answer after =>
      ∃ m m', DerivesBy O context start (.branches answer.1) m ∧
        DerivesBy O context m (.alternative "endif" answer.2) m' ∧ Passes context m' after := by
  -- After `else` only `endif` may come, so no later branch takes the place of the alternative.
  refine .loop (fun answer s => ∃ m, DerivesBy O context start (.branches answer.1) m ∧
      DerivesBy O context m (.alternative "endif" answer.2) s ∧ (answer.2.isSome = true →
        (context.tokenAt s.cursor).name? = some "endif"))
    ⟨state, hfirst, .noAlternative, nofun⟩ fun answer s hinv => ?_
  obtain ⟨branches, otherwise⟩ := answer
  obtain ⟨m, hbranches, hotherwise, hlast⟩ := hinv
  have hs : (s.skip 1).scope.Lined L := (hotherwise.lined hO (hbranches.lined hO hstart).2).2
  refine .bind ensures_next fun token s1 hnext => ?_
  obtain ⟨rfl, rfl⟩ := hnext
  have hname : ∀ {name : String}, (context.tokenAt s.cursor).name? = some name →
      Passes context s (s.skip 1) := by
    intro name hname
    exact .skip (Token.isInner_of_name? (by rw [hname]; rfl))
  have hnone : (context.tokenAt s.cursor).name? ≠ some "endif" → otherwise = none := by
    intro hne
    cases otherwise with
    | none => rfl
    | some body => exact absurd (hlast rfl) hne
  split
  · rename_i hkeyword
    obtain rfl := hnone (by rw [hkeyword]; decide)
    cases hotherwise
    refine .bind passes_expectBlockEnd fun _ s2 hhead => ?_
    refine .bind (hi.upTo (lined_of_passes hs hhead) hO _) fun body s3 hbody => .pure ?_
    obtain ⟨s4, hinside, hcloses, -⟩ := hbody
    refine ⟨s, hbranches, ?_, fun _ => ?_⟩
    · exact .alternative (hname hkeyword) (.region hhead hinside hcloses (.refl _))
    · obtain ⟨name, hmem, hend⟩ := hcloses.keyword
      rw [hcloses.after_eq, State.cursor_skip, hend, List.mem_singleton.mp hmem]
  · rename_i hkeyword
    obtain rfl := hnone (by rw [hkeyword]; decide)
    cases hotherwise
    refine .bind (derives_guardedBody hs hO hi) fun branch s2 hbranch => .pure ?_
    obtain ⟨s3, htest, hinside⟩ := hbranch
    exact ⟨s2, .nextBranch hbranches (hname hkeyword) htest hinside, .noAlternative, nofun⟩
  · rename_i hkeyword
    exact .pure ⟨m, s, hbranches, hotherwise, hname hkeyword⟩
  · exact .fail (OnLines.token _) rfl

theorem derives_branchTag (ho : O .branch line start state) :
    DerivesTag O context L start state line (branchTag inner line) := by
  refine .bind (derives_guardedBody hs hO hi) fun first m hfirst => ?_
  obtain ⟨m1, htest, hinside⟩ := hfirst
  refine .bind (derives_moreBranches hO hi hs (.firstBranch htest hinside)) fun answer m2 hanswer => ?_
  obtain ⟨m3, m4, hbranches, hotherwise, htail⟩ := hanswer
  refine .bind passes_expectBlockEnd fun _ m5 hend => .pure ?_
  exact .branch ho hbranches hotherwise (htail.trans hend)

theorem derives_loopTag (ho : O .loop line start state) :
    DerivesTag O context L start state line (loopTag inner line) := by
  refine .bind (reads_targets hs) fun targets m htargets => ?_
  obtain ⟨htargets, hne, hs⟩ := htargets
  refine .bind (passes_expectOperator "in") fun _ m1 hin => ?_
  refine .bind (reads_expression (lined_of_passes hs hin)) fun sequence m2 hsequence => ?_
  obtain ⟨hsequence, -, hs⟩ := hsequence
  refine .bind passes_expectBlockEnd fun _ m3 hhead => ?_
  refine .bind (hi.upTo (lined_of_passes hs hhead) hO _) fun body m4 hbody => ?_
  obtain ⟨m5, hinside, hcloses, hs⟩ := hbody
  obtain ⟨endName, -, hend⟩ := hcloses.keyword
  have hname : Passes context m4 (m4.skip 1) := by
    refine .skip (Token.isInner_of_name? ?_)
    rw [hcloses.after_eq, State.cursor_skip, hend]
    rfl
  refine .bind ensures_next fun token m6 hnext => ?_
  obtain ⟨rfl, rfl⟩ := hnext
  extract_lets finish
  have hfinish : ∀ otherwise m7 m8, DerivesBy O context m4 (.alternative "endfor" otherwise) m7 →
      Passes context m7 m8 → Ensures context L m8 (finish otherwise) fun kind after =>
        DerivesBy O context start (.statement (some ⟨kind, line⟩)) after := by
    intro otherwise m7 m8 hotherwise htail
    have hregion := DerivesBy.region hhead hinside hcloses (.refl _)
    refine .bind passes_expectBlockEnd fun _ m9 hlast => ?_
    match targets with
    | key :: value :: rest =>
      exact .pure (.loop ho htargets hin hsequence hregion hotherwise (htail.trans hlast)
        (List.prefix_append [key, value] rest))
    | [value] =>
      exact .pure (.loop ho htargets hin hsequence hregion hotherwise (htail.trans hlast)
        (List.prefix_refl [value]))
    | [] => exact absurd rfl hne
  split
  · refine .bind passes_expectBlockEnd fun _ m7 helse => ?_
    refine .bind (hi.through (lined_of_passes hs (hname.trans helse)) _) fun otherwise m8 hbody => ?_
    exact .pure_bind (hfinish _ m8 m8 (.alternative hname (hbody.after_pass helse)) (.refl _))
  · exact .pure_bind (hfinish none m4 _ .noAlternative hname)

omit hO in
theorem derives_assignTag (ho : O .assign line start state) :
    DerivesTag O context L start state line (assignTag inner line) := by
  refine .bind (reads_targets hs) fun names m hnames => ?_
  obtain ⟨hnames, -, hs⟩ := hnames
  refine .bind (passes_nextIfOperator "=") fun equals m1 hequals => ?_
  have hs := lined_of_passes hs hequals.2
  split
  · refine .bind (Yields.ensures (yields_assignedValues hs.holders.admits) rfl).with_run
      fun values m2 hvalues => ?_
    refine .bind passes_expectBlockEnd fun _ m3 htail => ?_
    split
    · exact .pure (.single ho (.assign hnames hequals.2 hvalues.1 htail))
    · exact .currentLine (.fail (OnLines.token _) rfl)
  · split
    · refine .bind (derives_region hs hi .assign "endset") fun body m2 hbody => .pure ?_
      exact .around ho (.capture hnames) (hbody.after_pass hequals.2)
    · exact .currentLine (.fail (OnLines.token _) rfl)

omit hO in
theorem derives_scopeTag (ho : O .scope line start state) :
    DerivesTag O context L start state line (scopeTag inner line) := by
  refine .current ?_
  split
  · exact .bind (derives_region hs hi .scope "endwith") fun body m hbody =>
      .pure (.around ho .scope hbody)
  · refine .bind (reads_expression hs) fun bindings m hbindings => ?_
    obtain ⟨hbindings, -, hs⟩ := hbindings
    refine .bind (passes_nextIfName "only") fun only m1 honly => ?_
    refine .bind (derives_region (lined_of_passes hs honly) hi .scope "endwith")
      fun body m2 hbody => .pure ?_
    exact .around ho (.scopeWith hbindings honly) hbody

theorem derives_applyTag (ho : O .apply line start state) :
    DerivesTag O context L start state line (applyTag inner line) := by
  refine .bind (Yields.ensures (yields_filters hs.holders.admits (hO.line ho)) rfl).with_run
    fun filter m hfilter => ?_
  exact .bind (derives_region (lined_of_passes hs hfilter.2.1) hi .apply "endapply")
    fun body m1 hbody => .pure (.around ho (.apply hfilter.1) hbody)

omit hO in
theorem derives_autoescapeTag (ho : O .autoescape line start state) :
    DerivesTag O context L start state line (autoescapeTag inner line) := by
  refine .bind (Yields.ensures (yields_escapingStrategy hs.holders.admits) rfl).with_run
    fun strategy m hhead => ?_
  exact .bind (derives_region (lined_of_passes hs hhead.2.1) hi .autoescape "endautoescape")
    fun body m1 hbody => .pure (.around ho (.autoescape hhead.1) hbody)

theorem derives_sandboxTag (ho : O .sandbox line start state) :
    DerivesTag O context L start state line (sandboxTag inner line) := by
  refine .bind (derives_region hs hi .sandbox "endsandbox") fun body m hbody => ?_
  refine .bind (.checked fun fault hfault => ?_) fun body' m1 hmarked => .pure ?_
  · obtain ⟨⟨stmt, hstmt, hline⟩, hkind⟩ := fault_of_sandboxed hfault
    have hpart : stmt ∈ bodyParts body :=
      (splits_body body stmt).mpr (.inl (mem_bodyExposed_iff.mpr (.inl hstmt)))
    exact ⟨hline ▸ ((hbody.lined hO hs).1.1 stmt hpart).line, Cause.isBroken_eq_false hkind⟩
  · obtain ⟨hmarked, rfl⟩ := hmarked
    exact .sandbox ho hbody hmarked

omit hO in
theorem derives_cacheTag (ho : O .cache line start state) :
    DerivesTag O context L start state line (cacheTag inner line) := by
  refine .bind (reads_expression hs) fun key m hkey => ?_
  obtain ⟨hkey, -, hs⟩ := hkey
  refine .bind (Yields.ensures (yields_cacheModifiers hs.holders.admits) rfl).with_run
    fun modifiers m1 hmodifiers => ?_
  exact .bind (derives_region (lined_of_passes hs hmodifiers.2.1) hi .cache "endcache")
    fun body m2 hbody => .pure (.around ho (.cache hkey hmodifiers.1) hbody)

/-! ### Blocks, macros and embedded templates -/

omit hO in
/-- The body of a block: statements, or an expression that is printed. -/
theorem derives_blockBody (name : String) :
    Ensures context L state (blockBody inner name line) fun body after =>
      DerivesBy O context state (.region ["endblock"] body) after ∨
        ∃ e, expression context state = .ok e after ∧ body = [⟨.print e, line⟩] := by
  have heof : ∀ token : Token, (token.kind == .blockEnd) = true → token.isEof = false := by
    intro token hkind
    rw [Token.isEof, beq_iff_eq.mp hkind]
    rfl
  refine .bind (ensures_nextIf heof) fun found m hfound => ?_
  obtain ⟨hfound, rfl⟩ := hfound
  cases found with
  | none => exact .bind (reads_expression hs) fun e m1 he => .pure (.inr ⟨e, he.1, rfl⟩)
  | some token =>
    have hkind : ((context.tokenAt state.cursor).kind == .blockEnd) = true := by
      by_contra hne
      rw [if_neg hne] at hfound
      cases hfound
    have hhead : Passes context state (state.skip 1) := .skip (by rw [beq_iff_eq.mp hkind]; rfl)
    refine .bind (hi.through (lined_of_passes hs hhead) _) fun body m1 hbody => ?_
    refine .bind (Yields.ensures (yields_checkEndName .block name) rfl) fun _ m4 hend =>
      .pure (.inl ?_)
    exact (hbody.before_pass hend.1).after_pass hhead

theorem derives_blockTag (ho : O .block line start state) :
    Ensures context L state (blockTag inner line) fun kind after => ∃ name, kind = .block name ∧
      DerivesBy O context start (.statement (some ⟨.block name, line⟩)) after := by
  refine .bind (reads_name hs) fun name m hname => ?_
  obtain ⟨hname, hs⟩ := hname
  refine .getScope ?_
  cases hnew : m.scope.blocks.get? name with
  | some block => exact .currentLine (.fail (OnLines.token _) rfl)
  | none =>
    refine .modifyScope (.modifyScope (.modifyScope ?_))
    refine .bind (derives_blockBody (hs.openBlock name (hO.line ho)) hi name)
      fun body m1 hbody => ?_
    refine .bind passes_expectBlockEnd fun _ m2 htail => ?_
    refine .modifyScope (.modifyScope (.modifyScope (.pure ⟨name, rfl, ?_⟩)))
    rcases hbody with hbody | ⟨e, he, rfl⟩
    · exact .block ho hname hnew (hbody.before_pass htail)
    · exact .shortBlock ho hname hnew he htail

omit hO in
theorem derives_macroTag (ho : O .defineMacro line start state) :
    Ensures context L state (macroTag inner line) fun _ after =>
      DerivesBy O context start (.statement none) after := by
  refine .bind (reads_name hs) fun name m hname => ?_
  obtain ⟨hname, hs⟩ := hname
  refine .bind (Yields.ensures (yields_params hs.holders.admits) rfl).with_run
    fun params m1 hparams => ?_
  refine .bind passes_expectBlockEnd fun _ m2 hhead => ?_
  have hs := (lined_of_passes hs (hparams.2.1.trans hhead)).enter
  refine .modifyScope ?_
  refine .bind (hi.through hs _) fun body m3 hbody => ?_
  refine .bind (Yields.ensures (yields_checkEndName .defineMacro name) rfl) fun _ m6 hend => ?_
  refine .modifyScope ?_
  refine .bind passes_expectBlockEnd fun _ m7 hlast => .modifiedScope ?_
  have hhead : Passes context { m1 with scope := m1.scope.enter }
      { m2 with scope := m2.scope.enter } := by
    rw [hhead.scope_eq]
    exact hhead.withScope _
  have hlast' : Passes context m6 { m7 with scope := m6.scope } := hlast.withScope m6.scope
  have hderived := DerivesBy.defineMacro ho hname hparams.1
    ((hbody.before_pass (hend.1.trans hlast')).after_pass hhead)
  have hscope : m7.scope = m6.scope.leave := hlast.scope_eq
  rw [hscope]
  exact hderived

omit [OnLines context L] hs hO hi in
/-- The scope of a template that ends is as it was entered, but for what is defined in it. -/
theorem ensures_finishTemplate {body : List Stmt}
    (hbody : Satisfied (Stmt.Known L fun x => L x.line) (Expr.Lined L) (bodyParts body))
    (hstack : state.scope.blockStack = []) (himports : state.scope.imports.length = 1) :
    Ensures context L state (finishTemplate body) fun t after =>
      t = ⟨body, state.scope.blocks.entries, state.scope.macros.entries, state.scope.parent, []⟩ ∧
        (state.scope.parent.isSome = true → checkChild body = .ok ()) ∧
        { after with scope := state.scope } = state := by
  refine .getScope ?_
  extract_lets finish
  have hfinish : ∀ u, Ensures context L state (finish u) fun t after =>
      t = ⟨body, state.scope.blocks.entries, state.scope.macros.entries, state.scope.parent, []⟩ ∧
        { after with scope := state.scope } = state := by
    intro u
    dsimp only [finish]
    rw [hstack, himports, if_neg (by simp)]
    exact .modifyScope (.pure ⟨rfl, rfl⟩)
  split
  · refine .bind (.checked fun fault hfault => ?_) fun u m hchild => ?_
    · obtain ⟨⟨stmt, hstmt, hline⟩, hkind⟩ := fault_of_checkChild hfault
      have hpart : stmt ∈ bodyParts body := (splits_body body stmt).mpr (.inl hstmt)
      exact ⟨hline ▸ (hbody.1 stmt hpart).line, Cause.isBroken_eq_false hkind⟩
    · obtain ⟨hchild, rfl⟩ := hchild
      exact (hfinish ()).mono fun t after h => ⟨h.1, fun _ => hchild, h.2⟩
  · rename_i hnone
    exact (hfinish ()).mono fun t after h => ⟨h.1, fun hsome => absurd hsome hnone, h.2⟩

omit hs in
/-- An embedded template, whose scope is left at its end. -/
theorem derives_embeddedTemplate {parent : Expr} (hparent : parent.Lined L) (endTags : EndTags) :
    Ensures context L state (embeddedTemplate inner parent endTags) fun t after =>
      ∃ body last, DerivesBy O context { state with scope := { parent := some parent } }
          (.region endTags.names body) last ∧
        t = ⟨body, last.scope.blocks.entries, last.scope.macros.entries, last.scope.parent, []⟩ ∧
        (last.scope.parent.isSome = true → checkChild body = .ok ()) ∧
        after = { last with scope := state.scope } := by
  have hs : Scope.Lined L { parent := some parent } :=
    .fresh (List.forall_mem_singleton.mpr hparent)
  refine .withScope (.bind (hi.through hs _) fun body m hbody => ?_)
  have hstacks := hbody.stacks hO Nat.one_pos
  refine (ensures_finishTemplate (hbody.lined hO hs).1 hstacks.blockStack_eq
    hstacks.length_imports).mono fun t after hafter => ?_
  refine ⟨body, m, hbody, hafter.1, hafter.2.1, ?_⟩
  rw [← hafter.2.2]

theorem derives_embedTag (ho : O .embed line start state) :
    DerivesTag O context L start state line (embedTag inner line) := by
  refine .bind (reads_expression hs) fun parent m hparent => ?_
  obtain ⟨hrun, hparent, hs⟩ := hparent
  refine .bind (reads_inclusion hs hparent) fun included m1 hincluded => ?_
  refine .bind (derives_embeddedTemplate hO hi hparent _) fun template m2 htemplate => ?_
  obtain ⟨body, last, hinside, rfl, hchild, rfl⟩ := htemplate
  refine .bind passes_expectBlockEnd fun _ m3 htail => .pure ?_
  have htail' : Passes context last { m3 with scope := last.scope } := htail.withScope last.scope
  have hscope : m3.scope = m1.scope := htail.scope_eq
  have hderived := DerivesBy.embed ho hrun hincluded.1 (hinside.before_pass htail') hchild
  rw [← hscope] at hderived
  exact hderived

/-! ### Single tags -/

section

omit hi hO

theorem derives_evaluateTag (ho : O .evaluate line start state) :
    DerivesTag O context L start state line evaluateTag :=
  .bind (reads_expression hs) fun _ _ he => .bind passes_expectBlockEnd fun _ _ htail =>
    .pure (.single ho (.evaluate he.1 htail))

omit hs in
theorem derives_flushTag (ho : O .flush line start state) :
    DerivesTag O context L start state line flushTag :=
  .bind passes_expectBlockEnd fun _ _ htail => .pure (.single ho (.flush htail))

theorem derives_deprecatedTag (ho : O .deprecated line start state) :
    DerivesTag O context L start state line (deprecatedTag line) := by
  refine .bind (reads_expression hs) fun e m he => ?_
  refine .bind passes_expectBlockEnd fun _ m1 htail => ?_
  cases e.string? with
  | none => exact .pure_bind (.pure (.single ho (.deprecated he.1 htail)))
  | some message =>
    refine .read (.bind (passes_record _) fun _ m2 hrecord => .pure ?_)
    exact .single ho (.deprecated he.1 (htail.trans hrecord))

omit hs [OnLines context L] in
theorem ensures_extendsMisuse? :
    Ensures context L state extendsMisuse? fun misuse after => after = state ∧ (misuse = none →
      state.scope.blockStack = [] ∧ state.scope.imports.length = 1 ∧ state.scope.parent = none) := by
  refine .enclosingBlock ?_
  split
  · exact .pure ⟨rfl, nofun⟩
  rename_i hblock
  refine .isMainScope ?_
  split
  · exact .pure ⟨rfl, nofun⟩
  rename_i hmain
  refine .getScope ?_
  split
  · exact .pure ⟨rfl, nofun⟩
  rename_i hparent
  refine .pure ⟨rfl, fun _ => ⟨?_, ?_, ?_⟩⟩
  · simpa using hblock
  · simpa using hmain
  · simpa using hparent

include hO in
theorem derives_inheritTag (ho : O .inherit line start state) :
    DerivesTag O context L start state line (inheritTag line) := by
  refine .bind ensures_extendsMisuse?.with_run fun misuse m hmisuse => ?_
  obtain ⟨hmisuse, rfl, -⟩ := hmisuse
  cases misuse with
  | some misuse => exact .fail (hO.line ho) rfl
  | none =>
    refine .bind (reads_expression hs) fun parent m1 hparent => ?_
    refine .bind passes_expectBlockEnd fun _ m2 htail => ?_
    exact .modifyScope (.pure (.inherit ho hmisuse hparent.1 htail))

include hO in
theorem derives_useTag (ho : O .useBlocks line start state) :
    DerivesTag O context L start state line (useTag line) := by
  refine .bind (reads_expression hs) fun template m htemplate => ?_
  split
  · exact .fail (hO.line ho) rfl
  refine .bind (passes_nextIfName "with") fun named m1 hnamed => ?_
  extract_lets finish
  have hfinish : ∀ targets m2, Passes context m1 m2 →
      Ensures context L m2 (finish targets) fun kind after =>
        DerivesBy O context start (.statement (some ⟨kind, line⟩)) after := by
    intro targets m2 htargets
    refine .bind passes_expectBlockEnd fun _ m3 htail => ?_
    exact .modifyScope (.pure (.useBlocks ho htemplate.1 (hnamed.trans (htargets.trans htail))))
  split
  · exact .bind (Yields.ensures (.commaList yields_aliasedName) rfl) fun targets m2 h =>
      hfinish targets m2 h.1
  · exact .pure_bind (hfinish [] m1 (.refl m1))

theorem derives_importTag (ho : O .importAs line start state) :
    DerivesTag O context L start state line importTag := by
  refine .bind (reads_expression hs) fun template m htemplate => ?_
  refine .bind (passes_expectNameValue "as") fun _ m1 has => ?_
  refine .bind passes_expectName fun localName m2 hname => ?_
  refine .bind passes_expectBlockEnd fun _ m3 htail => ?_
  refine .modifyScope (.pure ?_)
  exact .importAs ho htemplate.1 (has.trans (hname.trans htail))

omit hs [OnLines context L] in
theorem ensures_addMacros (holder : Expr) : ∀ (targets : List (String × String)) {state : State},
    Ensures context L state
      (targets.forM fun (name, localName) =>
        addSymbol .function localName { name, object := some holder })
      fun _ after => after = { state with scope := state.scope.addMacros targets holder }
  | [], _ => .pure rfl
  | _ :: rest, _ => .modifyScope (ensures_addMacros holder rest)

theorem derives_importNamesTag (ho : O .importNames line start state) :
    DerivesTag O context L start state line (importNamesTag line) := by
  refine .bind (reads_expression hs) fun template m htemplate => ?_
  refine .bind (passes_expectNameValue "import") fun _ m1 himport => ?_
  refine .bind (Yields.ensures (.commaList yields_aliasedName) rfl) fun targets m2 htargets => ?_
  refine .bind passes_expectBlockEnd fun _ m3 htail => ?_
  refine .bind passes_freshName fun holder m4 hholder => ?_
  refine .bind (ensures_addMacros _ targets) fun _ m5 hm5 => .pure ?_
  subst hm5
  exact .importNames ho htemplate.1 (himport.trans (htargets.1.trans (htail.trans hholder)))

theorem derives_inclusionTag (ho : O .inclusion line start state) :
    DerivesTag O context L start state line inclusionTag :=
  .bind (reads_expression hs) fun _ _ htemplate =>
    .bind (reads_inclusion htemplate.2.2 htemplate.2.1) fun _ _ hincluded =>
      .pure (.single ho (.inclusion htemplate.1 hincluded.1))

end

theorem derives_tagRule (tag : Tag) (ho : O tag line start state) :
    Ensures context L state (tagRule inner tag line) fun kind after =>
      DerivesBy O context start (.statement (kind.map (⟨·, line⟩))) after := by
  cases tag with
  | apply => exact .map (derives_applyTag hs hO hi ho) fun _ _ h => h
  | autoescape => exact .map (derives_autoescapeTag hs hi ho) fun _ _ h => h
  | block => exact .map (derives_blockTag hs hO hi ho) fun _ _ ⟨_, hkind, h⟩ => hkind ▸ h
  | cache => exact .map (derives_cacheTag hs hi ho) fun _ _ h => h
  | deprecated => exact .map (derives_deprecatedTag hs ho) fun _ _ h => h
  | evaluate => exact .map (derives_evaluateTag hs ho) fun _ _ h => h
  | embed => exact .map (derives_embedTag hs hO hi ho) fun _ _ h => h
  | inherit => exact .map (derives_inheritTag hs hO ho) fun _ _ h => h
  | flush => exact .map (derives_flushTag ho) fun _ _ h => h
  | loop => exact .map (derives_loopTag hs hO hi ho) fun _ _ h => h
  | importNames => exact .map (derives_importNamesTag hs ho) fun _ _ h => h
  | branch => exact .map (derives_branchTag hs hO hi ho) fun _ _ h => h
  | importAs => exact .map (derives_importTag hs ho) fun _ _ h => h
  | inclusion => exact .map (derives_inclusionTag hs ho) fun _ _ h => h
  | defineMacro => exact .bind (derives_macroTag hs hi ho) fun _ _ h => .pure h
  | sandbox => exact .map (derives_sandboxTag hs hO hi ho) fun _ _ h => h
  | assign => exact .map (derives_assignTag hs hi ho) fun _ _ h => h
  | useBlocks => exact .map (derives_useTag hs hO ho) fun _ _ h => h
  | scope => exact .map (derives_scopeTag hs hi ho) fun _ _ h => h

/-! ### Statements -/

omit hs hO hi in
theorem ensures_tagName : Ensures context L state tagName fun name after =>
    (context.tokenAt state.cursor).name? = some name ∧ after = state := by
  refine .current ?_
  cases hname : (context.tokenAt state.cursor).name? with
  | none => exact .fail (OnLines.token _) rfl
  | some name => exact .pure ⟨rfl, rfl⟩

omit hO hi in
theorem ensures_printRule : Ensures context L state printRule fun kind after =>
    ∃ e m, kind = .print e ∧ expression context state = .ok e m ∧ Passes context m after :=
  .bind (reads_expression hs) fun e m he => .bind passes_expectVarEnd fun _ _ htail =>
    .pure ⟨e, m, rfl, he.1, htail⟩

/-- A tag of the dialect with its keyword, after its delimiter. -/
theorem derives_tagStatement {endTags : Option EndTags} {name : String}
    (hstart : (context.tokenAt state.cursor).kind = .blockStart)
    (hname : (context.tokenAt (state.cursor + 1)).name? = some name) :
    Ensures context L (state.skip 1) (tagStatement inner endTags name) fun stmt after =>
      DerivesBy O context state (.statement stmt) after := by
  refine .currentLine (.read ?_)
  cases htag : context.dialect.tag? name with
  | none =>
    cases endTags with
    | none => exact .read (.fail (OnLines.token _) rfl)
    | some endTags => exact .fail (OnLines.token _) rfl
  | some tag =>
    refine .bind ensures_next fun token m hnext => ?_
    obtain ⟨-, rfl⟩ := hnext
    refine .bind (ensures_record _) fun _ m1 hrecord => ?_
    have hopens : Opens context tag (context.tokenAt (state.skip 1).cursor).line state m1 :=
      ⟨hstart, ⟨name, hname, htag⟩, rfl, by rw [hrecord]; rfl, by rw [hrecord]; rfl⟩
    exact .bind (derives_tagRule (hs.of_eq hopens.scope_eq) hO hi tag (hO.of_opens hopens))
      fun kind m2 hkind => .pure hkind

omit hs in
/-- **The rule of statements**, for a rule of the statements inside them. -/
theorem Statements.Derive.rule : Statements.Derive (statementsRule inner) O context L := by
  intro endTags takeEnd start hstart
  refine .loop (fun body s => DerivesBy O context start (.body body) s) .nil
    fun body s hbody => ?_
  have hs := (hbody.lined hO hstart).2
  have hliteral : ∀ {kind : Stmt.Kind}, literal? (context.tokenAt s.cursor).kind = some kind →
      DerivesBy O context start
        (.body (body ++ [⟨kind, (context.tokenAt s.cursor).line⟩])) (s.skip 1) :=
    fun h => .snoc hbody (.literal h)
  refine .current ?_
  split
  · -- The template ends, which is no place for an end tag.
    rename_i hkind
    cases endTags with
    | none => exact .pure_bind (.pure ⟨s, hbody, rfl, hkind⟩)
    | some endTags =>
      have hend : Ensures context L s (endOfStatements (some endTags) body) fun _ _ => False :=
        .currentLine (.fail (OnLines.token _) rfl)
      exact .bind hend fun _ _ => False.elim
  · rename_i hkind
    refine .bind ensures_next fun _ s1 hnext => .pure ?_
    rw [hnext.2]
    exact hliteral (by rw [hkind]; rfl)
  · rename_i hkind
    refine .bind ensures_next fun _ s1 hnext => .pure ?_
    rw [hnext.2]
    exact hliteral (by rw [hkind]; rfl)
  · rename_i hkind
    refine .bind ensures_next fun _ s1 hnext => .pure ?_
    rw [hnext.2]
    exact hliteral (by rw [hkind]; rfl)
  · rename_i hkind
    refine .bind ensures_next fun _ s1 hnext => ?_
    obtain ⟨-, rfl⟩ := hnext
    refine .bind (ensures_printRule hs) fun kind s2 hprint => .pure ?_
    obtain ⟨e, s3, rfl, he, htail⟩ := hprint
    exact .snoc hbody (.print hkind he htail)
  · rename_i hkind
    refine .bind ensures_next fun _ s1 hnext => ?_
    obtain ⟨-, rfl⟩ := hnext
    refine .bind ensures_tagName fun name s1 hname => ?_
    obtain ⟨hname, rfl⟩ := hname
    split
    · rename_i hend
      cases endTags with
      | none => cases hend
      | some endTags =>
        have hcloses : Closes context endTags.names s (s.skip 1) :=
          ⟨hkind, ⟨name, by simpa using hend, hname⟩, rfl⟩
        split
        · rename_i htake
          refine .bind (passes_next (Token.isInner_of_name? ?_)) fun _ s2 hnext => .pure ?_
          · rw [hname]
            rfl
          · refine ⟨s, hbody, _, hcloses, ?_⟩
            rw [if_pos htake]
            exact hnext.2
        · rename_i htake
          refine .pure ⟨s, hbody, _, hcloses, ?_⟩
          rw [if_neg htake]
    · refine .bind (derives_tagStatement hs hO hi hkind hname) fun stmt s2 hstmt => .pure ?_
      exact .snoc hbody hstmt
  · exact .fail (OnLines.token _) rfl

/-! ## Templates -/

omit hs hi

theorem Statements.Derive.statementsUpTo (depth : Nat) :
    Statements.Derive (statementsUpTo depth) O context L := by
  induction depth with
  | zero => exact fun _ _ _ _ => .currentLine (.fail (OnLines.token _) rfl)
  | succ depth ih => exact Statements.Derive.rule hO ih

theorem Statements.Derive.statements : Statements.Derive statements O context L := by
  intro endTags takeEnd state hs
  rw [Ensures, Grammar.statements, bind_eq_of_ok remaining_eq]
  exact Statements.Derive.statementsUpTo hO _ endTags takeEnd state hs

end

/-- The template that is made of statements and of the scope after them. -/
structure Finishes (context : Context) (state : State) (t : Template) (last : State) : Prop where
  derives : Derives context state (.body t.body) last
  eof : (context.tokenAt last.cursor).kind = .eof
  eq : t = ⟨t.body, last.scope.blocks.entries, last.scope.macros.entries, last.scope.parent, []⟩
  child : t.parent.isSome = true → checkChild t.body = .ok ()

section

variable {context : Context} {L : Nat → Prop} [OnLines context L] {log : Array Log.Record}

theorem derives_template :
    Ensures context L { log } template fun t _ => ∃ last, Finishes context { log } t last := by
  have hfresh : Scope.Lined L {} := .fresh nofun
  refine .bind (Statements.Derive.statements Opening.sound_opens none false { log } hfresh)
    fun body last hlast => ?_
  obtain ⟨m, hbody, rfl, heof⟩ := hlast
  have hstacks := hbody.stacks (Opening.sound_opens (L := L)) Nat.one_pos
  refine (ensures_finishTemplate (hbody.lined Opening.sound_opens hfresh).1 hstacks.blockStack_eq
    hstacks.length_imports).mono fun t after hafter => ?_
  obtain ⟨rfl, hchild, -⟩ := hafter
  exact ⟨last, hbody, heof, rfl, hchild⟩

/-- **A template that is read has its lines there, or the fault has.** -/
theorem lined_template :
    Ensures context L { log } template fun t _ => ∀ m, t.Module m → m.Lined L := by
  refine derives_template.mono fun t _ ⟨last, hlast⟩ => ?_
  obtain ⟨hbody, hscope⟩ := hlast.derives.lined (L := L) Opening.sound_opens (.fresh nofun)
  rw [hlast.eq]
  exact hscope.template hbody

end

end TwigToLatte.Grammar

namespace TwigToLatte

open Parse

/-! ## Sources -/

/-- The tokens of a text end with the end of the template. -/
theorem ended_tokenize {dialect : Dialect} {template text : String} {symbols : List String}
    {tokens : Array Token} (h : Lexer.tokenize text symbols = .ok tokens) :
    (Context.mk dialect template tokens).Ended ∧ 0 < tokens.size := by
  obtain ⟨last, -, -, -, rfl⟩ := Lexer.tokenize_eq_ok h
  have hsize : (last.take 0 .eof).tokens.size = last.tokens.size + 1 := Array.size_push _
  refine ⟨fun i hi => ?_, hsize ▸ Nat.succ_pos _⟩
  dsimp only at hi
  have hmin : min i ((last.take 0 .eof).tokens.size - 1) = last.tokens.size := by omega
  rw [Context.tokenAt, hmin]
  simp [Lexer.Scan.take, Token.isEof]

theorem parse_cases (dialect : Dialect) (source : Source) :
    (∃ fault, Lexer.tokenize source.text dialect.operatorSymbols = .error fault ∧
      (Template.parse dialect source).result = .error fault) ∨
    ∃ tokens log, Lexer.tokenize source.text dialect.operatorSymbols = .ok tokens ∧
      (Template.parse dialect source).result =
        match Grammar.template ⟨dialect, source.displayName, tokens⟩ { log } with
        | .ok t _ => .ok t
        | .error fault _ => .error fault := by
  unfold Template.parse
  cases h : Lexer.tokenize source.text dialect.operatorSymbols with
  | error fault =>
    have htokenize : dialect.tokenize source = ⟨.error fault, #[]⟩ := by
      rw [Dialect.tokenize, h]
    rw [htokenize]
    exact .inl ⟨fault, rfl, rfl⟩
  | ok tokens =>
    have htokenize : dialect.tokenize source = ⟨.ok tokens, (dialect.tokenize source).log⟩ := by
      rw [Dialect.tokenize, h]
    rw [htokenize]
    refine .inr ⟨tokens, (dialect.tokenize source).log, rfl, ?_⟩
    dsimp only
    cases Grammar.template ⟨dialect, source.displayName, tokens⟩
      { log := (dialect.tokenize source).log } <;> rfl

section

variable {dialect : Dialect} {source : Source} {t : Template}
  (h : (Template.parse dialect source).result = .ok t)

include h

/-- **The template that a source holds is derived from its tokens**, up to the end of them. -/
theorem Grammar.derives_parse :
    ∃ tokens log last, Lexer.tokenize source.text dialect.operatorSymbols = .ok tokens ∧
      Finishes ⟨dialect, source.displayName, tokens⟩ { log } t last := by
  rcases parse_cases dialect source with ⟨fault, -, hresult⟩ | ⟨tokens, log, htokens, hresult⟩
  · cases h.symm.trans hresult
  rw [hresult] at h
  split at h <;> cases h
  rename_i after hrun
  obtain ⟨last, hlast⟩ := (derives_template (L := AnyLine)).of_ok hrun
  exact ⟨tokens, log, last, htokens, hlast⟩

/-- **Every template that a source holds satisfies what is known of statements where they are
read**, in scopes in which imported macros are known by variables. -/
theorem satisfies_parse {Q : Stmt → Prop} {E : Expr → Prop}
    (hd : ∀ tokens, Lexer.tokenize source.text dialect.operatorSymbols = .ok tokens →
      let context : Context := ⟨dialect, source.displayName, tokens⟩
      Grammar.Describes (Grammar.Opens context) context AnyLine
        (fun e => ∃ name line, e = Expr.name name line) Q E) : t.Satisfies Q E := by
  obtain ⟨tokens, log, last, htokens, hfinishes⟩ := Grammar.derives_parse h
  obtain ⟨hbody, hlast⟩ := hfinishes.derives.satisfied Grammar.Opening.sound_opens
    (hd tokens htokens) (.fresh nofun)
  rw [hfinishes.eq]
  exact hlast.template hbody

/-- Every expression of a template, at any depth, was read in a scope in which imported macros are
known by variables. -/
theorem forall_exprs_parse {P : Expr → Prop}
    (hP : ∀ tokens, Lexer.tokenize source.text dialect.operatorSymbols = .ok tokens →
      ∀ scope : Scope, scope.Plain →
        Grammar.Admits ⟨dialect, source.displayName, tokens⟩ AnyLine scope P) :
    ∀ m, t.Module m → ∀ e ∈ m.exprs, P e :=
  (satisfies_parse h fun tokens htokens => Grammar.describes_of_admits
    Grammar.Opening.sound_opens (hP tokens htokens) fun _ => ⟨_, _, rfl⟩).forall_exprs

end

end TwigToLatte
