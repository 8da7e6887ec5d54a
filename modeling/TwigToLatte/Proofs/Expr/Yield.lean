import TwigToLatte.Proofs.Expr.Calls

/-!
# What whole expressions yield

* `ensures_names` — the names of an anonymous function end where the rules have looked ahead.
* `yields_suffixes`, `yields_primaryRule`, `yields_testExpression`, `yields_infixStep`, … — the
  rules of expressions, for rules that yield the property in the expressions inside them.
* `Rules.extends_upTo` — **the rules yield it at every depth of nesting, or complain on a line of the
  tokens, and the rules for a larger depth read the same**.
* `yields_expression` — so does a whole expression.
-/

namespace TwigToLatte.Grammar

open List

open Parse

section

variable {context : Context} {L : Nat → Prop} {state : State}

theorem tokenAt_succ {i : Nat} (h : context.tokens.size ≤ i + 1) :
    context.tokenAt (i + 1) = context.tokenAt i := by
  rw [Context.tokenAt, Context.tokenAt, Nat.min_eq_right (by omega), Nat.min_eq_right (by omega)]

/-- The names of an anonymous function end where `namesEnd` has found their end. -/
theorem ensures_names [OnLines context L] (cursor : Nat) (hcursor : state.cursor = cursor + 1) :
    Ensures context L state (commaList expectName) fun names after =>
      (∀ name ∈ names, context.Names name) ∧ Passes context state after ∧
        after.cursor = cursor + namesEnd context cursor context.tokens.size 2 := by
  refine .loop (fun names s => (∀ name ∈ names, context.Names name) ∧ Passes context state s ∧
      ∃ k, s.cursor = cursor + 1 + 2 * k ∧ namesEnd context cursor context.tokens.size 2 =
        namesEnd context cursor (context.tokens.size - k) (2 + 2 * k))
    ⟨forall_mem_nil _, .refl state, 0, hcursor, rfl⟩ fun names s hinv => ?_
  obtain ⟨hnames, hpass, k, hk, hend⟩ := hinv
  refine .bind ensures_expectName fun name s1 hname => ?_
  obtain ⟨hname, rfl⟩ := hname
  have hinner := Token.isInner_of_name? (Option.isSome_iff_exists.mpr ⟨name, hname⟩)
  have hpass : Passes context state (s.skip 1) := hpass.trans (.skip hinner)
  have hnames : ∀ other ∈ names ++ [name], context.Names other :=
    forall_mem_append.mpr ⟨hnames, forall_mem_singleton.mpr ⟨s.cursor, hname⟩⟩
  have hcomma : cursor + (2 + 2 * k) = (s.skip 1).cursor := by rw [State.cursor_skip, hk]; omega
  refine .bind (ensures_nextIfPunctuation ',') fun more s2 hmore => ?_
  obtain ⟨hmore, rfl⟩ := hmore
  generalize more.isSome = found at hmore ⊢
  cases found with
  | true =>
    -- A name and a comma are two tokens, so there are more than `k` tokens.
    have hlt : k < context.tokens.size := by
      refine Nat.lt_of_not_le fun hle => ?_
      have hsame : context.tokenAt (s.cursor + 1) = context.tokenAt s.cursor :=
        tokenAt_succ (by omega)
      have hmark := beq_iff_eq.mp hmore.symm
      rw [State.cursor_skip, hsame] at hmark
      rw [Token.name?, hmark] at hname
      cases hname
    refine .pure ⟨hnames, hpass.trans (.skip (Token.isInner_of_isPunctuation hmore.symm)), k + 1, ?_,
      ?_⟩
    · simp only [if_true, State.cursor_skip]
      omega
    · obtain ⟨limit, hlimit⟩ := Nat.exists_eq_add_of_lt hlt
      have hsub : context.tokens.size - k = limit + 1 := by omega
      rw [hend, hsub, namesEnd, hcomma, ← hmore, if_pos rfl]
      congr 1
      omega
  | false =>
    refine .pure ⟨hnames, hpass, ?_⟩
    have hstop : namesEnd context cursor (context.tokens.size - k) (2 + 2 * k) = 2 + 2 * k := by
      cases context.tokens.size - k with
      | zero => rfl
      | succ limit => rw [namesEnd, hcomma, ← hmore, if_neg Bool.false_ne_true]
    rw [hend, hstop, hcomma]
    rfl

end

variable {v : Inner} {depth : Nat} {r r' : Rules} {P : Expr → Prop}
  (hP : Admits v.context v.lines v.scope P) (hr : r.Extends v P depth r')

include hP hr

/-! ## Suffixes -/

omit hP hr in
/-- A token that is no name of an attribute is a fault, whether it is inside a tag or not. -/
theorem yields_attributeName {line : Nat} (hline : v.lines line) :
    Yields v depth always always (do attributeName (← next) line)
      (do attributeName (← next) line) := by
  intro state hs
  by_cases hinner : (v.context.tokenAt state.cursor).kind.isInner = true
  · refine .take hs hinner ?_
    unfold attributeName
    split
    · exact .pure trivial
    · exact .pure trivial
    · exact .ite (.pure trivial) (.fail ⟨hline, rfl⟩ rfl)
    · exact .fail ⟨hline, rfl⟩ rfl
  · have hfail : attributeName (v.context.tokenAt state.cursor) line = fail .attributeName line := by
      unfold attributeName
      split
      all_goals first
        | rfl
        | rename_i hkind
          exact absurd (by rw [hkind]; rfl) hinner
    exact ReadsAt.next_of_fail hfail ⟨hline, rfl⟩ rfl

section

variable {operand : Expr} (hoperand : operand.All P) {line : Nat} (hline : v.lines line)

include hoperand hline

theorem yields_attributeAccess :
    Yields v (depth + 1) always (Expr.All P) (attributeAccess r operand line)
      (attributeAccess r' operand line) := by
  rw [attributeAccess, attributeAccess, ← bind_assoc, ← bind_assoc]
  refine (yields_attributeName hline).take fun key _ => .current fun state hs => ?_
  extract_lets called call access
  have haccess : ∀ list : List Expr, (∀ e ∈ list, e.All P) →
      Yields v (depth + 1) never (Expr.All P) (access list) (access list) := by
    intro list hlist
    have hmacro : Expr.All P
        { kind := .macroCall operand (macroName key) (list.map .positional) false, line } := by
      refine hP.node rfl hline (forall_mem_append.mpr ⟨hoperand, forall_mem_argumentParts.mpr ?_⟩)
      exact forall_mem_map.mpr hlist
    have hattribute : Expr.All P
        { kind := .access operand (Expr.constant key line) list call false, line } :=
      hP.node rfl hline (forall_mem_append.mpr ⟨forall_mem_append.mpr
        ⟨hoperand, hP.all_constant hline key⟩, forall_mem_listParts.mpr hlist⟩)
    unfold access
    split
    · exact Yields.symbol? (.ite (.pure hmacro) (.pure hattribute))
    · exact .pure hattribute
  split
  · exact ((yields_argumentValues hr).bind haccess) state hs
  · exact haccess [] (forall_mem_nil _) state hs

theorem yields_elementAccess :
    Yields v depth always (Expr.All P) (elementAccess r operand line)
      (elementAccess r' operand line) := by
  refine .current fun state hs => ?_
  extract_lets openStart access access'
  have haccess : ∀ start : Expr, start.All P →
      Yields v depth always (Expr.All P) (access start) (access' start) := by
    intro start hstart
    refine (Reads.nextIfPunctuation ':').bind fun colon _ => .ite (.current fun state hs => ?_) ?_
    · extract_lets slice
      have hslice : ∀ length : Expr, length.All P →
          Yields v depth always (Expr.All P) (slice length) (slice length) := fun length hlength =>
        (yields_buildFilter hP hline hoperand _ (forall_mem_cons.mpr
          ⟨hstart, forall_mem_singleton.mpr hlength⟩)).bind fun _ h =>
            (Reads.expectPunctuation _ _).take fun _ _ => .pure h
      split
      · exact hslice _ (hP.all_constant hline _) state hs
      · exact (hr.full.bind hslice) state hs
    · refine (Reads.expectPunctuation _ _).take fun _ _ => .pure (hP.node rfl hline ?_)
      refine forall_mem_append.mpr ⟨forall_mem_append.mpr ⟨hoperand, hstart⟩, ?_⟩
      exact forall_mem_nil _
  split
  · exact haccess _ (hP.all_constant hline _) state hs
  · exact (hr.full.bind haccess) state hs

omit hline in
theorem yields_suffixes :
    Yields v (depth + 1) never (Expr.All P) (suffixes r operand) (suffixes r' operand) := by
  refine .loop hoperand fun operand hoperand => .current fun state hs => ?_
  have hline := v.onLines.token state.cursor
  split
  · exact .take hs (Token.isInner_of_isPunctuation ‹_›)
      ((yields_attributeAccess hP hr hoperand hline).bind fun _ h => .pure h)
  split
  · exact .descend hs (Token.isInner_of_isPunctuation ‹_›)
      ((yields_elementAccess hP hr hoperand hline).bind fun _ h => .pure h)
  split
  · exact .take hs (Token.isInner_of_isPunctuation ‹_›)
      ((yields_filterChain hP hr hoperand).bind fun _ h => .pure h)
  · exact .answer id hoperand

end

/-! ## Primaries -/

theorem yields_stringParts :
    Yields v (depth + 1) (· ≠ []) (fun parts => ∀ e ∈ parts, e.All P) (stringParts r)
      (stringParts r') := by
  have hround : ∀ {taking : List Expr → Prop} (parts : List Expr) (textAllowed : Bool),
      (∀ e ∈ parts, e.All P) → ¬ taking parts → Yields v (depth + 1) (Sum.elim always taking)
        (Sum.elim (fun round => ∀ e ∈ round.1, e.All P) fun parts => ∀ e ∈ parts, e.All P)
        (stringRound r (parts, textAllowed)) (stringRound r' (parts, textAllowed)) := by
    intro taking parts textAllowed hparts htaking
    have hmore : ∀ {e : Expr}, e.All P → ∀ x ∈ parts ++ [e], x.All P := fun he =>
      forall_mem_append.mpr ⟨hparts, forall_mem_singleton.mpr he⟩
    refine .current fun state hs => ?_
    split
    · rename_i hkind
      exact .take hs (by rw [hkind]; rfl) (.pure (hmore (hP.all_constant (v.onLines.token _) _)))
    · rename_i hkind
      exact .descend hs (by rw [hkind]; rfl) (hr.full.bind fun _ he =>
        (Reads.expect (fun _ h => by rw [beq_iff_eq.mp h]; rfl) _ _).bind fun _ _ =>
          .pure (hmore he))
    · exact .answer htaking hparts
  exact .loop_first (hround [] true (forall_mem_nil _) fun h => h rfl)
    fun round hparts => hround round.1 round.2 hparts id

omit hr in
theorem Admits.all_foldl {more : List Expr} (hmore : ∀ e ∈ more, e.All P) :
    ∀ {first : Expr}, first.All P →
      (more.foldl (fun left right => Expr.binary .concat left right right.line) first).All P := by
  induction more with
  | nil => exact fun hfirst => hfirst
  | cons e rest ih =>
    intro first hfirst
    rw [forall_mem_cons] at hmore
    have hline : v.lines e.line := hP.line_of_all hmore.1
    exact ih hmore.2 (hP.node rfl hline (forall_mem_append.mpr ⟨hfirst, hmore.1⟩))

theorem yields_stringLiteral :
    Yields v (depth + 1) always (Expr.All P) (stringLiteral r) (stringLiteral r') := by
  refine .currentLine fun line hline =>
    (yields_stringParts hP hr).bind_owing fun parts hparts => ?_
  cases parts with
  | nil => exact .fail ⟨hline, rfl⟩ rfl
  | cons first more =>
    rw [forall_mem_cons] at hparts
    exact .answer (fun h => h.2 (cons_ne_nil _ _)) (hP.all_foldl hparts.2 hparts.1)

theorem yields_arrayLiteral :
    Yields v (depth + 1) always (Expr.All P) (arrayLiteral r) (arrayLiteral r') := by
  refine (Reads.expectPunctuation _ _).descend fun _ _ => .currentLine fun line hline => ?_
  refine (Reads.separated (I := fun items => ∀ item ∈ items, item.1.All P ∧ item.2.All P)
    (forall_mem_nil _) (fun items hitems => ?_) _ _).bind fun items hitems =>
      (Reads.expectPunctuation _ _).bind fun _ _ =>
        .pure (hP.node rfl hline (forall_mem_itemParts.mpr hitems))
  refine hr.full.take fun value hvalue => .pure (forall_mem_append.mpr ⟨hitems, ?_⟩)
  exact forall_mem_singleton.mpr ⟨hP.all_constant (hP.line_of_all hvalue) _, hvalue⟩

omit hP in
theorem yields_hashValue {key : Expr} (hkey : key.All P) :
    Yields v depth always (fun item => item.1.All P ∧ item.2.All P) (hashValue r key)
      (hashValue r' key) :=
  (Reads.expectPunctuation _ _).take fun _ _ => hr.full.bind fun _ hvalue => .pure ⟨hkey, hvalue⟩

theorem yields_hashItem :
    Yields v depth always (fun item => item.1.All P ∧ item.2.All P) (hashItem r)
      (hashItem r') := by
  refine .current fun state hs => ?_
  have hline := v.onLines.token state.cursor
  have hvalue : ∀ value, Yields v depth never (fun item => item.1.All P ∧ item.2.All P)
      (hashValue r (Expr.constant value (v.context.tokenAt state.cursor).line))
      (hashValue r' (Expr.constant value (v.context.tokenAt state.cursor).line)) := fun value =>
    (yields_hashValue hr (hP.all_constant hline value)).forget
  split
  · rename_i hkind
    refine .take hs (by rw [hkind]; rfl) (.current fun state hs => ?_)
    split
    · exact .answer id ⟨hP.all_constant hline _, hP.all_name hline _⟩
    · exact hvalue _ state hs
  · rename_i hkind
    exact .take hs (by rw [hkind]; rfl) (hvalue _)
  · rename_i hkind
    exact .take hs (by rw [hkind]; rfl) (hvalue _)
  · exact (hr.full.bind fun _ hkey => yields_hashValue hr hkey) state hs
  · exact .fail ⟨hline, rfl⟩ rfl

theorem yields_hashLiteral :
    Yields v (depth + 1) always (Expr.All P) (hashLiteral r) (hashLiteral r') := by
  refine (Reads.expectPunctuation _ _).descend fun _ _ => .currentLine fun line hline => ?_
  refine (Reads.separated (I := fun items => ∀ item ∈ items, item.1.All P ∧ item.2.All P)
    (forall_mem_nil _) (fun items hitems => ?_) _ _).bind fun items hitems =>
      (Reads.expectPunctuation _ _).bind fun _ _ =>
        .pure (hP.node rfl hline (forall_mem_itemParts.mpr hitems))
  exact (yields_hashItem hP hr).take fun item hitem =>
    .pure (forall_mem_append.mpr ⟨hitems, forall_mem_singleton.mpr hitem⟩)

section

variable {line : Nat} (hline : v.lines line)

include hline

theorem yields_namedPrimary (name : String) :
    Yields v (depth + 1) never (Expr.All P) (namedPrimary r name line)
      (namedPrimary r' name line) := by
  unfold namedPrimary
  split
  · exact .pure (hP.all_constant hline _)
  · refine .current fun state hs => ?_
    split
    · exact (yields_functionCall hP hr hline name).forget state hs
    · exact .answer id (hP.all_name hline name)

theorem yields_operatorPrimary {symbol : String} {state : State} (hs : state.scope = v.scope)
    (hkind : (v.context.tokenAt state.cursor).kind = .operator symbol) :
    ReadsAt v.reading (depth + 1) always (fun e _ => e.All P) (operatorPrimary r symbol line)
      (operatorPrimary r' symbol line) state := by
  have hinner : (v.context.tokenAt state.cursor).kind.isInner = true := by rw [hkind]; rfl
  unfold operatorPrimary
  split
  · exact .take hs hinner (.pure (hP.all_name hline _))
  refine .ask ?_
  rw [v.reading.unary_other]
  split
  · exact .fail ⟨hline, rfl⟩ rfl
  · exact .descend hs hinner (hr.primary.bind fun _ he => .pure (hP.node rfl hline he))
  · refine (Reads.previous.bind fun _ _ => ?_) state hs
    exact .ite (.fail ⟨hline, rfl⟩ rfl) (.fail ⟨hline, rfl⟩ rfl)

end

theorem yields_atom : Yields v (depth + 1) always (Expr.All P) (atom r) (atom r') := by
  refine .current fun state hs => ?_
  have hline := v.onLines.token state.cursor
  split
  · rename_i hkind
    exact .take hs (by rw [hkind]; rfl) (yields_namedPrimary hP hr hline _)
  · rename_i hkind
    exact .take hs (by rw [hkind]; rfl) (.pure (hP.all_constant hline _))
  · exact yields_stringLiteral hP hr state hs
  · exact yields_stringLiteral hP hr state hs
  · exact yields_operatorPrimary hP hr hline hs ‹_›
  · exact yields_arrayLiteral hP hr state hs
  · exact yields_hashLiteral hP hr state hs
  · exact .fail ⟨hline, rfl⟩ rfl

theorem yields_primaryRule :
    Yields v (depth + 1) always (Expr.All P) (primaryRule r) (primaryRule r') :=
  (yields_atom hP hr).take fun _ he => yields_suffixes hP hr he

/-! ## Tests -/

omit hP hr in
theorem yields_testName {line : Nat} (hline : v.lines line) :
    Yields v depth always always (testName line) (testName line) := by
  refine .ask ?_
  rw [v.reading.tests_other]
  refine Yields.expectName.take fun name _ => ?_
  split
  · exact .pure trivial
  refine .current fun state hs => ?_
  split
  · exact .fail ⟨hline, rfl⟩ rfl
  · rename_i hname
    dsimp only
    split
    · exact .fail ⟨hline, rfl⟩ rfl
    · exact .take hs (Token.isInner_of_name? (by rw [hname]; rfl)) (.pure trivial)

section

variable {operand : Expr} (hoperand : operand.All P)

include hoperand

omit hr in
theorem yields_resolveMacro :
    Yields v depth never (Expr.All P) (resolveMacro operand) (resolveMacro operand) := by
  unfold resolveMacro
  split
  · refine Yields.symbol? ?_
    cases hsymbol : v.scope.symbol? .function _ with
    | none => exact .pure hoperand
    | some imported =>
      have hline := hP.line_of_all hoperand
      exact .pure (hP.node rfl hline (forall_mem_append.mpr
        ⟨hP.all_object hsymbol hline, forall_mem_nil _⟩))
  · exact .pure hoperand

omit hr in
theorem yields_markDefined {line : Nat} (hline : v.lines line) :
    Yields v depth never (Expr.All P) (check (markDefined operand line))
      (check (markDefined operand line)) := by
  have hparts := hoperand.kind_parts
  have hown := hP.line_of_all hoperand
  refine .check (fun marked h => ?_) fun fault h => ?_
  · unfold markDefined at h
    split at h <;> cases h
    all_goals first
      | exact hP.all_constant hown _
      | rename_i hkind
        rw [hkind] at hparts
        exact hP.node rfl hown hparts
  · unfold markDefined at h
    split at h <;> cases h
    exact ⟨⟨hline, rfl⟩, nofun⟩

/-- The test itself is known by its run, the expressions inside it by the parts of the run. -/
theorem yields_testExpression {state : State} (hs : state.scope = v.scope)
    (htest : v.context.dialect.isTestOperator (v.context.tokenAt state.cursor).kind = true) :
    ReadsAt v.reading depth always (fun e _ => e.All P) (testExpression r operand)
      (testExpression r' operand) (state.skip 1) := by
  have hinside : Yields v (depth + 1) always
      (fun e => (∀ x ∈ e.kind.parts, P x) ∧ e.isTest = true ∧ v.lines e.line)
      (testExpression r operand) (testExpression r' operand) := by
    refine (yields_testName (hP.line_of_all hoperand)).take fun test _ =>
      .current fun state hs => ?_
    extract_lets answer
    have hanswer : ∀ list : List (Argument Expr), (∀ a ∈ list, a.value.All P) →
        Yields v (depth + 1) never
          (fun e => (∀ x ∈ e.kind.parts, P x) ∧ e.isTest = true ∧ v.lines e.line)
          (answer list) (answer list) := by
      intro list hlist
      refine .currentLine fun line hline => .ite ?_ ?_
      · refine (yields_resolveMacro hP hoperand).bind fun _ he =>
          (yields_markDefined hP he hline).bind fun _ hmarked => .pure ⟨?_, rfl, hline⟩
        exact forall_mem_append.mpr ⟨hmarked, forall_mem_argumentParts.mpr hlist⟩
      · refine (yields_warnDeprecated _ _ _ _).bind fun _ _ =>
          (yields_bind hP hline hlist).bind fun _ hbound => .pure ⟨?_, rfl, hline⟩
        exact forall_mem_append.mpr ⟨hoperand, forall_mem_argumentParts.mpr hbound⟩
    split
    · exact ((yields_arguments hr true false).bind hanswer) state hs
    split
    · exact ((yields_primaryRule hP hr).bind fun _ he =>
        hanswer _ (forall_mem_singleton.mpr he)) state hs
    · exact hanswer [] (forall_mem_nil _) state hs
  refine (hinside.lower (state.skip 1) hs).with_run.weaken (fun _ => id)
    (fun e after ⟨hrun, hparts, hkind, hline⟩ => ?_) id
  obtain ⟨n, rfl⟩ := hr.bounded
  exact Expr.all_iff.mpr ⟨hP.test hs htest hrun hkind hline, hparts⟩

end

/-! ## Operators -/

theorem yields_arrowBody {names : List String} (hnames : ∀ name ∈ names, v.context.Names name)
    {line : Nat} (hline : v.lines line) {state : State} (hs : state.scope = v.scope)
    (harrow : (v.context.tokenAt state.cursor).kind = .arrow) :
    ReadsAt v.reading (depth + 1) always (fun e _ => e.All P) (arrowBody r names line)
      (arrowBody r' names line) state :=
  .descend hs (by rw [harrow]; rfl) (hr.full.bind fun _ hbody =>
    .pure (Expr.all_iff.mpr ⟨hP.arrow hnames hline, hbody⟩))

omit hP hr in
/-- Where the names of an anonymous function end depends on the tokens alone. -/
theorem opensArrow_other (v : Comparison) (cursor : Nat) :
    opensArrow v.other cursor = opensArrow v.context cursor := by
  have hnames : ∀ limit i, namesEnd v.other cursor limit i =
      namesEnd v.context cursor limit i := by
    intro limit
    induction limit with
    | zero => exact fun _ => rfl
    | succ limit ih =>
      intro i
      rw [namesEnd, namesEnd, ih]
      rfl
  rw [opensArrow, opensArrow, hnames]
  rfl

theorem yields_arrowFunction :
    Yields v (depth + 1) (·.isSome = true) (fun function => ∀ e ∈ function, e.All P)
      (arrowFunction r) (arrowFunction r') := by
  refine .current fun state hs => .peek (a := v.context.tokenAt (state.cursor + 1)) ?_ rfl rfl
  have hbody : ∀ {taking} {names : List String} {after : State},
      (∀ name ∈ names, v.context.Names name) → after.scope = v.scope →
      (v.context.tokenAt after.cursor).kind = .arrow →
      ReadsAt v.reading (depth + 1) taking (fun function _ => ∀ e ∈ function, e.All P)
        (do return some (← arrowBody r names (v.context.tokenAt state.cursor).line))
        (do return some (← arrowBody r' names (v.context.tokenAt state.cursor).line)) after :=
    fun hnames hs harrow =>
      (yields_arrowBody hP hr hnames (v.onLines.token _) hs harrow).owing hs fun e _ _ he =>
        .answer (fun h => h.2 trivial) (by rintro _ ⟨⟩; exact he)
  split
  · rename_i harrow
    refine ((Yields.expectName state hs).and_ensures (L := AnyLine) ensures_expectName).owing hs
      fun name after hs h => ?_
    obtain ⟨hname, -, rfl⟩ := h
    exact hbody (forall_mem_singleton.mpr hname) hs (beq_iff_eq.mp harrow)
  refine .ask (.peek (a := state) ?_ rfl rfl)
  rw [opensArrow_other]
  split
  · rename_i hopens
    rw [Bool.and_eq_true, opensArrow, Bool.and_eq_true] at hopens
    obtain ⟨hparen, -, harrow⟩ := hopens
    refine (ReadsAt.next (Token.isInner_of_isPunctuation hparen)).owing hs fun token after hs h => ?_
    obtain ⟨rfl, rfl⟩ := h
    refine ((Reads.commaList Yields.expectName (state.skip 1) hs).and_ensures (L := AnyLine)
      (ensures_names state.cursor rfl)).owing hs fun names after hs h => ?_
    obtain ⟨⟨-, hnames⟩, -, -, hcursor⟩ := h
    refine ((Reads.expectPunctuation ')' _ after hs).and_ensures (L := AnyLine)
      ensures_expect).owing hs fun close after' hs h => ?_
    obtain ⟨-, -, rfl, -⟩ := h
    refine hbody hnames hs ?_
    rw [State.cursor_skip, hcursor]
    exact beq_iff_eq.mp harrow
  · exact .answer Bool.false_ne_true nofun

omit hP hr in
theorem yields_prefixOperator? (state : State) :
    ReadsAt v.reading depth never (fun sign after => after = state ∧ (sign.isSome = true →
      (v.context.tokenAt state.cursor).kind.isInner = true)) prefixOperator? prefixOperator?
      state := by
  refine .peek (a := v.context.tokenAt state.cursor) ?_ rfl rfl
  split
  · rename_i hkind
    refine .ask ?_
    rw [v.reading.unary_other]
    exact .answer id ⟨rfl, fun _ => by rw [hkind]; rfl⟩
  · exact .answer id ⟨rfl, nofun⟩

theorem yields_operand : Yields v (depth + 1) always (Expr.All P) (operand r) (operand r') := by
  refine .current fun state hs => (yields_prefixOperator? state).owing hs fun sign s hs hsign => ?_
  obtain ⟨rfl, hinner⟩ := hsign
  cases sign with
  | some sign =>
    exact .descend hs (hinner rfl) ((hr.expression _ _).bind fun _ he =>
      .lower (yields_suffixes hP hr (hP.node rfl (v.onLines.token _) he)))
  | none =>
    dsimp only
    split
    · exact .descend hs (Token.isInner_of_isPunctuation ‹_›) (hr.full.bind fun _ he =>
        (Reads.expectPunctuation _ _).bind fun _ _ => (yields_suffixes hP hr he).lower)
    · exact (yields_primaryRule hP hr s hs).mono fun _ => And.left

omit hP hr in
theorem yields_infixOperator? (least : Precedence) (state : State) :
    ReadsAt v.reading depth never (fun found after => after = state ∧
        ∀ operator, found = some operator → ∃ symbol,
          (v.context.tokenAt state.cursor).kind = .operator symbol ∧
            v.context.dialect.binary.get? symbol = some operator)
      (infixOperator? least) (infixOperator? least) state := by
  refine .peek (a := v.context.tokenAt state.cursor) ?_ rfl rfl
  split
  · rename_i symbol hkind
    refine .ask ?_
    rw [v.reading.binary_other]
    split
    · rename_i operator hget
      refine .answer id ⟨rfl, fun found hfound => ⟨symbol, hkind, ?_⟩⟩
      split at hfound <;> cases hfound
      exact hget
    · exact .answer id ⟨rfl, nofun⟩
  · exact .answer id ⟨rfl, nofun⟩

theorem yields_infixStep (least : Precedence) {left : Expr} (hleft : left.All P) :
    Yields v (depth + 1) (Sum.elim always never) (Sum.elim (Expr.All P) (Expr.All P))
      (infixStep r least left) (infixStep r' least left) := by
  refine fun state hs => (yields_infixOperator? least state).owing hs fun operator s hs h => ?_
  obtain ⟨rfl, hsymbol⟩ := h
  cases operator with
  | none => exact .answer (fun h => h.1) hleft
  | some operator =>
    obtain ⟨symbol, hkind, hget⟩ := hsymbol operator rfl
    refine (ReadsAt.next (by rw [hkind]; rfl)).deeper hs fun token after hs h => ?_
    obtain ⟨rfl, rfl⟩ := h
    have htest : operator.kind = .test ∨ operator.kind = .notTest →
        ReadsAt v.reading depth always (fun e _ => e.All P) (testExpression r left)
          (testExpression r' left) (s.skip 1) := by
      intro h
      refine yields_testExpression hP hr hleft hs ?_
      rw [hkind, Dialect.isTestOperator, hget]
      exact decide_eq_true h
    split
    · exact (htest (.inl ‹_›)).owing hs fun _ _ _ h => .answer (fun h => h.1) h
    · refine (htest (.inr ‹_›)).owing hs fun _ s hs h => (Reads.currentLine fun _ hline => ?_) s hs
      exact .answer (fun h => h.1) (hP.node rfl hline h)
    · refine ((hr.expression _ _).bind fun _ hright => ?_) _ hs
      exact .pure (hP.node rfl (v.onLines.token _) (forall_mem_append.mpr ⟨hleft, hright⟩))

theorem yields_alternatives {test : Expr} (htest : test.All P) :
    Yields v depth always (fun both => both.1.All P ∧ both.2.All P) (alternatives r test)
      (alternatives r' test) := by
  refine (Reads.nextIfPunctuation ':').bind fun _ _ =>
    .ite (hr.full.take fun _ hno => .pure ⟨htest, hno⟩) ?_
  refine hr.full.take fun yes hyes => (Reads.nextIfPunctuation ':').bind fun _ _ => ?_
  exact .ite (hr.full.bind fun _ hno => .pure ⟨hyes, hno⟩)
    (.currentLine fun _ hline => .pure ⟨hyes, hP.all_constant hline _⟩)

theorem yields_conditionals {test : Expr} (htest : test.All P) :
    Yields v (depth + 1) never (Expr.All P) (conditionals r test) (conditionals r' test) := by
  refine .loop htest fun test htest => (Reads.nextIfPunctuation '?').choose (fun _ => ?_) (.inr htest)
  refine (yields_alternatives hP hr htest).bind fun both hboth => .currentLine fun _ hline => ?_
  exact .pure (hP.node rfl hline (forall_mem_append.mpr
    ⟨forall_mem_append.mpr ⟨htest, hboth.1⟩, hboth.2⟩))

theorem yields_expressionRule (least : Precedence) (allowArrow : Bool) :
    Yields v (depth + 1) always (Expr.All P) (expressionRule r least allowArrow)
      (expressionRule r' least allowArrow) := by
  have harrow : Yields v (depth + 1) (·.isSome = true) (fun function => ∀ e ∈ function, e.All P)
      (if allowArrow then arrowFunction r else pure none)
      (if allowArrow then arrowFunction r' else pure none) :=
    .ite (yields_arrowFunction hP hr) (.answer Bool.false_ne_true nofun)
  refine harrow.bind_owing fun function hfunction => ?_
  cases function with
  | some function => exact .answer (fun h => h.2 rfl) (hfunction _ rfl)
  | none =>
    refine (yields_operand hP hr).take fun e he =>
      (Reads.loop he fun _ => yields_infixStep hP hr least).bind fun e he => ?_
    exact .ite (yields_conditionals hP hr he) (.pure he)

/-! ## Nesting -/

omit hr

/-- **The rules yield the property at every depth of nesting**, or complain on a line of the tokens.
The rules for a larger depth read the same, unless the depth is reached. -/
theorem Rules.extends_upTo {depth' : Nat} (h : depth ≤ depth') :
    (Rules.upTo depth).Extends v P depth (Rules.upTo depth') := by
  induction depth generalizing depth' with
  | zero => exact ⟨⟨0, rfl⟩, fun _ _ => .exhaust, .exhaust⟩
  | succ depth ih =>
    obtain ⟨depth', rfl⟩ := Nat.exists_eq_add_of_le' h
    have hr : (Rules.upTo depth).Extends v P depth (Rules.upTo (depth' + depth)) :=
      ih (Nat.le_add_left _ _)
    exact ⟨⟨depth + 1, rfl⟩, yields_expressionRule hP hr, yields_primaryRule hP hr⟩

omit hP in
/-- The rules of each depth by themselves. -/
theorem Rules.extends_alone (context : Context) (scope : Scope) (depth : Nat) :
    (Rules.upTo depth).Extends (.alone context AnyLine scope) (fun _ => True) depth
      (Rules.upTo depth) :=
  Rules.extends_upTo (.trivial _ _) (Nat.le_refl depth)

/-- Built for the tokens that are left, a rule yields what it yields with rules of every depth. -/
theorem yields_nested {α : Type} {rule : Rules → Parse α} {taking post : α → Prop}
    (h : ∀ {depth : Nat} {r : Rules}, r.Extends v P depth r →
      Yields v depth taking post (rule r) (rule r)) :
    Yields v depth taking post (nested rule) (nested rule) :=
  Reads.deepest fun depth => h (Rules.extends_upTo hP (Nat.le_refl depth))

/-- **A whole expression takes tokens inside tags only, defines nothing, and has the property in
all its parts**, or is complained of on a line of the tokens. -/
theorem yields_expression : Yields v depth always (Expr.All P) expression expression :=
  yields_nested hP fun hr => hr.full

end TwigToLatte.Grammar
