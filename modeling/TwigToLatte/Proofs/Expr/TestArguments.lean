import TwigToLatte.Dialect.Core
import TwigToLatte.Proofs.Expr.Yield
import TwigToLatte.Proofs.Parse.Positions

/-!
# The arguments of tests

Three tests of the dialect compare their operand with an argument. They declare it, but a list of
positional arguments is not checked against the declaration, so a test can be read without one.

* `bareTest` — the tokens of such a test.
* `bind_eq_nil_iff` — binding arguments neither drops all of them nor makes up the first one.
* `ensures_testExpression` — **a test lacks its argument if and only if it is written without one**.
-/

namespace TwigToLatte

open List

/-! ## Tests without arguments -/

/-- The names of the tests that need an argument. -/
def argumentTests : List String := ["constant", "divisible by", "same as"]

/-- The index after the name of a test, which is one word or two. -/
def spelled? (tokens : Array Token) (i : Nat) (name : String) : Option Nat :=
  match kindAt tokens i with
  | .name first =>
    if first = name then some (i + 1)
    else
      match kindAt tokens (i + 1) with
      | .name second => if first ++ " " ++ second = name then some (i + 2) else none
      | _ => none
  | _ => none

/-- Whether no argument follows the name of a test: a list is empty, or there is none. Only
`constant` can do without a list, as the others take what follows for their argument. -/
def lacksArgument (tokens : Array Token) (name : String) (i : Nat) : Bool :=
  if kindAt tokens i = .punctuation '(' then kindAt tokens (i + 1) = .punctuation ')'
  else name = "constant"

/-- Whether the tokens at an index announce and name a test without the argument that it needs. -/
def bareTest (dialect : Dialect) (tokens : Array Token) (i : Nat) : Bool :=
  dialect.isTestOperator (kindAt tokens i) &&
    argumentTests.any fun name =>
      (spelled? tokens (i + 1) name).any (lacksArgument tokens name)

/-! ## Binding -/

namespace Signature

variable {callee : Callee} {line : Nat} {binding next : Binding}

/-- A parameter is bound to an argument, unless it has a default. -/
theorem bound_param {param : Param} (h : Binding.param callee line binding param = .ok next) :
    next.bound ≠ [] ∨ next.bound = binding.bound ∧ param.default.isSome = true := by
  rw [Binding.param] at h
  split at h
  · cases h
  · cases h
    exact .inl (append_ne_nil_of_right_ne_nil _ (cons_ne_nil _ _))
  · cases h
    exact .inl (append_ne_nil_of_right_ne_nil _ (cons_ne_nil _ _))
  · split at h
    · rename_i value hdefault
      cases h
      exact .inr ⟨rfl, by rw [hdefault]; rfl⟩
    · cases h

/-- Once an argument is bound, or if the first parameter is required, one is bound in the end. -/
theorem bound_foldlM {params : List Param}
    (hbound : binding.bound ≠ [] ∨ params.head?.any (·.default.isNone) = true)
    (h : params.foldlM (Binding.param callee line) binding = .ok next) : next.bound ≠ [] := by
  induction params generalizing binding with
  | nil =>
    cases h
    exact hbound.resolve_right Bool.false_ne_true
  | cons param rest ih =>
    rw [foldlM_cons] at h
    cases hparam : Binding.param callee line binding param with
    | error fault =>
      rw [hparam] at h
      cases h
    | ok middle =>
      rw [hparam] at h
      refine ih (.inl ?_) h
      rcases bound_param hparam with hmiddle | ⟨hmiddle, hdefault⟩
      · exact hmiddle
      · rw [hmiddle]
        refine hbound.resolve_right fun hfirst => ?_
        rw [Option.isSome_iff_exists] at hdefault
        obtain ⟨value, hvalue⟩ := hdefault
        rw [head?_cons, Option.any_some, hvalue] at hfirst
        cases hfirst

/-- A signature whose first parameter is required, and that collects no further arguments. -/
def requiresArgument (signature : Signature) : Bool :=
  !signature.variadic && signature.params.head?.any (·.default.isNone)

/-- Binding neither drops all arguments nor makes up a required one. -/
theorem bind_eq_nil_iff {signature : Option Signature} {list bound : List (Argument Expr)}
    (hrequired : signature.any requiresArgument = true)
    (h : bind callee signature list line = .ok bound) : bound = [] ↔ list = [] := by
  unfold Signature.bind at h
  split at h
  · cases h
  cases signature with
  | none => cases hrequired
  | some signature =>
    obtain ⟨hvariadic, hfirst⟩ := Bool.and_eq_true_iff.mp hrequired
    rw [Bool.not_eq_true'] at hvariadic
    rw [Option.any_some, hvariadic, Bool.not_false, Bool.and_true] at h
    split at h
    · cases h
      exact Iff.rfl
    · rename_i hnamed
      have hlist : list ≠ [] := by
        rintro rfl
        exact hnamed rfl
      dsimp only at h
      cases hfold : signature.params.foldlM (Binding.param callee line)
          { positional := positionals list, named := nameds list } with
      | error fault =>
        rw [hfold] at h
        cases h
      | ok binding =>
        rw [hfold] at h
        simp only [Bind.bind, Except.bind, hvariadic] at h
        have hbound : binding.bound ≠ [] := bound_foldlM (.inr hfirst) hfold
        split at h <;> cases h
        refine iff_of_false (fun hnil => hbound (map_eq_nil_iff.mp hnil)) hlist

end Signature

/-! ## Tests of the dialect -/

/-- What the dialect declares of a test that needs an argument. -/
theorem core_tests {name : String} {test : Callable TestKind}
    (h : Dialect.core.tests.get? name = some test) (hneeds : test.kind.needsArgument = true) :
    name ∈ argumentTests ∧ test.oneArgument = (name != "constant") ∧
      test.signature.any Signature.requiresArgument = true := by
  have hall : Dialect.core.tests.entries.all (fun entry => !entry.2.kind.needsArgument ||
      (argumentTests.contains entry.1 && entry.2.oneArgument == (entry.1 != "constant") &&
        entry.2.signature.any Signature.requiresArgument)) = true := by
    decide +kernel
  have hentry := all_eq_true.mp hall _ (mem_of_lookup_eq_some h)
  simpa [hneeds, and_assoc] using hentry

namespace Grammar

open Parse

variable {context : Context} {state : State}

/-- A list up to its end mark is empty if the mark comes at once. -/
theorem ensures_separated {α : Type} {close : Char} {comma : String}
    {element : List α → Parse (List α)}
    (helement : ∀ list s, s.scope = state.scope → Ensures context AnyLine s (element list)
      fun list' after => list' ≠ [] ∧ Passes context s after) :
    Ensures context AnyLine state (separated close comma element []) fun list after =>
      (list = [] ↔ (context.tokenAt state.cursor).isPunctuation close = true) ∧
        Passes context state after := by
  -- In the first round nothing is taken; after it there is an element, and no mark before it.
  refine .loop (fun round s => (if round.2 then round.1 = [] ∧ s = state else
      round.1 ≠ [] ∧ (context.tokenAt state.cursor).isPunctuation close = false) ∧
        Passes context state s)
    ⟨⟨rfl, rfl⟩, .refl state⟩ fun round s hinv => ?_
  obtain ⟨list, first⟩ := round
  obtain ⟨hinv, hpass⟩ := hinv
  refine .current ?_
  split
  · rename_i hclose
    cases first with
    | true =>
      obtain ⟨rfl, rfl⟩ := hinv
      exact .pure ⟨iff_of_true rfl hclose, hpass⟩
    | false => exact .pure ⟨iff_of_false hinv.1 (Bool.eq_false_iff.mp hinv.2), hpass⟩
  rename_i hclose
  have hnone : (context.tokenAt state.cursor).isPunctuation close = false := by
    cases first with
    | true =>
      obtain ⟨-, rfl⟩ := hinv
      exact Bool.eq_false_iff.mpr hclose
    | false => exact hinv.2
  extract_lets more
  have hmore : ∀ s, Passes context state s → Ensures context AnyLine s (more ())
      fun outcome after =>
        Sum.elim (fun round => (if round.2 then round.1 = [] ∧ after = state else
          round.1 ≠ [] ∧ (context.tokenAt state.cursor).isPunctuation close = false) ∧
            Passes context state after)
          (fun list => (list = [] ↔
            (context.tokenAt state.cursor).isPunctuation close = true) ∧
              Passes context state after)
          outcome :=
    fun s hpass => .bind (helement list s hpass.scope_eq) fun _ _ hafter =>
      .pure ⟨⟨hafter.1, hnone⟩, hpass.trans hafter.2⟩
  split
  · rename_i hfirst
    rw [Bool.not_eq_true'] at hfirst
    rw [hfirst] at hinv
    refine .bind (passes_expectPunctuation ',' _) fun _ s' hcomma => .current ?_
    split
    · exact .pure ⟨iff_of_false hinv.1 (Bool.eq_false_iff.mp hnone), hpass.trans hcomma⟩
    · exact hmore s' (hpass.trans hcomma)
  · exact hmore s hpass

theorem ensures_arguments (depth : Nat) (named allowArrow : Bool) :
    Ensures context AnyLine state (arguments (Rules.upTo depth) named allowArrow) fun list after =>
      (list = [] ↔ (context.tokenAt (state.cursor + 1)).isPunctuation ')' = true) ∧
        after.scope = state.scope := by
  refine .bind ensures_expect fun _ m hopen => ?_
  obtain ⟨-, rfl, -⟩ := hopen
  refine .bind (ensures_separated fun list s hscope => ?_) fun list m hlist => ?_
  · have hargument := yields_argument (Rules.extends_alone context state.scope depth) named allowArrow
    exact .bind (hargument s hscope).ensures fun a _ ha =>
      .pure ⟨append_ne_nil_of_right_ne_nil _ (cons_ne_nil _ _), ha.1⟩
  · exact .bind (passes_expectPunctuation ')' _) fun _ _ hclose =>
      .pure ⟨hlist.1, (hlist.2.trans hclose).scope_eq⟩

theorem ensures_testName (hended : context.Ended) (line : Nat) :
    Ensures context AnyLine state (testName line) fun test after =>
      spelled? context.tokens state.cursor test.name = some after.cursor ∧
        ∃ registered, context.dialect.tests.get? test.name = some registered ∧
          test = { registered with name := test.name } := by
  refine .read (.bind ensures_expectName fun first m hfirst => ?_)
  obtain ⟨hfirst, rfl⟩ := hfirst
  have hkind : kindAt context.tokens state.cursor = .name first := by
    rw [kindAt_eq hended, Token.kind_eq_of_name? hfirst]
  dsimp only
  split
  · rename_i test hget
    refine .pure ⟨?_, test, hget, rfl⟩
    rw [spelled?, hkind]
    exact if_pos rfl
  rename_i hnone
  refine .current ?_
  split
  · exact .fail trivial rfl
  rename_i second hsecond
  have hkind' : kindAt context.tokens (state.cursor + 1) = .name second := by
    rw [kindAt_eq hended]
    exact Token.kind_eq_of_name? hsecond
  split
  · exact .fail trivial rfl
  rename_i test hget
  refine .bind ensures_next fun token m hnext => .pure ⟨?_, test, hget, rfl⟩
  obtain ⟨-, rfl⟩ := hnext
  have hne : first ≠ first ++ " " ++ second := by
    intro heq
    rw [← heq, hnone] at hget
    cases hget
  rw [spelled?, hkind, hkind']
  exact (if_neg hne).trans (if_pos rfl)

/-- **A test lacks the argument that it needs if and only if it is written without one.** -/
theorem ensures_testExpression (hended : context.Ended)
    (htests : context.dialect.tests = Dialect.core.tests) (depth : Nat) (operand : Expr) :
    Ensures context AnyLine state (testExpression (Rules.upTo depth) operand) fun e _ =>
      ∀ inner name kind list, e.kind = .test inner name kind list → kind.needsArgument = true →
        name ∈ argumentTests ∧ ∃ i, spelled? context.tokens state.cursor name = some i ∧
          (list = [] ↔ lacksArgument context.tokens name i = true) := by
  have hP := Admits.trivial context state.scope
  have hr := Rules.extends_alone context state.scope depth
  have hname : Ensures context AnyLine state (testName operand.line) fun _ after =>
      Passes context state after ∧ True := (yields_testName trivial).ensures rfl
  refine .bind ((ensures_testName hended _).and hname) fun test m htest => ?_
  obtain ⟨⟨hspelled, registered, hget, htest⟩, hname, -⟩ := htest
  have hs := hname.scope_eq
  have hdeclared : test.kind.needsArgument = true → test.name ∈ argumentTests ∧
      test.oneArgument = (test.name != "constant") ∧
        test.signature.any Signature.requiresArgument = true := by
    rw [htests] at hget
    obtain ⟨name, kind, signature, deprecation, oneArgument⟩ := test
    cases htest
    have hdeclared := core_tests hget
    exact hdeclared
  refine .current ?_
  extract_lets answer
  have hanswer : ∀ list m', m'.scope = state.scope → (test.kind.needsArgument = true →
        (list = [] ↔ lacksArgument context.tokens test.name m.cursor = true)) →
      Ensures context AnyLine m' (answer list) fun e _ =>
        ∀ inner name kind list, e.kind = .test inner name kind list → kind.needsArgument = true →
          name ∈ argumentTests ∧ ∃ i, spelled? context.tokens state.cursor name = some i ∧
            (list = [] ↔ lacksArgument context.tokens name i = true) := by
    intro list m' hs hlist
    refine .currentLine ?_
    split
    · rename_i hdefined
      have htrivial : ∀ e : Expr, e.All fun _ => True := fun _ _ _ => trivial
      refine .bind (Yields.ensures (yields_resolveMacro hP (htrivial operand)) hs)
        fun resolved m1 h1 => ?_
      refine .bind (Yields.ensures (yields_markDefined hP (htrivial resolved) trivial)
        (h1.1.scope_eq.trans hs)) fun _ m2 _ => .pure ?_
      rintro inner name kind list ⟨⟩ hneeds
      rw [hdefined] at hneeds
      cases hneeds
    · refine .bind (Yields.ensures (yields_warnDeprecated _ _ _ _) hs) fun _ m1 _ => ?_
      refine .bind (.checked fun fault hfault => ⟨trivial, Cause.isBroken_eq_false
        (Signature.fault_of_bind hfault).2⟩) fun bound m2 hbound => .pure ?_
      rintro inner name kind list ⟨⟩ hneeds
      obtain ⟨hname, -, hrequired⟩ := hdeclared hneeds
      have hnil := Signature.bind_eq_nil_iff hrequired hbound.1
      exact ⟨hname, m.cursor, hspelled, hnil.trans (hlist hneeds)⟩
  split
  · rename_i hparen
    have hopen : kindAt context.tokens m.cursor = .punctuation '(' := by
      rw [kindAt_eq hended]
      exact beq_iff_eq.mp hparen
    refine .bind (ensures_arguments depth true false) fun list m' hlist =>
      hanswer list m' (hlist.2.trans hs) fun _ => ?_
    rw [lacksArgument, if_pos hopen, decide_eq_true_eq, kindAt_eq hended, hlist.1]
    exact beq_iff_eq
  rename_i hparen
  have hclosed : kindAt context.tokens m.cursor ≠ .punctuation '(' := by
    rw [kindAt_eq hended]
    exact fun hkind => hparen (beq_iff_eq.mpr hkind)
  split
  · rename_i hone
    refine .bind (yields_primaryRule hP hr m hs).ensures fun e m' he => ?_
    refine .pure_bind (hanswer _ m' (he.1.scope_eq.trans hs) fun hneeds => ?_)
    rw [(hdeclared hneeds).2.1, bne_iff_ne] at hone
    rw [lacksArgument, if_neg hclosed, decide_eq_true_eq]
    exact iff_of_false (cons_ne_nil _ _) hone
  · rename_i hone
    refine .pure_bind (hanswer [] m hs fun hneeds => ?_)
    rw [(hdeclared hneeds).2.1, bne_iff_ne, not_not] at hone
    rw [lacksArgument, if_neg hclosed, decide_eq_true_eq]
    exact iff_of_true rfl hone

end Grammar

end TwigToLatte
