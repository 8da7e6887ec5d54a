import TwigToLatte.Conversion
import TwigToLatte.Dialect.Core
import TwigToLatte.Proofs.Latte.Agreement
import TwigToLatte.Proofs.Lexer.Symbols
import TwigToLatte.Proofs.Parse.Positions
import TwigToLatte.Proofs.Pass.Escape
import TwigToLatte.Proofs.Pass.Parts
import TwigToLatte.Proofs.Template.Balance
import TwigToLatte.Proofs.Template.Origin

/-!
# Filters that apply to statements

An `apply` statement holds a chain of filters whose innermost operand stands for the content of the
statement. Its header in Latte is the text of the chain, so it is well formed as long as the chain
is still a chain of filters when it is written.

* `Expr.applied?` — the filters of such a chain, in the order in which they apply.
* `Pass.Treats` — a pass drops some filters of a chain, and makes functions of others.
* `applied?_rewritten` — a chain after the passes of a conversion.
* `Latte.expressionAlone_applied` — the text of a chain.
* `FiltersWritten` — the filters of a chain are named at places of the tokens, in order.
* `applied_runStages` — **after the passes an `apply` statement holds a chain of filters if and only
  if none of its filters becomes a function, and then its header calls the remaining ones in order**.
-/

namespace TwigToLatte

open List

/-- A filter in a chain. -/
structure AppliedFilter where
  name : String
  arguments : List (Argument Expr)

/-- The filters of a chain that begins with the content of a statement. -/
def Expr.applied? : Expr → Option (List AppliedFilter)
  | ⟨.applyTarget, _, _⟩ => some []
  | ⟨.filter operand name list, _, _⟩ => operand.applied?.map (· ++ [⟨name, list⟩])
  | _ => none

def Stmt.appliedFilters? (stmt : Stmt) : Option Expr :=
  match stmt.kind with
  | .apply filters _ => some filters
  | _ => none

/-- The filters of each `apply` statement of a template, in order. -/
def Template.appliedFilters (t : Template) : List Expr := t.parts.filterMap Stmt.appliedFilters?

/-! ## Passes -/

namespace Pass

variable {q : Pass Unit} {drops replaces : String → Bool}

/-- A filter of which a pass has treated the arguments. -/
def onFilter (q : Pass Unit) (filter : AppliedFilter) : AppliedFilter :=
  ⟨filter.name, (q.arguments filter.arguments ()).1⟩

/-- A step drops some filters and makes other expressions of some; of other expressions it makes no
filters. -/
structure Treats (q : Pass Unit) (drops replaces : String → Bool) : Prop where
  filter : ∀ (operand : Expr) (name : String) (list : List (Argument Expr)) (line : Nat)
    (topmost : Bool), (q.exprStep ⟨.filter operand name list, line, topmost⟩).applied? =
      if drops name then operand.applied?
      else if replaces name then none else operand.applied?.map (· ++ [⟨name, list⟩])
  other : ∀ e : Expr, (∀ operand name list, e.kind ≠ .filter operand name list) →
    (q.exprStep e).applied? = e.applied?

/-- What becomes of a chain. -/
def treated (q : Pass Unit) (drops replaces : String → Bool) (chain : List AppliedFilter) :
    Option (List AppliedFilter) :=
  if chain.any (fun filter => !drops filter.name && replaces filter.name) then none
  else some ((chain.filter fun filter => !drops filter.name).map q.onFilter)

theorem treated_snoc (q : Pass Unit) (drops replaces : String → Bool) (chain : List AppliedFilter)
    (filter : AppliedFilter) :
    q.treated drops replaces (chain ++ [filter]) =
      if drops filter.name then q.treated drops replaces chain
      else if replaces filter.name then none
      else (q.treated drops replaces chain).map (· ++ [q.onFilter filter]) := by
  unfold treated
  rw [any_append, filter_append, map_append, any_cons, any_nil,
    Bool.or_false]
  cases hdrops : drops filter.name with
  | true => simp [hdrops]
  | false =>
    cases hreplaces : replaces filter.name with
    | true => simp
    | false =>
      cases chain.any fun filter => !drops filter.name && replaces filter.name with
      | true => rfl
      | false => simp [hdrops]

theorem Treats.applied?_onExpr (h : q.Treats drops replaces) (e : Expr) :
    (q.onExpr e).applied? = e.applied?.bind (q.treated drops replaces) := by
  induction e using Expr.children_induction with
  | _ e ih =>
    obtain ⟨kind, line, topmost⟩ := e
    cases kind with
    | filter operand name list =>
      have hstep := h.filter (q.onExpr operand) name (q.arguments list ()).1 line topmost
      rw [ih operand mem_cons_self] at hstep
      refine hstep.trans ?_
      rw [Expr.applied?]
      cases operand.applied? with
      | none => simp
      | some chain =>
        rw [Option.map_some, Option.bind_some, Option.bind_some, treated_snoc]
        rfl
    | _ => exact h.other ⟨_, line, topmost⟩ nofun

end Pass

theorem treats_replaceSelfCalls : replaceSelfCalls.Treats (fun _ => false) (fun _ => false) where
  filter _ _ _ _ _ := rfl
  other := by
    rintro ⟨kind, line, topmost⟩ -
    show (Option.getD (Expr.selfCall? ⟨kind, line, topmost⟩) _).applied? = _
    cases kind with
    | access object key list call defined =>
      rw [Expr.selfCall?]
      dsimp only
      split
      · cases key.string? <;> rfl
      · rfl
    | _ => rfl

theorem treats_simplifyOutput (rawFilter : Bool) :
    (simplifyOutput rawFilter).Treats (fun name => rawFilter && name == "raw") (fun _ => false) where
  filter operand name list line topmost := by
    show (if rawFilter then Expr.dropRaw ⟨.filter operand name list, line, topmost⟩ else _).applied? =
      _
    cases rawFilter with
    | false => rfl
    | true =>
      rw [if_pos rfl, Expr.dropRaw_filter, Bool.true_and]
      split <;> rfl
  other e he := by
    show (if rawFilter then e.dropRaw else e).applied? = _
    have hdrop : e.dropRaw = e := by
      unfold Expr.dropRaw
      split
      · rename_i hkind
        exact absurd hkind (he _ _ _)
      · rfl
    rw [hdrop, ite_self]

theorem treats_latteIdioms :
    latteIdioms.Treats isEscape (fun name => (filterFunctions.lookup name).isSome) where
  filter operand name list line topmost := by
    show (Expr.idiom ⟨.filter operand name list, line, topmost⟩).applied? = _
    rw [Expr.idiom]
    dsimp only
    split
    · rfl
    · cases filterFunctions.lookup name <;> rfl
  other := by
    rintro ⟨kind, line, topmost⟩ he
    show (Expr.idiom ⟨kind, line, topmost⟩).applied? = _
    unfold Expr.idiom
    split
    · rename_i hkind
      exact absurd hkind (he _ _ _)
    · rename_i hkind
      cases hkind
      rfl
    · rfl

/-- An expression after the passes of a conversion. -/
def Expr.rewritten (rawFilter : Bool) (e : Expr) : Expr :=
  latteIdioms.onExpr (e.simplified rawFilter)

namespace AppliedFilter

/-- The filter with its arguments after the passes of a conversion. -/
def rewritten (rawFilter : Bool) (filter : AppliedFilter) : AppliedFilter :=
  ⟨filter.name, filter.arguments.map fun a => ⟨a.name, a.value.rewritten rawFilter⟩⟩

/-- Whether the filter becomes a function call. -/
def isFunction (filter : AppliedFilter) : Bool := (filterFunctions.lookup filter.name).isSome

def isDropped (rawFilter : Bool) (filter : AppliedFilter) : Bool :=
  isEscape filter.name || rawFilter && filter.name == "raw"

theorem isDropped_of_isFunction {filter : AppliedFilter} (h : filter.isFunction = true)
    (rawFilter : Bool) : filter.isDropped rawFilter = false := by
  obtain ⟨function, hlookup⟩ := Option.isSome_iff_exists.mp h
  have hall : filterFunctions.all (fun entry => !isEscape entry.1 && entry.1 != "raw") = true := by
    decide
  have hentry := all_eq_true.mp hall _ (mem_of_lookup_eq_some hlookup)
  rw [Bool.and_eq_true, Bool.not_eq_true', bne_iff_ne] at hentry
  rw [isDropped, hentry.1, beq_eq_false_iff_ne.mpr hentry.2, Bool.and_false, Bool.or_false]

end AppliedFilter

/-- The filters of a chain that remain after the passes of a conversion. -/
def remainingFilters (rawFilter : Bool) (chain : List AppliedFilter) : List AppliedFilter :=
  (chain.filter fun filter => !filter.isDropped rawFilter).map (·.rewritten rawFilter)

theorem Pass.fst_arguments (q : Pass Unit) (list : List (Argument Expr)) :
    (q.arguments list ()).1 = list.map fun a => ⟨a.name, q.onExpr a.value⟩ := by
  induction list with
  | nil => rfl
  | cons a rest ih => exact congrArg (_ :: ·) ih

/-- A chain before the last of the passes. -/
def simplifiedFilters (rawFilter : Bool) (chain : List AppliedFilter) : List AppliedFilter :=
  ((chain.map replaceSelfCalls.onFilter).filter fun filter =>
    !(rawFilter && filter.name == "raw")).map (simplifyOutput rawFilter).onFilter

theorem applied?_simplified (rawFilter : Bool) (e : Expr) :
    (e.simplified rawFilter).applied? = e.applied?.map (simplifiedFilters rawFilter) := by
  rw [Expr.simplified, (treats_simplifyOutput rawFilter).applied?_onExpr,
    treats_replaceSelfCalls.applied?_onExpr]
  cases e.applied? with
  | none => rfl
  | some chain => simp [Pass.treated, simplifiedFilters]

/-- The filters that become functions are neither dropped nor renamed before. -/
theorem any_simplifiedFilters (rawFilter : Bool) (chain : List AppliedFilter) :
    (simplifiedFilters rawFilter chain).any
        (fun filter => !isEscape filter.name && (filterFunctions.lookup filter.name).isSome) =
      chain.any AppliedFilter.isFunction := by
  rw [simplifiedFilters, any_map, any_filter, any_map]
  refine congrArg chain.any (funext fun filter => ?_)
  show (!(rawFilter && filter.name == "raw") && (!isEscape filter.name && filter.isFunction)) =
    filter.isFunction
  cases hfunction : filter.isFunction with
  | false => rw [Bool.and_false, Bool.and_false]
  | true =>
    have hkept := AppliedFilter.isDropped_of_isFunction hfunction rawFilter
    rw [AppliedFilter.isDropped, Bool.or_eq_false_iff] at hkept
    rw [hkept.1, hkept.2]
    rfl

theorem onFilter_latteIdioms (rawFilter : Bool) :
    (latteIdioms.onFilter ∘ (simplifyOutput rawFilter).onFilter) ∘ replaceSelfCalls.onFilter =
      AppliedFilter.rewritten rawFilter := by
  funext filter
  simp only [Function.comp_apply, Pass.onFilter, Pass.fst_arguments, map_map]
  rfl

theorem filter_simplifiedFilters (rawFilter : Bool) (chain : List AppliedFilter) :
    ((simplifiedFilters rawFilter chain).filter fun filter => !isEscape filter.name).map
        latteIdioms.onFilter = remainingFilters rawFilter chain := by
  rw [simplifiedFilters, filter_map, filter_map, map_map, filter_map,
    map_map, onFilter_latteIdioms, filter_filter, remainingFilters]
  refine congrArg _ (congrArg (chain.filter ·) (funext fun filter => ?_))
  exact (Bool.not_or _ _).symm

/-- **A chain after the passes of a conversion**: it is none any more if one of its filters becomes
a function, and otherwise the remaining filters make it up. -/
theorem applied?_rewritten (rawFilter : Bool) (e : Expr) :
    (e.rewritten rawFilter).applied? = e.applied?.bind fun chain =>
      if chain.any AppliedFilter.isFunction then none
      else some (remainingFilters rawFilter chain) := by
  rw [Expr.rewritten, treats_latteIdioms.applied?_onExpr, applied?_simplified]
  cases e.applied? with
  | none => rfl
  | some chain =>
    rw [Option.map_some, Option.bind_some, Option.bind_some, Pass.treated, any_simplifiedFilters,
      filter_simplifiedFilters]

/-! ## Statements -/

theorem Stmt.appliedFilters?_plain (stmt : Stmt) :
    stmt.plain.appliedFilters? = stmt.appliedFilters? := by
  obtain ⟨kind, line⟩ := stmt
  cases kind <;> rfl

theorem Template.appliedFilters_plain (t : Template) :
    t.plain.appliedFilters = t.appliedFilters := by
  rw [appliedFilters, parts_plain, filterMap_map]
  exact congrArg t.parts.filterMap (funext Stmt.appliedFilters?_plain)

/-- A pass whose steps on statements leave `apply` alone treats the filters of every `apply`. -/
theorem Pass.Local.appliedFilters_onTemplate {q : Pass Unit} (h : q.Local)
    (hstep : ∀ stmt : Stmt, (q.stmtStep stmt).appliedFilters? = stmt.appliedFilters?)
    (t : Template) : (q.onTemplate t).appliedFilters = t.appliedFilters.map q.onExpr := by
  have hstmt : ∀ stmt : Stmt,
      (q.onStmt stmt).appliedFilters? = stmt.appliedFilters?.map q.onExpr := by
    intro stmt
    rw [Pass.onStmt, hstep]
    obtain ⟨kind, line⟩ := stmt
    cases kind <;> rfl
  rw [Template.appliedFilters, h.parts_onTemplate, filterMap_map, Template.appliedFilters,
    map_filterMap]
  exact congrArg t.parts.filterMap (funext hstmt)

/-- The passes of a conversion rewrite the filters of every `apply`. -/
theorem Template.appliedFilters_rewritten (rawFilter : Bool) (t : Template) :
    (t.rewritten rawFilter).appliedFilters = t.appliedFilters.map (Expr.rewritten rawFilter) := by
  have hidiom : ∀ stmt : Stmt, stmt.idiom.appliedFilters? = stmt.appliedFilters? := by
    intro stmt
    unfold Stmt.idiom
    split
    · rename_i hkind
      dsimp only
      split <;> simp [Stmt.appliedFilters?, hkind]
    · rfl
  have hpromote : ∀ stmt : Stmt, stmt.promoteBlock.appliedFilters? = stmt.appliedFilters? := by
    intro stmt
    unfold Stmt.promoteBlock
    split
    · rename_i hkind
      simp [Stmt.appliedFilters?, hkind]
    · rename_i hkind
      simp [Stmt.appliedFilters?, hkind]
    · rfl
  rw [Template.rewritten, local_latteIdioms.appliedFilters_onTemplate hidiom,
    (local_simplifyOutput rawFilter).appliedFilters_onTemplate hpromote,
    local_replaceSelfCalls.appliedFilters_onTemplate (fun _ => rfl), appliedFilters_plain,
    map_map, map_map]
  rfl

/-! ## Text -/

namespace Latte

def filterCalls (scope : Scope) (chain : List AppliedFilter) : Rendered :=
  chain.foldl (fun text filter => text ++ filterCall scope filter.name filter.arguments) ""

theorem expressionAlone_applied (scope : Scope) : ∀ {e : Expr} {chain : List AppliedFilter},
    e.applied? = some chain → expressionAlone scope e = filterCalls scope chain
  | ⟨.applyTarget, _, _⟩, _, h => by
    cases h
    rfl
  | ⟨.filter operand name list, _, _⟩, _, h => by
    obtain ⟨chain, hchain, rfl⟩ := Option.map_eq_some_iff.mp h
    rw [filterCalls, foldl_append, ← filterCalls, ← expressionAlone_applied scope hchain]
    rfl
  | ⟨.constant _, _, _⟩, _, h | ⟨.name _ _, _, _⟩, _, h | ⟨.target _, _, _⟩, _, h
  | ⟨.array _, _, _⟩, _, h | ⟨.unary _ _, _, _⟩, _, h | ⟨.binary _ _ _, _, _⟩, _, h
  | ⟨.conditional _ _ _, _, _⟩, _, h | ⟨.access _ _ _ _ _, _, _⟩, _, h
  | ⟨.macroCall _ _ _ _, _, _⟩, _, h | ⟨.test _ _ _ _, _, _⟩, _, h
  | ⟨.function _ _ _ _, _, _⟩, _, h | ⟨.arrow _ _, _, _⟩, _, h
  | ⟨.blockCall _ _ _ _, _, _⟩, _, h | ⟨.parent _ _, _, _⟩, _, h => by cases h

/-- A block to which the given calls apply. -/
def appliedBlock (calls : Rendered) (body : List Stmt) (line : Nat) (block : BlockWriter)
    (scope : Scope) : Emit Unit := do
  Emit.mark line
  Emit.rendered ("\x7bblock" ++ calls ++ "\x7d")
  statements body block scope
  Emit.text "\x7b/block\x7d"

/-- An `apply` statement whose filters are a chain is a block to which its filters apply. -/
theorem statement_apply {filters : Expr} {chain : List AppliedFilter}
    (h : filters.applied? = some chain) (body : List Stmt) (line : Nat) (block : BlockWriter)
    (scope : Scope) : statement ⟨.apply filters body, line⟩ block scope =
      appliedBlock (filterCalls scope chain) body line block scope := by
  rw [← expressionAlone_applied scope h]
  rfl

end Latte

/-! ## Where filters are written -/

/-- The filters of a chain are named one after the other, at places of the tag that goes on at an
index. -/
structure FiltersWritten (tokens : Array Token) (start : Nat) (chain : List AppliedFilter)
    (places : List Nat) : Prop where
  ordered : places.Pairwise (· < ·)
  names : places.map (kindAt tokens) = chain.map fun filter => .name filter.name
  inside : ∀ i ∈ places, start ≤ i ∧
    ∀ j, start ≤ j → j ≤ i → (kindAt tokens j).isInner = true

theorem FiltersWritten.snoc {tokens : Array Token} {start i : Nat} {chain : List AppliedFilter}
    {places : List Nat} (h : FiltersWritten tokens start chain places)
    (hbefore : ∀ j ∈ places, j < i) {filter : AppliedFilter}
    (hkind : kindAt tokens i = .name filter.name) (hle : start ≤ i)
    (hinner : ∀ j, start ≤ j → j < i → (kindAt tokens j).isInner = true) :
    FiltersWritten tokens start (chain ++ [filter]) (places ++ [i]) where
  ordered := pairwise_append.mpr ⟨h.ordered, pairwise_singleton _ _,
    fun j hj k hk => mem_singleton.mp hk ▸ hbefore j hj⟩
  names := by
    rw [map_append, map_append, h.names, map_singleton, map_singleton, hkind]
  inside := by
    refine forall_mem_append.mpr ⟨h.inside, forall_mem_singleton.mpr ⟨hle, ?_⟩⟩
    intro j hj hji
    rcases Nat.lt_or_eq_of_le hji with hlt | rfl
    · exact hinner j hj hlt
    · rw [hkind]
      rfl

/-- The filters of a chain are those of the `apply` tag that begins at an index. -/
structure AppliedAt (dialect : Dialect) (tokens : Array Token) (i : Nat)
    (chain : List AppliedFilter) : Prop where
  start : kindAt tokens i = .blockStart
  keyword : ∃ name, kindAt tokens (i + 1) = .name name ∧ dialect.tag? name = some .apply
  filters : ∃ places, FiltersWritten tokens (i + 2) chain places

namespace Grammar

open Parse

variable {context : Context} {state : State} {e : Expr} {chain : List AppliedFilter}

theorem isReplaceable_of_applied (h : e.applied? = some chain) : isReplaceable e = false := by
  obtain ⟨kind, line, topmost⟩ := e
  cases kind <;> first | rfl | cases h

theorem ensures_buildFilter {operand : Expr} (hoperand : isReplaceable operand = false)
    (name : String) (list : List (Argument Expr)) (line : Nat) :
    Ensures context AnyLine state (buildFilter operand name list line) fun e after =>
      Passes context state after ∧ ∃ bound, e.kind = .filter operand name bound := by
  refine .read ?_
  dsimp only
  cases context.dialect.filter? name with
  | none => exact .fail trivial rfl
  | some filter =>
    refine .bind (Yields.ensures (yields_warnDeprecated _ _ _ _) rfl) fun _ m hwarn => ?_
    refine .bind (.checked fun fault hfault => ⟨trivial, Cause.isBroken_eq_false
      (Signature.fault_of_bind hfault).2⟩) fun bound m' hbound => ?_
    obtain ⟨-, rfl⟩ := hbound
    rw [hoperand, if_neg (fun h => Bool.false_ne_true h.2)]
    exact .pure ⟨hwarn.1, bound, rfl⟩

/-- The operand that the loop over filters holds is a chain of those that are written so far. -/
structure ChainRead (context : Context) (start : State) (e : Expr) (s : State)
    (chain : List AppliedFilter) (places : List Nat) : Prop where
  passes : Passes context start s
  applied : e.applied? = some chain
  written : FiltersWritten context.tokens start.cursor chain places
  before : ∀ i ∈ places, i < s.cursor

theorem ChainRead.start (context : Context) (state : State) (line : Nat) :
    ChainRead context state { kind := .applyTarget, line } state [] [] where
  passes := .refl state
  applied := rfl
  written := ⟨.nil, rfl, forall_mem_nil _⟩
  before := forall_mem_nil _

/-- A round of the loop adds the filter that is named next. -/
theorem ChainRead.filter {start s s' : State} {filtered : Expr} {places : List Nat}
    (h : ChainRead context start e s chain places) (hended : context.Ended) {name : String}
    (hname : (context.tokenAt s.cursor).name? = some name) {bound : List (Argument Expr)}
    (hfiltered : filtered.kind = .filter e name bound) (hpasses : Passes context (s.skip 1) s') :
    ChainRead context start filtered s' (chain ++ [⟨name, bound⟩]) (places ++ [s.cursor]) where
  passes := by
    refine (h.passes.trans (.skip (Token.isInner_of_name? ?_))).trans hpasses
    rw [hname]
    rfl
  applied := by
    obtain ⟨kind, line, topmost⟩ := filtered
    cases hfiltered
    exact congrArg (Option.map _) h.applied
  written := by
    refine h.written.snoc h.before
      ((kindAt_eq hended _).trans (Token.kind_eq_of_name? hname)) h.passes.le fun j hj hlt => ?_
    rw [kindAt_eq hended]
    exact h.passes.inner j hj hlt
  before := by
    have hle : s.cursor + 1 ≤ s'.cursor := hpasses.le
    refine forall_mem_append.mpr ⟨fun i hi => ?_, forall_mem_singleton.mpr hle⟩
    have hlt := h.before i hi
    omega

/-- A chain of filters is read in the order in which it is written. -/
theorem ensures_filterChain (hended : context.Ended) (depth line : Nat) :
    Ensures context AnyLine state (filterChain (Rules.upTo depth) { kind := .applyTarget, line })
      fun e _ => ∃ chain, e.applied? = some chain ∧ chain ≠ [] ∧
        ∃ places, FiltersWritten context.tokens state.cursor chain places := by
  refine .loop (fun e s => ∃ chain places, ChainRead context state e s chain places)
    ⟨[], [], .start context state line⟩ fun operand s hinv => ?_
  obtain ⟨chain, places, hread⟩ := hinv
  refine .bind ensures_expect fun token s1 htoken => ?_
  obtain ⟨rfl, rfl, hfound⟩ := htoken
  obtain ⟨name, hname⟩ := Option.isSome_iff_exists.mp hfound
  refine .current ?_
  extract_lets apply
  have happly : ∀ list s2, Passes context (s.skip 1) s2 →
      Ensures context AnyLine s2 (apply list) fun outcome after =>
        outcome.elim (fun e => ∃ chain places, ChainRead context state e after chain places)
          fun e => ∃ chain, e.applied? = some chain ∧ chain ≠ [] ∧
            ∃ places, FiltersWritten context.tokens state.cursor chain places := by
    intro list s2 hpass2
    refine .bind (ensures_buildFilter (isReplaceable_of_applied hread.applied) _ _ _)
      fun filtered s3 hfiltered => ?_
    obtain ⟨hpass3, bound, hfiltered⟩ := hfiltered
    rw [hname] at hfiltered
    refine .bind (passes_nextIfPunctuation '|') fun more s4 hmore => ?_
    have hnext := hread.filter hended hname hfiltered (hpass2.trans (hpass3.trans hmore))
    generalize more.isSome = found
    cases found with
    | true => exact .pure ⟨_, _, hnext⟩
    | false =>
      exact .pure ⟨_, hnext.applied, append_ne_nil_of_right_ne_nil _ (cons_ne_nil _ _),
        _, hnext.written⟩
  split
  · have hr := Rules.extends_alone context (s.skip 1).scope depth
    exact .bind (yields_arguments hr true true _ rfl).ensures fun list s2 hlist =>
      happly list s2 hlist.1
  · exact .pure_bind (happly [] _ (.refl _))

end Grammar

/-- The filters of an `apply` statement are those that it is written with. -/
theorem Grammar.describes_appliedAt {context : Parse.Context} (hended : context.Ended) :
    Describes (Opens context) context Parse.AnyLine
      (fun e => ∃ name line, e = Expr.name name line)
      (fun stmt => ∀ filters, stmt.appliedFilters? = some filters →
        ∃ i chain, filters.applied? = some chain ∧ chain ≠ [] ∧
          AppliedAt context.dialect context.tokens i chain) (fun _ => True) where
  holder _ := ⟨_, _, rfl⟩
  statement := by
    intro s s' stmt _ h _ filters hfilters
    cases h with
    | @around s s1 s2 s3 tag line endName kind body opens head inside =>
      cases head <;> cases hfilters
      rename_i filters
      rw [nested, Parse.bind_eq_of_ok Parse.remaining_eq] at filters
      obtain ⟨chain, hchain, hne, places, hplaces⟩ :=
        (ensures_filterChain hended _ line).of_ok filters
      obtain ⟨name, hname, htag⟩ := opens.keyword
      refine ⟨s.cursor, chain, hchain, hne, ?_, ⟨name, ?_, htag⟩, places, ?_⟩
      · rw [Parse.kindAt_eq hended, opens.start]
      · rw [Parse.kindAt_eq hended, Token.kind_eq_of_name? hname]
      · rw [← opens.cursor_eq]
        exact hplaces
    | literal token =>
      obtain ⟨text, rfl | rfl | rfl⟩ := literal?_eq_some token <;> cases hfilters
    | single opens holds => cases holds <;> cases hfilters
    | _ => cases hfilters
  print _ _ _ := nofun
  sandboxed _ := nofun
  expr _ _ := trivial
  defaults _ _ _ _ := trivial

/-- **After the passes an `apply` statement holds a chain of filters if and only if none of its
filters becomes a function.** The statements of every template in the result are those of a template
that was read, and each of them is written as a tag with a chain of filters. If none of them becomes
a function, the remaining filters are left in the order of the source, and the statement is a block
whose header calls them. -/
theorem applied_runStages {dialect : Dialect} {source : Source} {tokens : Array Token}
    {t m : Template} (htokens : Lexer.tokenize source.text dialect.operatorSymbols = .ok tokens)
    (h : (Template.parse dialect source).result = .ok t) (hm : (dialect.runStages t).Module m) :
    let rawFilter := dialect.optimizations.rawFilter
    ∃ m₀, t.Module m₀ ∧ m.appliedFilters = m₀.appliedFilters.map (Expr.rewritten rawFilter) ∧
      ∀ filters ∈ m₀.appliedFilters, ∃ i chain, filters.applied? = some chain ∧ chain ≠ [] ∧
        AppliedAt dialect tokens i chain ∧
        ((filters.rewritten rawFilter).applied?.isSome = true ↔
          ∀ filter ∈ chain, filter.isFunction = false) ∧
        ((∀ filter ∈ chain, filter.isFunction = false) →
          (filters.rewritten rawFilter).applied? = some (remainingFilters rawFilter chain) ∧
          ∀ body line block scope,
            Latte.statement ⟨.apply (filters.rewritten rawFilter) body, line⟩ block scope =
              Latte.appliedBlock (Latte.filterCalls scope (remainingFilters rawFilter chain)) body
                line block scope) := by
  intro rawFilter
  have hended : (Parse.Context.mk dialect source.displayName tokens).Ended :=
    (ended_tokenize htokens).1
  obtain ⟨m₀, hm₀, hplain⟩ := Template.module_runStages hm
  have hstatements := (satisfies_parse h fun tokens' htokens' => by
    cases htokens.symm.trans htokens'
    exact Grammar.describes_appliedAt hended).statements m₀ hm₀
  refine ⟨m₀, hm₀, ?_, fun filters hfilters => ?_⟩
  · rw [← Template.appliedFilters_plain, hplain, Template.appliedFilters_rewritten]
  · obtain ⟨stmt, hstmt, hstmtFilters⟩ := mem_filterMap.mp hfilters
    obtain ⟨i, chain, hchain, hne, hat⟩ := hstatements stmt hstmt filters hstmtFilters
    have hrewritten := applied?_rewritten rawFilter filters
    rw [hchain, Option.bind_some] at hrewritten
    have hkept : (∀ filter ∈ chain, filter.isFunction = false) →
        (filters.rewritten rawFilter).applied? = some (remainingFilters rawFilter chain) := by
      intro hfunction
      rw [hrewritten, if_neg]
      simpa using hfunction
    refine ⟨i, chain, hchain, hne, hat, ⟨?_, fun hfunction => ?_⟩, fun hfunction => ?_⟩
    · intro hsome filter hmem
      rw [hrewritten] at hsome
      split at hsome
      · cases hsome
      · rename_i hany
        simpa using fun hfunction => hany (any_eq_true.mpr ⟨filter, hmem, hfunction⟩)
    · rw [hkept hfunction]
      rfl
    · exact ⟨hkept hfunction, Latte.statement_apply (hkept hfunction)⟩

/-- Filters apply to a text in a block. -/
def filteredBlock : Source :=
  ⟨"\x7b% block b %\x7d\x7b% apply escape|upper|slice(1, 2) %\x7dx\x7b% endapply %\x7d" ++
    "\x7b% endblock %\x7d", "", none⟩

theorem applied_runStages_block : ∃ tokens t,
    Lexer.tokenize filteredBlock.text Dialect.core.operatorSymbols = .ok tokens ∧
      (Template.parse Dialect.core filteredBlock).result = .ok t ∧
      t.appliedFilters.map (fun filters => filters.applied?.map (·.map (·.name))) =
        [some ["escape", "upper", "slice"]] ∧
      (∃ m₀, t.Module m₀ ∧
        (Dialect.core.runStages t).appliedFilters =
          m₀.appliedFilters.map (Expr.rewritten Dialect.core.optimizations.rawFilter) ∧
        ∀ filters ∈ m₀.appliedFilters, ∃ i chain,
          filters.applied? = some chain ∧ AppliedAt Dialect.core tokens i chain) ∧
      (convert Dialect.core filteredBlock).result =
        .ok ⟨"\x7bblock b\x7d\x7bblock|upper|slice:1, 2\x7dx\x7b/block\x7d\x7b/block\x7d",
          #[(1, 1)]⟩ := by
  have hlexed : (Lexer.tokenize filteredBlock.text Dialect.core.operatorSymbols).toOption.any
      (fun _ => true) = true := by
    rw [Lexer.tokenize, Pattern.orderSymbols_eq]
    decide +kernel
  have hparsed : (Template.parse Dialect.core filteredBlock).result.toOption.any (fun t =>
      decide (t.appliedFilters.map (fun filters => filters.applied?.map (·.map (·.name))) =
        [some ["escape", "upper", "slice"]])) = true := by
    rw [Template.parse, Dialect.tokenize, Lexer.tokenize, Pattern.orderSymbols_eq]
    decide +kernel
  have hconvert : (convert Dialect.core filteredBlock).result =
      .ok ⟨"\x7bblock b\x7d\x7bblock|upper|slice:1, 2\x7dx\x7b/block\x7d\x7b/block\x7d",
        #[(1, 1)]⟩ := by
    simp only [convert, Template.convert, Dialect.runStages, Dialect.stages_eq, Template.parse,
      Dialect.tokenize, Lexer.tokenize, Pattern.orderSymbols_eq]
    decide +kernel
  obtain ⟨tokens, htokens, -⟩ := eq_ok_of_any hlexed
  obtain ⟨t, hresult, hnames⟩ := eq_ok_of_any hparsed
  obtain ⟨m₀, hm₀, hfilters, hchains⟩ := applied_runStages htokens hresult .self
  refine ⟨tokens, t, htokens, hresult, of_decide_eq_true hnames, ⟨m₀, hm₀, hfilters, ?_⟩, hconvert⟩
  intro filters hmem
  obtain ⟨i, chain, hchain, -, hat, -⟩ := hchains filters hmem
  exact ⟨i, chain, hchain, hat⟩

/-- A filter on collections applies to a text. -/
def filteredKeys : Source :=
  ⟨"\x7b% apply keys %\x7dx\x7b% endapply %\x7d", "", none⟩

/-- A filter that becomes a function leaves no chain, and its call is glued to the keyword. -/
theorem applied_keys :
    (Template.parse Dialect.core filteredKeys).result.toOption.any (fun t =>
      (Dialect.core.runStages t).appliedFilters.any (·.applied?.isNone)) = true ∧
    (convert Dialect.core filteredKeys).result =
      .ok ⟨"\x7bblockarray_keys()\x7dx\x7b/block\x7d", #[(1, 1)]⟩ := by
  simp only [convert, Template.convert, Dialect.runStages, Dialect.stages_eq, Template.parse,
    Dialect.tokenize, Lexer.tokenize, Pattern.orderSymbols_eq]
  decide +kernel

end TwigToLatte
