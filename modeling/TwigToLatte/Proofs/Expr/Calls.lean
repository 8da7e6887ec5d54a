import TwigToLatte.Expr.Grammar
import TwigToLatte.Proofs.Expr.Binding
import TwigToLatte.Proofs.Parse.Progress
import TwigToLatte.Proofs.Template.Expressions

/-!
# What calls yield

The rules of expressions take tokens inside tags only, define nothing, and build expressions from
expressions. So a property of single expressions holds of all parts of what is read, if it holds of
every form but tests, calls of `parent` and anonymous functions, and of those that are read. Every
expression takes its line from a token or from an expression inside it, and so does every fault.

* `Expr.All` — an expression and all expressions inside it have a property.
* `Signature.all_of_bind` — binding arguments keeps their expressions, and adds constants and arrays.
* `Admits` — the property holds of every ordinary form, and of the other ones that are read.
* `Yields` — tokens are passed over, and all expressions that come of them have the property.
* `Rules.Extends` — the rules of the expressions inside an expression yield it.
* `yields_arguments`, `yields_filterChain`, `yields_functionCall`, … — so do **arguments, filters and
  calls**.
-/

namespace TwigToLatte

open List

def Expr.isTest (e : Expr) : Bool :=
  match e.kind with
  | .test .. => true
  | _ => false

/-- The block whose content in the parent the expression is. -/
def Expr.calledParent? (e : Expr) : Option String :=
  match e.kind with
  | .parent block _ => some block
  | _ => none

/-- The names of the parameters, if the expression is an anonymous function. -/
def Expr.parameters (e : Expr) : List String :=
  match e.kind with
  | .arrow names _ => names
  | _ => []

/-- The expression is neither a test, nor a call of `parent`, nor an anonymous function. -/
def Expr.isOrdinary (e : Expr) : Bool :=
  match e.kind with
  | .test .. | .parent .. | .arrow .. => false
  | _ => true

variable {e : Expr}

theorem Expr.isTest_of_isOrdinary (h : e.isOrdinary = true) : e.isTest = false := by
  obtain ⟨kind, line, topmost⟩ := e
  cases kind <;> first | rfl | cases h

theorem Expr.calledParent?_of_isOrdinary (h : e.isOrdinary = true) : e.calledParent? = none := by
  obtain ⟨kind, line, topmost⟩ := e
  cases kind <;> first | rfl | cases h

theorem Expr.calledParent?_of_isTest (h : e.isTest = true) : e.calledParent? = none := by
  obtain ⟨kind, line, topmost⟩ := e
  cases kind <;> first | rfl | cases h

/-- The expression is a constant or an array. -/
def Expr.isData (e : Expr) : Bool :=
  match e.kind with
  | .constant _ | .array _ => true
  | _ => false

/-- The tests that compare their operand with an argument. -/
def TestKind.needsArgument : TestKind → Bool
  | .divisibleBy | .sameAs | .constant => true
  | _ => false

/-- Whether a token is an operator that announces a test. -/
def Dialect.isTestOperator (dialect : Dialect) : Token.Kind → Bool
  | .operator symbol =>
    (dialect.binary.get? symbol).any fun operator =>
      operator.kind = .test ∨ operator.kind = .notTest
  | _ => false

/-- The expression and all expressions inside it have the property. -/
def Expr.All (P : Expr → Prop) (e : Expr) : Prop := ∀ x ∈ e.parts, P x

section

variable {P : Expr → Prop} {e : Expr}

theorem Expr.all_iff : e.All P ↔ P e ∧ ∀ x ∈ e.kind.parts, P x := by
  rw [Expr.All, e.parts_eq, forall_mem_cons]

theorem Expr.All.kind_parts (h : e.All P) : ∀ x ∈ e.kind.parts, P x := (Expr.all_iff.mp h).2

theorem forall_mem_listParts {list : List Expr} :
    (∀ x ∈ listParts list, P x) ↔ ∀ e ∈ list, e.All P := by
  rw [listParts_eq, forall_mem_flatMap]
  rfl

theorem forall_mem_argumentParts {list : List (Argument Expr)} :
    (∀ x ∈ argumentParts list, P x) ↔ ∀ a ∈ list, a.value.All P := by
  rw [argumentParts_eq, forall_mem_flatMap]
  rfl

theorem forall_mem_itemParts {items : List (Expr × Expr)} :
    (∀ x ∈ itemParts items, P x) ↔ ∀ item ∈ items, item.1.All P ∧ item.2.All P := by
  simp only [itemParts_eq, forall_mem_flatMap, forall_mem_append]
  rfl

end

/-! ## Signatures -/

namespace Signature

variable {P : Expr → Prop}

structure Binding.All (P : Expr → Prop) (binding : Binding) : Prop where
  positional : ∀ e ∈ binding.positional, e.All P
  named : ∀ entry ∈ binding.named.entries, entry.2.All P
  bound : ∀ e ∈ binding.bound, e.All P
  pending : ∀ e ∈ binding.pending, e.All P

variable {binding : Binding} {line : Nat} {callee : Callee} {list : List (Argument Expr)}

theorem Binding.All.push (h : binding.All P) {value : Expr} (hvalue : value.All P) :
    (binding.push value).All P := by
  refine { h with bound := fun e hmem => ?_, pending := forall_mem_nil _ }
  rcases mem_append.mp hmem with hmem | hmem
  · exact (mem_append.mp hmem).elim (h.bound e) (h.pending e)
  · rw [mem_singleton.mp hmem]
    exact hvalue

/-- What is made of values on a line has the property. -/
def Makes (line : Nat) (P : Expr → Prop) : Prop :=
  ∀ e : Expr, e.isData = true → e.line = line → P e

theorem Makes.all_constant (h : Makes line P) (value : Value) : (Expr.constant value line).All P :=
  Expr.all_iff.mpr ⟨h _ rfl rfl, forall_mem_nil _⟩

theorem Binding.All.param (hmakes : Makes line P) {next : Binding} {param : Param}
    (h : binding.All P) (hparam : binding.param callee line param = .ok next) : next.All P := by
  unfold Binding.param at hparam
  split at hparam
  · cases hparam
  · rename_i value hnamed hpositional
    cases hparam
    have hvalue : value.All P := h.named _ (mem_of_lookup_eq_some hnamed)
    exact { h.push hvalue with
      named := fun entry hmem => h.named entry (mem_of_mem_filter hmem) }
  · rename_i value rest hnamed hpositional
    cases hparam
    have hall := h.positional
    rw [hpositional, forall_mem_cons] at hall
    exact { h.push hall.1 with positional := hall.2 }
  · cases hdefault : param.default with
    | none =>
      rw [hdefault] at hparam
      cases hparam
    | some value =>
      rw [hdefault] at hparam
      cases hparam
      refine { h with pending := fun e hmem => ?_ }
      rcases mem_append.mp hmem with hmem | hmem
      · exact h.pending e hmem
      · rw [mem_singleton.mp hmem]
        exact hmakes.all_constant value

theorem Binding.All.foldlM (hmakes : Makes line P) {params : List Param} :
    ∀ {binding last : Binding}, binding.All P →
      params.foldlM (Binding.param callee line) binding = .ok last → last.All P := by
  induction params with
  | nil =>
    intro binding last h hfold
    cases hfold
    exact h
  | cons param rest ih =>
    intro binding last h hfold
    rw [foldlM_cons] at hfold
    cases hparam : binding.param callee line param with
    | error fault =>
      rw [hparam] at hfold
      cases hfold
    | ok next =>
      rw [hparam] at hfold
      exact ih (h.param hmakes hparam) hfold

theorem Binding.All.collect (hmakes : Makes line P) (h : binding.All P) :
    (binding.collect line).All P := by
  have hitems : ∀ item ∈ binding.surplus line, item.1.All P ∧ item.2.All P := by
    intro item hmem
    rcases mem_append.mp hmem with hmem | hmem
    · obtain ⟨i, hi, rfl⟩ := mem_mapIdx.mp hmem
      exact ⟨hmakes.all_constant _, h.positional _ (getElem_mem hi)⟩
    · obtain ⟨entry, hentry, rfl⟩ := mem_map.mp hmem
      exact ⟨hmakes.all_constant _, h.named entry hentry⟩
  unfold Binding.collect
  split
  · exact h
  · rename_i items hne
    have harray : ({ kind := .array (binding.surplus line), line } : Expr).All P :=
      Expr.all_iff.mpr ⟨hmakes _ rfl rfl, forall_mem_itemParts.mpr hitems⟩
    exact { h.push harray with
      positional := forall_mem_nil _
      named := forall_mem_nil _ }

/-- A value among the named arguments is the value of an argument. -/
theorem all_nameds (h : ∀ a ∈ list, a.value.All P) :
    ∀ entry ∈ (nameds list).entries, entry.2.All P := by
  have hinsert : ∀ (more : List (String × Expr)) (registry : Registry Expr),
      (∀ entry ∈ registry.entries, entry.2.All P) → (∀ entry ∈ more, entry.2.All P) →
      ∀ entry ∈ (registry.insertAll more).entries, entry.2.All P := by
    intro more
    induction more with
    | nil => exact fun _ hregistry _ => hregistry
    | cons first rest ih =>
      intro registry hregistry hmore
      rw [forall_mem_cons] at hmore
      refine ih (registry.insert first.1 first.2) (fun entry hmem => ?_) hmore.2
      rcases Registry.mem_insertEntry hmem with rfl | hmem
      · exact hmore.1
      · exact hregistry entry hmem
  refine hinsert _ _ (forall_mem_nil _) fun entry hmem => ?_
  obtain ⟨a, ha, hentry⟩ := mem_filterMap.mp hmem
  obtain ⟨name, -, rfl⟩ := Option.map_eq_some_iff.mp hentry
  exact h a ha

/-- **Binding keeps the expressions of arguments**; what it adds are constants, and an array of
surplus arguments. -/
theorem all_of_bind (hmakes : Makes line P) {signature : Option Signature}
    {bound : List (Argument Expr)} (hlist : ∀ a ∈ list, a.value.All P)
    (h : bind callee signature list line = .ok bound) : ∀ a ∈ bound, a.value.All P := by
  unfold Signature.bind at h
  split at h
  · cases h
  split at h
  · cases h
    exact hlist
  cases signature with
  | none => cases h
  | some signature =>
    dsimp only at h
    have hstart : Binding.All P { positional := positionals list, named := nameds list } := by
      refine ⟨fun e hmem => ?_, all_nameds hlist, forall_mem_nil _, forall_mem_nil _⟩
      obtain ⟨a, ha, he⟩ := mem_filterMap.mp hmem
      split at he <;> cases he
      exact hlist a ha
    cases hfold : signature.params.foldlM (Binding.param callee line)
        { positional := positionals list, named := nameds list } with
    | error fault =>
      rw [hfold] at h
      cases h
    | ok binding =>
      rw [hfold] at h
      simp only [Bind.bind, Except.bind] at h
      have hlast : (if signature.variadic then binding.collect line else binding).All P := by
        split
        · exact (hstart.foldlM hmakes hfold).collect hmakes
        · exact hstart.foldlM hmakes hfold
      generalize (if signature.variadic then binding.collect line else binding) = last at h hlast
      split at h <;> cases h
      intro a hmem
      obtain ⟨e, he, rfl⟩ := mem_map.mp hmem
      exact hlast.bound e he

end Signature

namespace Grammar

open Parse

/-! ## Properties of what is read -/

/-- The property holds of every ordinary expression on a line as wanted, of the tests that are read
in the scope after an operator that announces them, of the calls of `parent` that the scope allows,
of anonymous functions whose parameters are names among the tokens, and of the expressions that
imported names stand for in the scope. -/
structure Admits (context : Context) (L : Nat → Prop) (scope : Scope) (P : Expr → Prop) : Prop where
  line : ∀ {e : Expr}, P e → L e.line
  ordinary : ∀ {e : Expr}, e.isOrdinary = true → L e.line → P e
  test : ∀ {depth : Nat} {operand e : Expr} {state after : State}, state.scope = scope →
    context.dialect.isTestOperator (context.tokenAt state.cursor).kind = true →
    testExpression (Rules.upTo depth) operand context (state.skip 1) = .ok e after →
    e.isTest = true → L e.line → P e
  parent : ∀ {block : String} {line : Nat}, scope.blockStack.head? = some block →
    (scope.parent.isSome = true ∨ scope.usesBlocks = true) → L line →
    P { kind := .parent block false, line }
  arrow : ∀ {names : List String} {body : Expr} {line : Nat}, (∀ name ∈ names, context.Names name) →
    L line → P { kind := .arrow names body, line }
  imported : ∀ {kind : SymbolKind} {name : String} {symbol : ImportedSymbol} {e : Expr},
    scope.symbol? kind name = some symbol → symbol.object = some e → e.All P

/-- Without regard to lines and properties, every scope will do. -/
theorem Admits.trivial (context : Context) (scope : Scope) :
    Admits context AnyLine scope fun _ => True where
  line _ := True.intro
  ordinary _ _ := True.intro
  test _ _ _ _ _ := True.intro
  parent _ _ _ := True.intro
  arrow _ _ := True.intro
  imported _ _ _ _ := True.intro

section

variable {context : Context} {L : Nat → Prop} {scope : Scope} {P : Expr → Prop}
  (hP : Admits context L scope P) {e : Expr} {line : Nat}

include hP

theorem Admits.line_of_all (h : e.All P) : L e.line := hP.line (Expr.all_iff.mp h).1

theorem Admits.node (he : e.isOrdinary = true) (hline : L e.line) (h : ∀ x ∈ e.kind.parts, P x) :
    e.All P :=
  Expr.all_iff.mpr ⟨hP.ordinary he hline, h⟩

theorem Admits.makes (hline : L line) : Signature.Makes line P := by
  rintro ⟨kind, line, topmost⟩ hdata rfl
  refine hP.ordinary ?_ hline
  cases kind <;> first | rfl | cases hdata

theorem Admits.all_constant (hline : L line) (value : Value) : (Expr.constant value line).All P :=
  (hP.makes hline).all_constant value

theorem Admits.all_name (hline : L line) (name : String) : (Expr.name name line).All P :=
  hP.node rfl hline (forall_mem_nil _)

theorem Admits.all_object {kind : SymbolKind} {name : String} {symbol : ImportedSymbol}
    (h : scope.symbol? kind name = some symbol) (hline : L line) :
    (symbol.object.getD (Expr.name name line)).All P := by
  cases hobject : symbol.object with
  | none => exact hP.all_name hline name
  | some e => exact hP.imported h hobject

end

/-! ## Rules -/

variable {v : Inner} {depth : Nat} {r r' : Rules} {P : Expr → Prop}

/-- Rules for a depth, which are compared with the same rules for a larger one or for another
dialect. The expressions that they read have the property, as do all expressions inside them. -/
structure Rules.Extends (v : Inner) (P : Expr → Prop) (depth : Nat) (r r' : Rules) : Prop where
  bounded : ∃ n, r = Rules.upTo n
  expression : ∀ least allowArrow,
    Yields v depth always (Expr.All P) (r.expression least allowArrow)
      (r'.expression least allowArrow)
  primary : Yields v depth always (Expr.All P) r.primary r'.primary

theorem Rules.Extends.full (hr : r.Extends v P depth r') :
    Yields v depth always (Expr.All P) r.full r'.full := hr.expression 0 false

theorem yields_nextIfOperator (symbol : String) :
    Yields v depth never (fun found => ∀ token ∈ found, v.lines token.line)
      (nextIfOperator symbol) (nextIfOperator symbol) :=
  (Reads.nextIf fun _ => Token.isInner_of_isOperator).forget

/-! ## Calls -/

section

variable (hr : r.Extends v P depth r')

include hr

theorem yields_argument (named allowArrow : Bool) :
    Yields v depth always (fun a => a.value.All P) (argument r named allowArrow)
      (argument r' named allowArrow) := by
  refine (hr.expression 0 allowArrow).take fun value hvalue => .ite (.pure hvalue) ?_
  refine (yields_nextIfOperator _).bind fun equals hequals => ?_
  cases equals with
  | none => exact .pure hvalue
  | some equals =>
    dsimp only
    split
    · exact (hr.expression 0 allowArrow).bind fun _ h => .pure h
    · exact .fail ⟨hequals _ rfl, rfl⟩ rfl

theorem yields_arguments (named allowArrow : Bool) :
    Yields v (depth + 1) always (fun list => ∀ a ∈ list, a.value.All P)
      (arguments r named allowArrow) (arguments r' named allowArrow) := by
  refine (Reads.expectPunctuation _ _).descend fun _ _ => ?_
  refine (Reads.separated (forall_mem_nil _) (fun list hlist => ?_) _ _).bind fun list hlist =>
    (Reads.expectPunctuation _ _).bind fun _ _ => .pure hlist
  exact (yields_argument hr named allowArrow).take fun a ha =>
    .pure (forall_mem_append.mpr ⟨hlist, forall_mem_singleton.mpr ha⟩)

theorem yields_argumentValues :
    Yields v (depth + 1) always (fun list => ∀ e ∈ list, e.All P) (argumentValues r)
      (argumentValues r') :=
  (yields_arguments hr false false).take fun _ h => .pure (forall_mem_map.mpr h)

end

theorem yields_warnDeprecated (label name : String) (deprecation : Option Deprecation)
    (line : Nat) :
    Yields v depth never always (warnDeprecated label name deprecation line)
      (warnDeprecated label name deprecation line) := by
  cases deprecation with
  | none => exact .pure trivial
  | some deprecation => exact .ask (.record _)

section

variable (hP : Admits v.context v.lines v.scope P)

include hP

/-- Parameters are names, and their defaults are constants. Of two defaults for one name the later
one replaces the earlier one. -/
theorem yields_macroParams (hr : r.Extends v P depth r') :
    Yields v (depth + 1) always (fun params => ∀ param ∈ params,
        param.2.All P ∧ v.context.Names param.1 ∧ isConstant param.2 = true)
      (macroParams r) (macroParams r') := by
  refine (Reads.expectPunctuation _ _).descend fun _ _ => ?_
  refine (Reads.separated (forall_mem_nil _) (fun params hparams => ?_) _ _).bind fun _ h =>
    (Reads.expectPunctuation _ _).bind fun _ _ => .pure h
  refine (Yields.expectNameToken _).take fun token htoken => ?_
  have hinsert : ∀ {value : Expr}, value.All P → isConstant value = true →
      ∀ param ∈ Registry.insertEntry (token.name?.getD "") value params,
        param.2.All P ∧ v.context.Names param.1 ∧ isConstant param.2 = true := by
    intro value hvalue hconstant param hmem
    rcases Registry.mem_insertEntry hmem with rfl | hmem
    · exact ⟨hvalue, htoken.2, hconstant⟩
    · exact hparams param hmem
  refine (yields_nextIfOperator _).bind fun equals hequals => ?_
  cases equals with
  | none => exact .currentLine fun _ hline => .pure (hinsert (hP.all_constant hline _) rfl)
  | some equals =>
    refine hr.primary.bind fun value hvalue => ?_
    split
    · exact .pure (hinsert hvalue ‹_›)
    · exact .fail ⟨hequals _ rfl, rfl⟩ rfl

variable {list : List (Argument Expr)} {line : Nat} (hline : v.lines line)

include hline

theorem yields_bind {callee : Callee} {signature : Option Signature}
    (hlist : ∀ a ∈ list, a.value.All P) :
    Yields v depth never (fun bound => ∀ a ∈ bound, a.value.All P)
      (check (Signature.bind callee signature list line))
      (check (Signature.bind callee signature list line)) := by
  refine .check (fun _ => Signature.all_of_bind (hP.makes hline) hlist) fun fault hfault => ?_
  obtain ⟨heq, hkind⟩ := Signature.fault_of_bind hfault
  exact ⟨⟨heq ▸ hline, Cause.isBroken_eq_false hkind⟩, hkind⟩

/-- A filter that only the second dialect knows is an excused fault in the first. -/
theorem yields_buildFilter {operand : Expr} (hoperand : operand.All P) (name : String)
    (hlist : ∀ a ∈ list, a.value.All P) :
    Yields v depth never (Expr.All P) (buildFilter operand name list line)
      (buildFilter operand name list line) := by
  refine .ask ?_
  dsimp only [Comparison.other]
  rcases v.covers.filter name with heq | ⟨hnone, hexcused⟩
  · rw [heq, v.covers.filterNames]
    split
    · exact .fail ⟨hline, rfl⟩ rfl
    refine (yields_warnDeprecated _ _ _ _).bind fun _ _ =>
      (yields_bind hP hline hlist).bind fun bound hbound => ?_
    split
    · refine .pure (hP.node rfl hline (forall_mem_append.mpr ⟨hoperand, ?_⟩))
      cases bound with
      | nil => exact hP.all_constant (hP.line_of_all hoperand) _
      | cons first rest => exact hbound first mem_cons_self
    · exact .pure (hP.node rfl hline
        (forall_mem_append.mpr ⟨hoperand, forall_mem_argumentParts.mpr hbound⟩))
  · rw [hnone]
    exact .excuse ⟨hline, rfl⟩ rfl (hexcused line)

end

section

variable (hP : Admits v.context v.lines v.scope P) (hr : r.Extends v P depth r')

include hP hr

theorem yields_filterChain {operand : Expr} (hoperand : operand.All P) :
    Yields v (depth + 1) always (Expr.All P) (filterChain r operand) (filterChain r' operand) := by
  refine .loop_always hoperand fun operand hoperand => ?_
  refine (Yields.expectNameToken _).take fun token htoken => .current fun state hs => ?_
  extract_lets build
  have hbuild : ∀ list, (∀ a ∈ list, a.value.All P) → Yields v (depth + 1) never
      (Sum.elim (Expr.All P) (Expr.All P)) (build list) (build list) := fun list hlist =>
    (yields_buildFilter hP htoken.1 hoperand _ hlist).bind fun _ h =>
      (Reads.nextIfPunctuation '|').bind fun _ _ => .ite (.pure h) (.pure h)
  split
  · exact ((yields_arguments hr true true).bind hbuild) state hs
  · exact hbuild [] (forall_mem_nil _) state hs

variable {line : Nat} (hline : v.lines line)

include hline

theorem yields_parentCall :
    Yields v (depth + 1) always (Expr.All P) (parentCall r line) (parentCall r' line) := by
  refine (yields_arguments hr false false).take fun _ _ => Yields.enclosingBlock ?_
  cases hblock : v.scope.blockStack.head? with
  | none => exact .fail ⟨hline, rfl⟩ rfl
  | some block =>
    refine Yields.getScope ?_
    split
    · exact .fail ⟨hline, rfl⟩ rfl
    · rename_i hallowed
      refine .pure (forall_mem_singleton.mpr (hP.parent hblock ?_ hline))
      cases hparent : v.scope.parent with
      | some parent => exact .inl rfl
      | none =>
        rw [hparent] at hallowed
        exact .inr (by simpa using hallowed)

theorem yields_blockCall :
    Yields v (depth + 1) always (Expr.All P) (blockCall r line) (blockCall r' line) := by
  refine (yields_argumentValues hr).take fun values hvalues => ?_
  cases values with
  | nil => exact .fail ⟨hline, rfl⟩ rfl
  | cons block more =>
    rw [forall_mem_cons] at hvalues
    refine .pure (hP.node rfl hline (forall_mem_append.mpr ⟨hvalues.1, ?_⟩))
    cases more with
    | nil => exact forall_mem_nil _
    | cons template rest => exact hvalues.2 template mem_cons_self

theorem yields_attributeCall :
    Yields v (depth + 1) always (Expr.All P) (attributeCall r line) (attributeCall r' line) := by
  refine (yields_argumentValues hr).take fun values hvalues => ?_
  match values with
  | object :: key :: more =>
    rw [forall_mem_cons, forall_mem_cons] at hvalues
    refine .pure (hP.node rfl hline ?_)
    refine forall_mem_append.mpr ⟨forall_mem_append.mpr ⟨hvalues.1, hvalues.2.1⟩, ?_⟩
    -- The elements of an array are the arguments of the method.
    cases more with
    | nil => exact forall_mem_nil _
    | cons first rest =>
      obtain ⟨kind, line, topmost⟩ := first
      have hfirst := hvalues.2.2 _ mem_cons_self
      cases kind with
      | array items =>
        refine forall_mem_listParts.mpr (forall_mem_map.mpr fun item hmem => ?_)
        exact (forall_mem_itemParts.mp hfirst.kind_parts item hmem).2
      | _ => exact forall_mem_listParts.mpr (forall_mem_singleton.mpr hfirst)
  | [_] | [] => exact .fail ⟨hline, rfl⟩ rfl

/-- A function that only the second dialect knows is an excused fault in the first. -/
theorem yields_dialectCall (name : String) :
    Yields v (depth + 1) always (Expr.All P) (dialectCall r name line)
      (dialectCall r' name line) := by
  refine (yields_arguments hr true false).take fun list hlist => .ask ?_
  dsimp only [Comparison.other]
  rcases v.covers.function name with heq | ⟨hnone, hexcused⟩
  · rw [heq, v.covers.functionNames]
    split
    · exact .fail ⟨hline, rfl⟩ rfl
    · exact (yields_warnDeprecated _ _ _ _).bind fun _ _ =>
        (yields_bind hP hline hlist).bind fun _ hbound =>
          .pure (hP.node rfl hline (forall_mem_argumentParts.mpr hbound))
  · rw [hnone]
    exact .excuse ⟨hline, rfl⟩ rfl (hexcused line)

theorem yields_functionCall (name : String) :
    Yields v (depth + 1) always (Expr.All P) (functionCall r name line)
      (functionCall r' name line) := by
  unfold functionCall
  split
  · exact yields_parentCall hP hr hline
  · exact yields_blockCall hP hr hline
  · exact yields_attributeCall hP hr hline
  · refine Yields.symbol? ?_
    cases hsymbol : v.scope.symbol? .function name with
    | none => exact yields_dialectCall hP hr hline name
    | some imported =>
      refine (yields_arguments hr false false).take fun list hlist => .pure ?_
      exact hP.node rfl hline (forall_mem_append.mpr
        ⟨hP.all_object hsymbol hline, forall_mem_argumentParts.mpr hlist⟩)

end

end Grammar

end TwigToLatte
