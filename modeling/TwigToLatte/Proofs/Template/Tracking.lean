import TwigToLatte.Proofs.Template.Content

/-!
# What statements do to the scope

Blocks, macros, parents and imported names are kept in the scope while statements are read. What a
tag does to it does not depend on the tokens, so a relation between scopes that holds of each tag holds
of all statements.

* `Expr.parentCalls` — the blocks whose content in the parent an expression holds.
* `Scope.Allows` — calls of `parent` that are made from the innermost block of a scope.
* `allows_expression`, `Opens.includes` — **the expressions of tags make no other calls**.
* `Tracks` — a relation between the scopes before and after statements, tag by tag.
* `DerivesBy.tracked` — **it holds of every derivation**, by induction.
* `Scope.Balanced.block`, … — blocks and macros are left for the scope in which they were entered.
* `made_parse` — the scopes in which templates start.
-/

namespace TwigToLatte

open List

/-! ## Calls of `parent` -/

/-- The blocks whose content in the parent the expression holds, at any depth. -/
def Expr.parentCalls (e : Expr) : List String := e.parts.filterMap Expr.calledParent?

namespace Scope

/-- Blocks have content elsewhere, in the parent of the template or in a template that it uses. -/
def Sanctions (scope : Scope) : Prop := scope.parent.isSome = true ∨ scope.usesBlocks = true

/-- Every call of `parent` in the expression is one from the innermost block of the scope. -/
def Allows (scope : Scope) (e : Expr) : Prop :=
  ∀ block ∈ e.parentCalls, scope.blockStack.head? = some block ∧ scope.Sanctions

end Scope

namespace Grammar

open Parse

section

variable {context : Context} {s s' : State} {scope : Scope}

theorem admits_allowed (hscope : scope.Plain) :
    Admits context AnyLine scope fun x => ∀ block, x.calledParent? = some block →
      scope.blockStack.head? = some block ∧ scope.Sanctions where
  line _ := trivial
  ordinary h _ block hcall := by
    rw [Expr.calledParent?_of_isOrdinary h] at hcall
    cases hcall
  test _ _ _ h _ block hcall := by
    rw [Expr.calledParent?_of_isTest h] at hcall
    cases hcall
  parent hhead hsanctions _ block hcall := by
    cases hcall
    exact ⟨hhead, hsanctions⟩
  arrow _ _ block hcall := by cases hcall
  imported hsymbol he := by
    obtain ⟨name, line, rfl⟩ := hscope.symbol? hsymbol he
    refine forall_mem_singleton.mpr fun block hcall => ?_
    cases hcall

theorem allows_of_all {e : Expr} (h : e.All fun x => ∀ block,
    x.calledParent? = some block → scope.blockStack.head? = some block ∧ scope.Sanctions) :
    scope.Allows e := by
  intro block hmem
  obtain ⟨x, hx, hcall⟩ := mem_filterMap.mp hmem
  exact h x hx block hcall

section

variable (hs : s.scope.Plain)

include hs

theorem allows_expression (h : expression context s = .ok e s') : s.scope.Allows e :=
  allows_of_all (all_of_expression (admits_allowed hs) h)

variable {s1 s2 : State} {tag : Tag} {line : Nat} {e : Expr} (opens : Opens context tag line s s1)
  (expr : expression context s1 = .ok e s2)

include opens expr

/-- The expression after a keyword is read in the scope before it. -/
theorem Opens.reads : s.scope.Allows e ∧ s2.scope = s.scope := by
  have hallows := allows_expression (opens.scope_eq ▸ hs) expr
  rw [opens.scope_eq] at hallows
  exact ⟨hallows, (passes_of_expression expr).scope_eq.trans opens.scope_eq⟩

theorem Opens.includes {included : Inclusion} (arguments : inclusion e context s2 = .ok included s') :
    included.template = e ∧ (∀ e ∈ included.roots, s.scope.Allows e) ∧ s'.scope = s.scope := by
  obtain ⟨-, hscope⟩ := opens.reads hs expr
  rw [← opens.scope_eq] at hs ⊢
  obtain ⟨htemplate, hroots⟩ := all_of_inclusion (admits_allowed hs) expr arguments
  exact ⟨htemplate, fun e he => allows_of_all (hroots e he),
    (passes_of_inclusion arguments).scope_eq.trans (passes_of_expression expr).scope_eq⟩

end

mutual

theorem calledParent?_of_isConstant : ∀ e : Expr, isConstant e = true →
    ∀ x ∈ e.parts, x.calledParent? = none
  | ⟨.constant _, _, _⟩, _ => forall_mem_singleton.mpr rfl
  | ⟨.array items, _, _⟩, h =>
    forall_mem_cons.mpr ⟨rfl, calledParent?_of_areConstant items h⟩
  | ⟨.unary .neg operand, _, _⟩, h | ⟨.unary .pos operand, _, _⟩, h =>
    forall_mem_cons.mpr ⟨rfl, calledParent?_of_isConstant operand h⟩

theorem calledParent?_of_areConstant : ∀ items : List (Expr × Expr), areConstant items = true →
    ∀ x ∈ itemParts items, x.calledParent? = none
  | [], _ => forall_mem_nil _
  | (key, value) :: rest, h => by
    rw [areConstant, Bool.and_eq_true, Bool.and_eq_true] at h
    exact forall_mem_append.mpr ⟨forall_mem_append.mpr
      ⟨calledParent?_of_isConstant key h.1.1, calledParent?_of_isConstant value h.1.2⟩,
        calledParent?_of_areConstant rest h.2⟩

end

/-- A parameter is a name, and its default is a constant. -/
theorem names_macroParams {params : List (String × Expr)}
    (h : nested macroParams context s = .ok params s') :
    ∀ param ∈ params, context.Names param.1 ∧ param.2.parentCalls = [] := by
  intro param hmem
  obtain ⟨-, hname, hconstant⟩ :=
    (Yields.of_ok (L := AnyLine) (yields_params (.trivial context s.scope)) h).2 param hmem
  exact ⟨hname, filterMap_eq_nil_iff.mpr (calledParent?_of_isConstant param.2 hconstant)⟩

/-- An `extends` tag stands in the scope of the template, outside blocks and once only. -/
theorem main_of_extendsMisuse? (h : extendsMisuse? context s = .ok none s') :
    s.scope.blockStack = [] ∧ s.scope.imports.length = 1 ∧ s.scope.parent = none :=
  ((ensures_extendsMisuse? (L := AnyLine)).of_ok h).2 rfl

end

/-! ## Relations between scopes -/

/-- No two macros of one name are defined in a template. -/
def Unrepeated (context : Context) : Prop :=
  context.dialect.Keyed ∧ (macroDefinitions context.tokens).Nodup

/-- The statements whose tags change more of the scope than imported names. -/
def isScoped : Stmt.Kind → Bool
  | .block _ | .inherit _ | .useBlocks _ _ | .embed _ _ => true
  | _ => false

def ReadBetween (R : Scope → List Stmt → Scope → Prop) (a : Scope) (e : Expr) (b : Scope) : Prop :=
  ∃ middle before after, R a before middle ∧ middle.Allows e ∧ R middle after b

/-- A relation between the scope before statements, the statements with those inside them, and the scope
after them, that follows from what single tags do. -/
structure Tracks (context : Context) (R : Scope → List Stmt → Scope → Prop) : Prop where
  refl : ∀ a, R a [] a
  trans : ∀ {a b c : Scope} {parts more : List Stmt}, R a parts b → R b more c →
    R a (parts ++ more) c
  statement : ∀ {a b : Scope} {kind : Stmt.Kind} {line : Nat} {parts : List Stmt},
    isScoped kind = false → (∀ e ∈ kind.roots, ReadBetween R a e b) → R a parts b →
      R a (⟨kind, line⟩ :: parts) b
  mark : ∀ {a b : Scope} {included : Inclusion} {line : Nat} {parts more : List Stmt},
    R a (parts ++ ⟨.inclusion included, line⟩ :: more) b →
      R a (parts ++ ⟨.inclusion { included with sandboxed := true }, line⟩ :: more) b
  block : ∀ {a b : Scope} {name : String} {line : Nat} {body : List Stmt},
    a.blocks.get? name = none → R (a.openBlock name line) (bodyParts body) b →
      R a [⟨.block name, line⟩] (b.closeBlock name ⟨body, line⟩)
  inherit : ∀ {a : Scope} {e : Expr} {line : Nat}, a.blockStack = [] → a.imports.length = 1 →
    a.parent = none → a.Allows e → R a [⟨.inherit e, line⟩] { a with parent := some e }
  useBlocks : ∀ {a : Scope} {e : Expr} {targets : List (String × String)} {line : Nat}, a.Allows e →
    R a [⟨.useBlocks e targets, line⟩] { a with usesBlocks := true }
  defineMacro : ∀ {a b : Scope} {name : String} {params : List (String × Expr)} {body : List Stmt}
    {line : Nat}, (∀ param ∈ params, context.Names param.1 ∧ param.2.parentCalls = []) →
      (Unrepeated context → name ∉ b.macros.keys) → R a.enter (bodyParts body) b →
        R a [] (b.closeMacro name ⟨params, body, line⟩)
  addSymbol : ∀ {a : Scope} (kind : SymbolKind) (localName : String) (symbol : ImportedSymbol),
    R a [] (a.addSymbol kind localName symbol)
  embed : ∀ {a b : Scope} {included : Inclusion} {body : List Stmt} {line : Nat},
    (∀ e ∈ included.roots, a.Allows e) → R { parent := some included.template } (bodyParts body) b →
      R a [⟨.embed included ⟨body, b.blocks.entries, b.macros.entries, b.parent, []⟩, line⟩] a

/-- What holds of each form. -/
def Form.Tracked (R : Scope → List Stmt → Scope → Prop) (a : Scope) (form : Form) (b : Scope) : Prop :=
  match form with
  | .body stmts => R a (bodyParts stmts) b
  | .statement stmt => R a (bodyParts stmt.toList) b
  | .region _ stmts => R a (bodyParts stmts) b
  | .branches list => R a (branchParts list) b ∧ ∀ branch ∈ list, ReadBetween R a branch.1 b
  | .alternative _ otherwise => R a (optionalParts otherwise) b

section

variable {context : Context} {R : Scope → List Stmt → Scope → Prop} (ht : Tracks context R)
  {a b : Scope}

include ht

variable {e : Expr} {parts : List Stmt} {kind : Stmt.Kind} {line : Nat}

theorem Tracks.readFirst (he : a.Allows e) (h : R a parts b) : ReadBetween R a e b :=
  ⟨a, [], parts, ht.refl a, he, h⟩

theorem ReadBetween.trans {c : Scope} (he : ReadBetween R a e b) (h : R b parts c) :
    ReadBetween R a e c := by
  obtain ⟨middle, before, after, hbefore, hallows, hafter⟩ := he
  exact ⟨middle, before, after ++ parts, hbefore, hallows, ht.trans hafter h⟩

/-- A statement around statements, whose expressions are read between them. -/
theorem Tracks.around (hkind : isScoped kind = false)
    (hroots : ∀ e ∈ kind.roots, ReadBetween R a e b) (h : R a kind.parts b) :
    Form.Tracked R a (.statement (some ⟨kind, line⟩)) b := by
  show R a ((⟨kind, line⟩ :: kind.parts) ++ []) b
  rw [append_nil]
  exact ht.statement hkind hroots h

/-- A statement around statements, whose expressions are read before them. -/
theorem Tracks.after (hkind : isScoped kind = false) (hroots : ∀ e ∈ kind.roots, a.Allows e)
    (h : R a kind.parts b) : Form.Tracked R a (.statement (some ⟨kind, line⟩)) b :=
  ht.around hkind (fun e he => ht.readFirst (hroots e he) h) h

theorem Tracks.sandboxed {body marked : List Stmt} (hmarked : Grammar.sandboxed body = .ok marked) :
    ∀ parts : List Stmt, R a (parts ++ bodyParts body) b → R a (parts ++ bodyParts marked) b := by
  -- A mark changes one statement in the middle, so those before it are quantified.
  induction body generalizing marked with
  | nil =>
    cases hmarked
    exact fun _ h => h
  | cons stmt rest ih =>
    intro parts h
    obtain ⟨marked', hmarked', hcases⟩ := sandboxed_cons hmarked
    rcases hcases with ⟨text, line, rfl, rfl⟩ | ⟨included, line, rfl, rfl⟩
    · have hrest := ih hmarked' (parts ++ [⟨.text text, line⟩])
      rw [List.append_assoc, List.append_assoc] at hrest
      exact hrest h
    · have hrest := ih hmarked'
        (parts ++ [⟨.inclusion { included with sandboxed := true }, line⟩])
      rw [List.append_assoc, List.append_assoc] at hrest
      exact hrest (ht.mark h)

theorem Tracks.addMacros (targets : List (String × String)) (holder : Expr) :
    R a [] (a.addMacros targets holder) := by
  induction targets generalizing a with
  | nil => exact ht.refl a
  | cons target rest ih => exact ht.trans (ht.addSymbol _ _ _) ih

end

theorem Tracks.and {context : Context} {R S : Scope → List Stmt → Scope → Prop}
    (hR : Tracks context R) (hS : Tracks context S) :
    Tracks context fun a parts b => R a parts b ∧ S a parts b where
  refl a := ⟨hR.refl a, hS.refl a⟩
  trans h h' := ⟨hR.trans h.1 h'.1, hS.trans h.2 h'.2⟩
  statement hkind hroots h := by
    refine ⟨hR.statement hkind (fun e he => ?_) h.1, hS.statement hkind (fun e he => ?_) h.2⟩
    all_goals obtain ⟨middle, before, after, hbefore, hallows, hafter⟩ := hroots e he
    · exact ⟨middle, before, after, hbefore.1, hallows, hafter.1⟩
    · exact ⟨middle, before, after, hbefore.2, hallows, hafter.2⟩
  mark h := ⟨hR.mark h.1, hS.mark h.2⟩
  block hnew h := ⟨hR.block hnew h.1, hS.block hnew h.2⟩
  inherit hstack himports hparent he :=
    ⟨hR.inherit hstack himports hparent he, hS.inherit hstack himports hparent he⟩
  useBlocks he := ⟨hR.useBlocks he, hS.useBlocks he⟩
  defineMacro hparams hnew h := ⟨hR.defineMacro hparams hnew h.1, hS.defineMacro hparams hnew h.2⟩
  addSymbol kind localName symbol :=
    ⟨hR.addSymbol kind localName symbol, hS.addSymbol kind localName symbol⟩
  embed hroots h := ⟨hR.embed hroots h.1, hS.embed hroots h.2⟩

/-! ## Derivations -/

section

variable {context : Context} {s s' : State}

/-- A state that a derivation can start in. -/
structure Starts (context : Context) (s : State) : Prop where
  plain : s.scope.Plain
  recorded : Unrepeated context → Recorded context s

namespace Starts

theorem fresh {scope : Scope} (hplain : scope.Plain) (hmacros : scope.macros = {}) :
    Starts context { s with scope } :=
  ⟨hplain, fun _ _ hmem => absurd (hmacros ▸ hmem) not_mem_nil⟩

variable (hs : Starts context s) (hended : context.Ended)

include hs hended

theorem passes (h : Passes context s s') : Starts context s' :=
  ⟨h.scope_eq ▸ hs.plain, fun hu => (Accounts.of_passes hended h).recorded (hs.recorded hu)⟩

theorem opens {tag : Tag} {line : Nat} (h : Opens context tag line s s') (htag : tag ≠ .embed) :
    Starts context s' :=
  ⟨h.scope_eq ▸ hs.plain,
    fun hu => (Accounts.of_opens hended hu.1 h htag).recorded (hs.recorded hu)⟩

variable {stmts : List Stmt}

theorem body (h : Derives context s (.body stmts) s') : Starts context s' :=
  ⟨h.plain hs.plain, fun hu =>
    Accounts.recorded (h.balanced hended hu.1 hu.2) (hs.recorded hu)⟩

theorem branches {list : List (Expr × List Stmt)} (h : Derives context s (.branches list) s') :
    Starts context s' :=
  ⟨h.plain hs.plain, fun hu =>
    Accounts.recorded (h.balanced hended hu.1 hu.2) (hs.recorded hu)⟩

theorem region {names : List String} (h : Derives context s (.region names stmts) s')
    (hembed : "embed" ∉ names) (hend : "endembed" ∉ names) : Starts context s' :=
  ⟨h.plain hs.plain, fun hu =>
    (Enclosed.accounts hended (h.balanced hended hu.1 hu.2) hembed hend).recorded (hs.recorded hu)⟩

end Starts

/-- The macro that a tag defines is not one of the scope. -/
theorem notMem_macros_of_derives (hended : context.Ended) (hu : Unrepeated context)
    (hs : Recorded context s) {s1 s2 s3 : State} {line : Nat} {name : String}
    {params : List (String × Expr)} {body : List Stmt} (opens : Opens context .defineMacro line s s1)
    (named : expectName context s1 = .ok name s2)
    (defaults : nested macroParams context s2 = .ok params s3)
    (inside : Derives context { s3 with scope := s3.scope.enter } (.region ["endmacro"] body) s') :
    name ∉ s'.scope.macros.keys := by
  have hhead := (passes_of_expectName named).trans (passes_of_macroParams defaults)
  have hbody := Enclosed.accounts hended (inside.balanced hended hu.1 hu.2) (by decide) (by decide)
  refine (Accounts.of_tag hended hu.1 opens (by decide) hhead).notMem_macros hu.2 hs
    (opens.macroAt_eq hended hu.1 named) ?_ (hhead.scope_eq.trans opens.scope_eq) hbody
  have := hhead.le
  have := opens.cursor_eq
  omega

/-- **A relation that follows from what tags do holds of every derivation.** -/
theorem DerivesBy.tracked {R : Scope → List Stmt → Scope → Prop} (ht : Tracks context R)
    (hended : context.Ended) {form : Form} (h : Derives context s form s')
    (hs : Starts context s) : form.Tracked R s.scope s'.scope := by
  -- One case for each rule. What precedes the body of a tag passes the scope on, so the relation starts
  -- in the scope before the tag.
  induction h with
  | nil => exact ht.refl _
  | snoc init last ihinit ihlast =>
    show R _ (bodyParts (_ ++ _)) _
    rw [bodyParts_append]
    exact ht.trans (ihinit hs) (ihlast (hs.body hended init))
  | region head inside closes tail ih =>
    have hbody := ih (hs.passes hended head)
    rw [head.scope_eq] at hbody
    rw [tail.scope_eq, closes.after_eq]
    exact hbody
  | firstBranch condition inside ih =>
    have hpasses := passes_of_expression condition
    have hbody := ih (hs.passes hended hpasses)
    rw [hpasses.scope_eq] at hbody
    refine ⟨?_, forall_mem_singleton.mpr
      (ht.readFirst (allows_expression hs.plain condition) hbody)⟩
    show R _ (_ ++ []) _
    rw [append_nil]
    exact hbody
  | nextBranch init head condition inside ihinit ih =>
    obtain ⟨hinit, hread⟩ := ihinit hs
    have hs2 := (hs.branches hended init).passes hended head
    have hpasses := passes_of_expression condition
    have hbody := ih (hs2.passes hended hpasses)
    rw [hpasses.scope_eq, head.scope_eq] at hbody
    -- This condition is read after the branches before it.
    have hallows := allows_expression hs2.plain condition
    rw [head.scope_eq] at hallows
    refine ⟨?_, forall_mem_append.mpr ⟨fun branch hmem => (hread branch hmem).trans ht hbody,
      forall_mem_singleton.mpr ⟨_, _, _, hinit, hallows, hbody⟩⟩⟩
    rw [branchParts_append, branchParts, branchParts, append_nil]
    exact ht.trans hinit hbody
  | noAlternative => exact ht.refl _
  | alternative head inside ih =>
    have hbody := ih (hs.passes hended head)
    rw [head.scope_eq] at hbody
    exact hbody
  | literal token =>
    obtain ⟨text, rfl | rfl | rfl⟩ := literal?_eq_some token
    all_goals exact ht.after rfl (forall_mem_nil _) (ht.refl _)
  | @print s _ _ _ _ expr tail =>
    rw [((passes_of_expression expr).trans tail).scope_eq]
    have hallows := allows_expression (s := s.skip 1) hs.plain expr
    exact ht.after rfl (forall_mem_singleton.mpr hallows) (ht.refl _)
  | branch opens inside last tail ih ihlast =>
    have hs1 := hs.opens hended opens (by decide)
    obtain ⟨hbranches, hread⟩ := ih hs1
    have hlast := ihlast (hs1.branches hended inside)
    rw [opens.scope_eq] at hbranches hread
    rw [tail.scope_eq]
    refine ht.around rfl (forall_mem_map.mpr fun branch hmem =>
      (hread branch hmem).trans ht hlast) (ht.trans hbranches hlast)
  | loop opens names head expr inside last tail assigned ih ihlast =>
    have hnames := (passes_of_assignmentTargets names).trans head
    have hs3 := (hs.opens hended opens (by decide)).passes hended hnames
    have hpasses := passes_of_expression expr
    have hs4 := hs3.passes hended hpasses
    have hbody := ih hs4
    have hlast := ihlast (hs4.region hended inside (by decide) (by decide))
    have hallows := allows_expression hs3.plain expr
    rw [hpasses.scope_eq, hnames.scope_eq, opens.scope_eq] at hbody
    rw [hnames.scope_eq, opens.scope_eq] at hallows
    rw [tail.scope_eq]
    exact ht.after rfl (forall_mem_singleton.mpr hallows) (ht.trans hbody hlast)
  | single opens holds =>
    have hroots := fun e he => allows_of_all (holds.all (admits_allowed (opens.scope_eq ▸ hs.plain)) e he)
    rw [opens.scope_eq] at hroots
    rw [holds.passes.scope_eq, opens.scope_eq]
    cases holds <;> exact ht.after rfl hroots (ht.refl _)
  | around opens head inside ih =>
    have hs1 := hs.opens hended opens (by cases head <;> nofun)
    have hroots := fun body e he =>
      allows_of_all (head.all (admits_allowed hs1.plain) trivial body e he)
    have hbody := ih (hs1.passes hended head.passes)
    rw [opens.scope_eq] at hroots
    rw [head.passes.scope_eq, opens.scope_eq] at hbody
    cases head <;> exact ht.after rfl (hroots _) hbody
  | sandbox opens inside marked ih =>
    have hbody := ih (hs.opens hended opens (by decide))
    rw [opens.scope_eq] at hbody
    exact ht.after rfl (forall_mem_nil _) (ht.sandboxed marked [] hbody)
  | block opens named new inside ih =>
    have hpasses := passes_of_expectName named
    have hs2 := (hs.opens hended opens (by decide)).passes hended hpasses
    have hscope := hpasses.scope_eq.trans opens.scope_eq
    have hbody := ih ⟨hs2.plain.openBlock _ _, hs2.recorded⟩
    rw [hscope] at new
    rw [hscope] at hbody
    exact ht.block new hbody
  | shortBlock opens named new expr tail =>
    have hpasses := passes_of_expectName named
    have hs2 := (hs.opens hended opens (by decide)).passes hended hpasses
    have hscope := hpasses.scope_eq.trans opens.scope_eq
    have hallows := allows_expression (hs2.plain.openBlock _ _) expr
    have htail := ((passes_of_expression expr).trans tail).scope_eq
    rw [hscope] at new hallows htail
    rw [htail]
    refine ht.block new (ht.statement rfl (forall_mem_singleton.mpr ?_) (ht.refl _))
    exact ht.readFirst hallows (ht.refl _)
  | inherit opens place expr tail =>
    obtain ⟨hblocks, himports, hparent⟩ := main_of_extendsMisuse? place
    obtain ⟨hallows, hscope⟩ := opens.reads hs.plain expr
    rw [opens.scope_eq] at hblocks himports hparent
    rw [tail.scope_eq, hscope]
    exact ht.inherit hblocks himports hparent hallows
  | useBlocks opens expr tail =>
    obtain ⟨hallows, hscope⟩ := opens.reads hs.plain expr
    rw [tail.scope_eq, hscope]
    exact ht.useBlocks hallows
  | defineMacro opens named defaults inside ih =>
    have hname := passes_of_expectName named
    have hs2 := (hs.opens hended opens (by decide)).passes hended hname
    have hparams := passes_of_macroParams defaults
    have hs3 := hs2.passes hended hparams
    have hscope := (hname.trans hparams).scope_eq.trans opens.scope_eq
    have hbody := ih ⟨hs3.plain.enter, hs3.recorded⟩
    rw [hscope] at hbody
    exact ht.defineMacro (names_macroParams defaults)
      (fun hu => notMem_macros_of_derives hended hu (hs.recorded hu) opens named defaults inside) hbody
  | importAs opens expr tail =>
    obtain ⟨hallows, hscope⟩ := opens.reads hs.plain expr
    rw [tail.scope_eq, hscope]
    exact ht.after rfl (forall_mem_singleton.mpr hallows) (ht.addSymbol _ _ _)
  | importNames opens expr tail =>
    obtain ⟨hallows, hscope⟩ := opens.reads hs.plain expr
    rw [tail.scope_eq, hscope]
    exact ht.after rfl (forall_mem_singleton.mpr hallows) (ht.addMacros _ _)
  | embed opens expr arguments inside child ih =>
    -- The embedded template starts afresh, with the parent that its tag names.
    obtain ⟨rfl, hroots, hscope⟩ := opens.includes hs.plain expr arguments
    have hbody := ih (.fresh (forall_mem_singleton.mpr (forall_mem_nil _)) rfl)
    rw [hscope]
    exact ht.embed hroots hbody

end

end Grammar

/-! ## Templates -/

/-- The template consists of statements read from the given scope on, and of what the scope after
them holds. -/
def Template.Made (R : Scope → List Stmt → Scope → Prop) (start : Scope) (t : Template) : Prop :=
  ∃ last, R start (bodyParts t.body) last ∧
    t = ⟨t.body, last.blocks.entries, last.macros.entries, last.parent, []⟩

variable {dialect : Dialect} {source : Source} {t : Template} {tokens : Array Token}
  {R : Scope → List Stmt → Scope → Prop}

/-- **A parsed template is read from an empty scope on, and an embedded one from a scope that has a
parent only**, the template that its statement names. -/
theorem made_parse (htokens : Lexer.tokenize source.text dialect.operatorSymbols = .ok tokens)
    (h : (Template.parse dialect source).result = .ok t)
    (hR : Grammar.Tracks ⟨dialect, source.displayName, tokens⟩ R) :
    t.Made R {} ∧ ∀ m, t.Module m → ∀ stmt ∈ m.parts, ∀ included inner,
      stmt.kind = .embed included inner → inner.Made R { parent := some included.template } := by
  have hended : (Parse.Context.mk dialect source.displayName tokens).Ended :=
    (ended_tokenize htokens).1
  constructor
  · obtain ⟨tokens', log, last, htokens', hfinishes⟩ := Grammar.derives_parse h
    cases htokens.symm.trans htokens'
    refine ⟨last.scope, ?_, hfinishes.eq⟩
    exact hfinishes.derives.tracked hR hended
      (.fresh (s := { log }) (forall_mem_singleton.mpr (forall_mem_nil _)) rfl)
  · refine (satisfies_parse (Q := fun stmt => ∀ included inner, stmt.kind = .embed included inner →
      inner.Made R { parent := some included.template }) (E := fun _ => True) h
        fun tokens' htokens' => ?_).statements
    cases htokens.symm.trans htokens'
    refine ⟨fun _ => ⟨_, _, rfl⟩, fun hs hstmt _ included inner hkind => ?_, fun _ _ _ => nofun,
      fun _ => nofun, fun _ _ => trivial, fun _ _ _ _ => trivial⟩
    cases hstmt with
    | embed opens expr arguments inside child =>
      cases hkind
      obtain ⟨rfl, -⟩ := opens.includes hs expr arguments
      exact ⟨_, inside.tracked hR hended
        (.fresh (forall_mem_singleton.mpr (forall_mem_nil _)) rfl), rfl⟩
    | literal token =>
      obtain ⟨text, rfl | rfl | rfl⟩ := Grammar.literal?_eq_some token <;> cases hkind
    | single opens holds => cases holds <;> cases hkind
    | around opens head inside => cases head <;> cases hkind
    | _ => cases hkind

/-- Every template of a parsed one starts in a scope that has at most a parent. -/
theorem made_module {m : Template}
    (htokens : Lexer.tokenize source.text dialect.operatorSymbols = .ok tokens)
    (h : (Template.parse dialect source).result = .ok t)
    (hR : Grammar.Tracks ⟨dialect, source.displayName, tokens⟩ R) (hm : t.Module m) :
    ∃ parent, m.Made R { parent } := by
  obtain ⟨htop, hembedded⟩ := made_parse htokens h hR
  cases hm with
  | self => exact ⟨none, htop⟩
  | @embedded outer _ stmt houter mem embeds =>
    obtain ⟨kind, line⟩ := stmt
    cases kind with
    | embed included inner =>
      cases embeds
      exact ⟨_, hembedded outer houter _ mem included m rfl⟩
    | _ => cases embeds

end TwigToLatte
