import TwigToLatte.Proofs.Template.Heads

/-!
# Derivations of statements

How the statements of a template come from its tokens, as a relation of two states and of what is
read between them. Where statements stand inside a tag they have a derivation of their own, so what
holds of a template is proved by induction over derivations, without regard to the way in which the
rules look for end tags.

* `Opens`, `Closes` — the tokens that open and close a tag with a body.
* `Single`, `Around` — the tags that leave the scope alone, without a body and around one.
* `Form` — what is read: statements, one statement, the body of a tag, branches.
* `DerivesBy`, `Derives` — **how it is read, rule by rule**.
* `DerivesBy.stacks` — statements leave the stacks of the scope balanced.
-/

namespace TwigToLatte

open List

namespace Parse

variable {context : Context} {state after : State}

theorem Passes.withScope (h : Passes context state after) (scope : Scope) :
    Passes context { state with scope } { after with scope } :=
  ⟨rfl, h.le, h.inner⟩

end Parse

namespace Grammar

open Parse

/-! ## Tags -/

/-- A tag of the dialect opens: its delimiter and its keyword are taken. -/
structure Opens (context : Context) (tag : Tag) (line : Nat) (state after : State) : Prop where
  start : (context.tokenAt state.cursor).kind = .blockStart
  keyword : ∃ name, (context.tokenAt (state.cursor + 1)).name? = some name ∧
    context.dialect.tag? name = some tag
  line_eq : line = (context.tokenAt (state.cursor + 1)).line
  cursor_eq : after.cursor = state.cursor + 2
  scope_eq : after.scope = state.scope

/-- A way in which tags open: their kind and line, and the states before and after the keyword. -/
abbrev Opening : Type := Tag → Nat → State → State → Prop

/-- What is used of it: it is the usual one or a weaker one, changes no scope, and knows the line. -/
structure Opening.Sound (O : Opening) (context : Context) (L : Nat → Prop) : Prop where
  of_opens : ∀ {tag : Tag} {line : Nat} {s s' : State}, Opens context tag line s s' → O tag line s s'
  scope_eq : ∀ {tag : Tag} {line : Nat} {s s' : State}, O tag line s s' → s'.scope = s.scope
  line : ∀ {tag : Tag} {line : Nat} {s s' : State}, O tag line s s' → L line

variable {context : Context} {L : Nat → Prop} {O : Opening} {s s1 s2 : State} {names : List String}
  {body : List Stmt}

theorem Opening.sound_opens [OnLines context L] : Opening.Sound (Opens context) context L :=
  ⟨id, Opens.scope_eq, fun h => h.line_eq ▸ OnLines.token _⟩

/-- An end tag of one of the names comes: its delimiter is taken. -/
structure Closes (context : Context) (names : List String) (state after : State) : Prop where
  start : (context.tokenAt state.cursor).kind = .blockStart
  keyword : ∃ name ∈ names, (context.tokenAt (state.cursor + 1)).name? = some name
  after_eq : after = state.skip 1

/-- The statement that a token outside tags is. -/
def literal? : Token.Kind → Option Stmt.Kind
  | .text text => some (.text text)
  | .comment text => some (.comment text)
  | .verbatim text => some (.verbatim text)
  | _ => none

theorem literal?_eq_some {token : Token.Kind} {kind : Stmt.Kind} (h : literal? token = some kind) :
    ∃ text, kind = .text text ∨ kind = .comment text ∨ kind = .verbatim text := by
  cases token <;> cases h
  · exact ⟨_, .inl rfl⟩
  · exact ⟨_, .inr (.inl rfl)⟩
  · exact ⟨_, .inr (.inr rfl)⟩

/-! ## Derivations -/

/-- What is read between two states. -/
inductive Form where
  /-- Statements in a row. -/
  | body (body : List Stmt)
  /-- A tag or a token outside tags. The definition of a macro leaves no statement. -/
  | statement (stmt : Option Stmt)
  /-- The body of a tag, from before the end of the tag to an end tag of one of the names. -/
  | region (endNames : List String) (body : List Stmt)
  /-- The conditions of a tag, each with its body. -/
  | branches (branches : List (Expr × List Stmt))
  /-- The body of a tag that applies otherwise, if it has one. -/
  | alternative (endName : String) (otherwise : Option (List Stmt))

/-- The tags without statements inside that leave the scope alone: what each holds from after its
keyword to its end. -/
inductive Single (context : Context) : Tag → State → Stmt.Kind → State → Prop
  | assign {s s1 s2 s3 s4 : State} {names : List String} {values : List Expr}
      (targets : assignmentTargets context s = .ok names s1) (head : Passes context s1 s2)
      (exprs : assignedValues context s2 = .ok values s3) (tail : Passes context s3 s4) :
      Single context .assign s (.assign (names.zip values)) s4
  | evaluate {s s1 s2 : State} {e : Expr} (expr : expression context s = .ok e s1)
      (tail : Passes context s1 s2) : Single context .evaluate s (.evaluate e) s2
  | flush {s s1 : State} (tail : Passes context s s1) : Single context .flush s .flush s1
  | deprecated {s s1 s2 : State} {e : Expr} (expr : expression context s = .ok e s1)
      (tail : Passes context s1 s2) : Single context .deprecated s (.deprecated e) s2
  | inclusion {s s1 s2 : State} {template : Expr} {included : Inclusion}
      (expr : expression context s = .ok template s1)
      (arguments : inclusion template context s1 = .ok included s2) :
      Single context .inclusion s (.inclusion included) s2

/-- The tags around statements that leave the scope alone: what each holds from after its keyword to
its body, and the statement that it is with the body. -/
inductive Around (context : Context) (line : Nat) :
    Tag → String → State → (List Stmt → Stmt.Kind) → State → Prop
  | capture {s s1 : State} {name : String} (target : assignmentTargets context s = .ok [name] s1) :
      Around context line .assign "endset" s (.capture name) s1
  | scope {s : State} : Around context line .scope "endwith" s (.scope none false) s
  | scopeWith {s s1 s2 : State} {bindings : Expr} {only : Bool}
      (expr : expression context s = .ok bindings s1) (head : Passes context s1 s2) :
      Around context line .scope "endwith" s (.scope (some bindings) only) s2
  | apply {s s1 : State} {filter : Expr}
      (filters : nested (fun r => filterChain r { kind := .applyTarget, line }) context s =
        .ok filter s1) : Around context line .apply "endapply" s (.apply filter) s1
  | autoescape {s s1 : State} {strategy : Option String}
      (head : escapingStrategy context s = .ok strategy s1) :
      Around context line .autoescape "endautoescape" s (.autoescape strategy) s1
  | cache {s s1 s2 : State} {key : Expr} {ttl tags : Option Expr}
      (expr : expression context s = .ok key s1)
      (modifiers : cacheModifiers context s1 = .ok (ttl, tags) s2) :
      Around context line .cache "endcache" s (.cache key ttl tags) s2

section

variable {context : Context} {line : Nat} {tag : Tag} {endName : String} {s s' : State}
  {kind : Stmt.Kind}

theorem Single.passes (h : Single context tag s kind s') : Passes context s s' := by
  cases h with
  | assign targets head exprs tail =>
    exact (((passes_of_assignmentTargets targets).trans head).trans
      (passes_of_assignedValues exprs)).trans tail
  | evaluate expr tail | deprecated expr tail => exact (passes_of_expression expr).trans tail
  | flush tail => exact tail
  | inclusion expr arguments =>
    exact (passes_of_expression expr).trans (passes_of_inclusion arguments)

theorem Around.passes {kind : List Stmt → Stmt.Kind}
    (h : Around context line tag endName s kind s') : Passes context s s' := by
  cases h with
  | capture target => exact passes_of_assignmentTargets target
  | scope => exact .refl _
  | scopeWith expr head => exact (passes_of_expression expr).trans head
  | apply filters => exact passes_of_filters filters
  | autoescape head => exact passes_of_escapingStrategy head
  | cache expr modifiers =>
    exact (passes_of_expression expr).trans (passes_of_cacheModifiers modifiers)

variable {L : Nat → Prop} [OnLines context L] {P : Expr → Prop} (hP : Admits context L s.scope P)

include hP

theorem all_of_expression {e : Expr} (h : expression context s = .ok e s') : e.All P :=
  (Yields.of_ok (yields_expression hP) h).2

theorem all_of_inclusion {s1 : State} {template : Expr} {included : Inclusion}
    (expr : expression context s = .ok template s1)
    (arguments : inclusion template context s1 = .ok included s') :
    included.template = template ∧ ∀ e ∈ included.roots, e.All P := by
  have hscope := (passes_of_expression expr).scope_eq
  exact (Yields.of_ok (yields_inclusion (hscope ▸ hP) (all_of_expression hP expr)) arguments).2

/-- The expressions of such tags are read in the scope before them. -/
theorem Single.all (h : Single context tag s kind s') : ∀ e ∈ kind.roots, e.All P := by
  cases h with
  | assign targets head exprs tail =>
    have hscope := ((passes_of_assignmentTargets targets).trans head).scope_eq
    have hvalues := (Yields.of_ok (yields_assignedValues (hscope ▸ hP)) exprs).2.2
    intro e he
    obtain ⟨target, htarget, rfl⟩ := mem_map.mp he
    exact hvalues _ (of_mem_zip htarget).2
  | evaluate expr tail | deprecated expr tail =>
    exact forall_mem_singleton.mpr (all_of_expression hP expr)
  | flush tail => exact forall_mem_nil _
  | inclusion expr arguments => exact (all_of_inclusion hP expr arguments).2

theorem Around.all {kind : List Stmt → Stmt.Kind} (hline : L line)
    (h : Around context line tag endName s kind s') (body : List Stmt) :
    ∀ e ∈ (kind body).roots, e.All P := by
  cases h with
  | capture | scope | autoescape => exact forall_mem_nil _
  | scopeWith expr head => exact forall_mem_singleton.mpr (all_of_expression hP expr)
  | apply filters =>
    exact forall_mem_singleton.mpr (Yields.of_ok (yields_filters hP hline) filters).2
  | cache expr modifiers =>
    have hscope := (passes_of_expression expr).scope_eq
    obtain ⟨httl, htags⟩ := (Yields.of_ok (yields_cacheModifiers (hscope ▸ hP)) modifiers).2
    refine forall_mem_cons.mpr ⟨all_of_expression hP expr, forall_mem_append.mpr ⟨?_, ?_⟩⟩
    · exact fun e he => httl e (Option.mem_toList.mp he)
    · exact fun e he => htags e (Option.mem_toList.mp he)

end

/-- **How statements are read.** Expressions, and other parts of tags that hold no statements, are
known by their runs. The way in which tags open is left open. -/
inductive DerivesBy (O : Opening) (context : Context) : State → Form → State → Prop
  | nil {s : State} : DerivesBy O context s (.body []) s
  | snoc {s s1 s2 : State} {body : List Stmt} {stmt : Option Stmt}
      (init : DerivesBy O context s (.body body) s1)
      (last : DerivesBy O context s1 (.statement stmt) s2) :
      DerivesBy O context s (.body (body ++ stmt.toList)) s2
  | region {s s1 s2 s3 s4 : State} {names : List String} {body : List Stmt}
      (head : Passes context s s1) (inside : DerivesBy O context s1 (.body body) s2)
      (closes : Closes context names s2 s3) (tail : Passes context s3 s4) :
      DerivesBy O context s (.region names body) s4
  | firstBranch {s s1 s2 : State} {test : Expr} {body : List Stmt}
      (condition : expression context s = .ok test s1)
      (inside : DerivesBy O context s1 (.region ["elseif", "else", "endif"] body) s2) :
      DerivesBy O context s (.branches [(test, body)]) s2
  | nextBranch {s s1 s2 s3 s4 : State} {branches : List (Expr × List Stmt)} {test : Expr}
      {body : List Stmt} (init : DerivesBy O context s (.branches branches) s1)
      (head : Passes context s1 s2) (condition : expression context s2 = .ok test s3)
      (inside : DerivesBy O context s3 (.region ["elseif", "else", "endif"] body) s4) :
      DerivesBy O context s (.branches (branches ++ [(test, body)])) s4
  | noAlternative {s : State} {endName : String} : DerivesBy O context s (.alternative endName none) s
  | alternative {s s1 s2 : State} {endName : String} {body : List Stmt}
      (head : Passes context s s1) (inside : DerivesBy O context s1 (.region [endName] body) s2) :
      DerivesBy O context s (.alternative endName (some body)) s2
  | literal {s : State} {kind : Stmt.Kind}
      (token : literal? (context.tokenAt s.cursor).kind = some kind) :
      DerivesBy O context s (.statement (some ⟨kind, (context.tokenAt s.cursor).line⟩)) (s.skip 1)
  | print {s s1 s2 : State} {e : Expr} (start : (context.tokenAt s.cursor).kind = .varStart)
      (expr : expression context (s.skip 1) = .ok e s1) (tail : Passes context s1 s2) :
      DerivesBy O context s (.statement (some ⟨.print e, (context.tokenAt s.cursor).line⟩)) s2
  | branch {s s1 s2 s3 s4 : State} {line : Nat} {branches : List (Expr × List Stmt)}
      {otherwise : Option (List Stmt)} (opens : O .branch line s s1)
      (inside : DerivesBy O context s1 (.branches branches) s2)
      (last : DerivesBy O context s2 (.alternative "endif" otherwise) s3)
      (tail : Passes context s3 s4) :
      DerivesBy O context s (.statement (some ⟨.branch branches otherwise, line⟩)) s4
  | loop {s s1 s2 s3 s4 s5 s6 s7 : State} {line : Nat} {targets : List String}
      {key : Option String} {value : String} {sequence : Expr} {body : List Stmt}
      {otherwise : Option (List Stmt)} (opens : O .loop line s s1)
      (names : assignmentTargets context s1 = .ok targets s2) (head : Passes context s2 s3)
      (expr : expression context s3 = .ok sequence s4)
      (inside : DerivesBy O context s4 (.region ["else", "endfor"] body) s5)
      (last : DerivesBy O context s5 (.alternative "endfor" otherwise) s6)
      (tail : Passes context s6 s7) (assigned : key.toList ++ [value] <+: targets) :
      DerivesBy O context s (.statement (some ⟨.loop key value sequence body otherwise true, line⟩)) s7
  | single {s s1 s2 : State} {tag : Tag} {line : Nat} {kind : Stmt.Kind} (opens : O tag line s s1)
      (holds : Single context tag s1 kind s2) :
      DerivesBy O context s (.statement (some ⟨kind, line⟩)) s2
  | around {s s1 s2 s3 : State} {tag : Tag} {line : Nat} {endName : String}
      {kind : List Stmt → Stmt.Kind} {body : List Stmt} (opens : O tag line s s1)
      (head : Around context line tag endName s1 kind s2)
      (inside : DerivesBy O context s2 (.region [endName] body) s3) :
      DerivesBy O context s (.statement (some ⟨kind body, line⟩)) s3
  | sandbox {s s1 s2 : State} {line : Nat} {body body' : List Stmt}
      (opens : O .sandbox line s s1)
      (inside : DerivesBy O context s1 (.region ["endsandbox"] body) s2)
      (marked : sandboxed body = .ok body') :
      DerivesBy O context s (.statement (some ⟨.sandbox body', line⟩)) s2
  | block {s s1 s2 s3 : State} {line : Nat} {name : String} {body : List Stmt}
      (opens : O .block line s s1) (named : expectName context s1 = .ok name s2)
      (new : s2.scope.blocks.get? name = none)
      (inside : DerivesBy O context { s2 with scope := s2.scope.openBlock name line }
        (.region ["endblock"] body) s3) :
      DerivesBy O context s (.statement (some ⟨.block name, line⟩))
        { s3 with scope := s3.scope.closeBlock name ⟨body, line⟩ }
  | shortBlock {s s1 s2 s3 s4 : State} {line : Nat} {name : String} {e : Expr}
      (opens : O .block line s s1) (named : expectName context s1 = .ok name s2)
      (new : s2.scope.blocks.get? name = none)
      (expr : expression context { s2 with scope := s2.scope.openBlock name line } = .ok e s3)
      (tail : Passes context s3 s4) :
      DerivesBy O context s (.statement (some ⟨.block name, line⟩))
        { s4 with scope := s4.scope.closeBlock name ⟨[⟨.print e, line⟩], line⟩ }
  | inherit {s s1 s2 s3 : State} {line : Nat} {parent : Expr}
      (opens : O .inherit line s s1)
      (place : extendsMisuse? context s1 = .ok none s1)
      (expr : expression context s1 = .ok parent s2) (tail : Passes context s2 s3) :
      DerivesBy O context s (.statement (some ⟨.inherit parent, line⟩))
        { s3 with scope := { s3.scope with parent := some parent } }
  | useBlocks {s s1 s2 s3 : State} {line : Nat} {template : Expr}
      {targets : List (String × String)} (opens : O .useBlocks line s s1)
      (expr : expression context s1 = .ok template s2) (tail : Passes context s2 s3) :
      DerivesBy O context s (.statement (some ⟨.useBlocks template targets, line⟩))
        { s3 with scope := { s3.scope with usesBlocks := true } }
  | defineMacro {s s1 s2 s3 s4 : State} {line : Nat} {name : String}
      {params : List (String × Expr)} {body : List Stmt}
      (opens : O .defineMacro line s s1) (named : expectName context s1 = .ok name s2)
      (defaults : nested macroParams context s2 = .ok params s3)
      (inside : DerivesBy O context { s3 with scope := s3.scope.enter }
        (.region ["endmacro"] body) s4) :
      DerivesBy O context s (.statement none)
        { s4 with scope := s4.scope.closeMacro name ⟨params, body, line⟩ }
  | importAs {s s1 s2 s3 : State} {line : Nat} {template : Expr} {localName : String}
      (opens : O .importAs line s s1) (expr : expression context s1 = .ok template s2)
      (tail : Passes context s2 s3) :
      DerivesBy O context s (.statement (some ⟨.importAs template localName, line⟩))
        { s3 with scope := s3.scope.addSymbol .template localName { name := localName } }
  | importNames {s s1 s2 s3 : State} {line : Nat} {template : Expr} {holder : String}
      {targets : List (String × String)} (opens : O .importNames line s s1)
      (expr : expression context s1 = .ok template s2) (tail : Passes context s2 s3) :
      DerivesBy O context s (.statement (some ⟨.importAs template holder, line⟩))
        { s3 with scope := s3.scope.addMacros targets (Expr.name holder line) }
  | embed {s s1 s2 s3 s4 : State} {line : Nat} {parent : Expr} {included : Inclusion}
      {body : List Stmt} (opens : O .embed line s s1)
      (expr : expression context s1 = .ok parent s2)
      (arguments : inclusion parent context s2 = .ok included s3)
      (inside : DerivesBy O context { s3 with scope := { parent := some parent } }
        (.region ["endembed"] body) s4)
      (child : s4.scope.parent.isSome = true → checkChild body = .ok ()) :
      DerivesBy O context s (.statement (some ⟨.embed included
          ⟨body, s4.scope.blocks.entries, s4.scope.macros.entries, s4.scope.parent, []⟩, line⟩))
        { s4 with scope := s3.scope }

/-- Derivations from the tokens of a template. -/
abbrev Derives (context : Context) : State → Form → State → Prop :=
  DerivesBy (Opens context) context

theorem DerivesBy.after_pass (h : Passes context s s1)
    (inside : DerivesBy O context s1 (.region names body) s2) :
    DerivesBy O context s (.region names body) s2 := by
  cases inside with
  | region head inside closes tail => exact .region (h.trans head) inside closes tail

theorem DerivesBy.before_pass (inside : DerivesBy O context s (.region names body) s1)
    (h : Passes context s1 s2) : DerivesBy O context s (.region names body) s2 := by
  cases inside with
  | region head inside closes tail => exact .region head inside closes (tail.trans h)

/-! ## Stacks -/

/-- **Statements leave the stacks as they were**, but for names imported in the innermost scope. -/
theorem DerivesBy.stacks (hO : Opening.Sound O context L) {s' : State} {form : Form}
    (h : DerivesBy O context s form s') (hs : 0 < s.scope.imports.length) :
    s.scope.Balanced s'.scope := by
  -- Tokens change no scope, so the scope before a body is that before its tag.
  induction h with
  | nil | noAlternative | literal => exact .refl _
  | snoc init last ihinit ihlast => exact (ihinit hs).trans (ihlast ((ihinit hs).pos hs))
  | region head inside closes tail ih =>
    rw [head.scope_eq] at ih
    rw [tail.scope_eq, closes.after_eq]
    exact ih hs
  | firstBranch condition inside ih =>
    rw [(passes_of_expression condition).scope_eq] at ih
    exact ih hs
  | nextBranch init head condition inside ihinit ih =>
    rw [(head.trans (passes_of_expression condition)).scope_eq] at ih
    exact (ihinit hs).trans (ih ((ihinit hs).pos hs))
  | alternative head inside ih =>
    rw [head.scope_eq] at ih
    exact ih hs
  | print start expr tail =>
    rw [((passes_of_expression expr).trans tail).scope_eq]
    exact .refl _
  | branch opens inside last tail ih ihlast =>
    rw [hO.scope_eq opens] at ih
    rw [tail.scope_eq]
    exact (ih hs).trans (ihlast ((ih hs).pos hs))
  | loop opens names head expr inside last tail assigned ih ihlast =>
    have hhead := ((passes_of_assignmentTargets names).trans head).trans (passes_of_expression expr)
    rw [hhead.scope_eq, hO.scope_eq opens] at ih
    rw [tail.scope_eq]
    exact (ih hs).trans (ihlast ((ih hs).pos hs))
  | single opens holds => exact .of_eq (holds.passes.scope_eq.trans (hO.scope_eq opens))
  | around opens head inside ih =>
    rw [head.passes.scope_eq, hO.scope_eq opens] at ih
    exact ih hs
  | sandbox opens inside marked ih =>
    rw [hO.scope_eq opens] at ih
    exact ih hs
  | block opens named new inside ih =>
    rw [(passes_of_expectName named).scope_eq, hO.scope_eq opens] at ih
    exact .block hs (ih (Nat.succ_pos _)) _
  | shortBlock opens named new expr tail =>
    have hinside := ((passes_of_expression expr).trans tail).scope_eq
    rw [(passes_of_expectName named).scope_eq, hO.scope_eq opens] at hinside
    exact .block hs (.of_eq hinside) _
  | inherit opens place expr tail | useBlocks opens expr tail =>
    rw [((passes_of_expression expr).trans tail).scope_eq, hO.scope_eq opens]
    exact ⟨rfl, rfl, rfl⟩
  | defineMacro opens named defaults inside ih =>
    have hhead := (passes_of_expectName named).trans (passes_of_macroParams defaults)
    rw [hhead.scope_eq, hO.scope_eq opens] at ih
    exact .defineMacro hs (ih (Nat.succ_pos _)) _ _
  | importAs opens expr tail =>
    rw [((passes_of_expression expr).trans tail).scope_eq, hO.scope_eq opens]
    exact .addSymbol _ _ _ _
  | importNames opens expr tail =>
    rw [((passes_of_expression expr).trans tail).scope_eq, hO.scope_eq opens]
    exact .addMacros _ _ _
  | embed opens expr arguments inside child ih =>
    have hhead := (passes_of_expression expr).trans (passes_of_inclusion arguments)
    exact .of_eq (hhead.scope_eq.trans (hO.scope_eq opens))

end Grammar

end TwigToLatte
