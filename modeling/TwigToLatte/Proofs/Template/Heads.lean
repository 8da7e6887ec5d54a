import TwigToLatte.Proofs.Expr.Progress
import TwigToLatte.Template.Grammar

/-!
# What the heads of tags yield

The parts of tags that hold no statements: expressions with the words and marks between them.

* `yields_assignedValues`, `yields_cacheModifiers`, `yields_inclusion`, … — they take tokens inside
  tags only, and yield what expressions yield.
* `passes_of_expression`, `passes_of_inclusion`, … — runs that succeed have taken such tokens.
-/

namespace TwigToLatte.Grammar

open List

open Parse

variable {v : Inner} {depth : Nat} {P : Expr → Prop}

/-- A variable that is assigned is a name among the tokens, or an operator that starts like one. -/
def Targets (context : Context) (name : String) : Prop :=
  context.Names name ∨
    ∃ i, (context.tokenAt i).kind = .operator name ∧ startsLikeName name = true

theorem yields_assignmentTarget :
    Yields v depth always (Targets v.context) assignmentTarget assignmentTarget := by
  refine .current fun state hs => ?_
  extract_lets assign
  have hassign : ∀ name, Targets v.context name →
      Yields v depth never (Targets v.context) (assign name) (assign name) := fun name hname =>
    .ite (.fail ⟨v.onLines.token _, rfl⟩ rfl) (.pure hname)
  have hname : ReadsAt v.reading depth always (fun name _ => Targets v.context name)
      (expectNameToken (some "Only variables can be assigned to") >>= fun token =>
        pure (token.name?.getD "") >>= assign)
      (expectNameToken (some "Only variables can be assigned to") >>= fun token =>
        pure (token.name?.getD "") >>= assign) state :=
    ((Yields.expectNameToken _).take fun _ h => hassign _ (.inl h.2)) state hs
  split
  · rename_i symbol hkind
    split
    · exact .take hs (by rw [hkind]; rfl) (hassign symbol (.inr ⟨state.cursor, hkind, ‹_›⟩))
    · exact hname
  · exact hname

theorem yields_assignmentTargets :
    Yields v depth always (fun names => names ≠ [] ∧ ∀ name ∈ names, Targets v.context name)
      assignmentTargets assignmentTargets :=
  .commaList yields_assignmentTarget

theorem yields_nextIfName (name : String) :
    Yields v depth never always (nextIfName name) (nextIfName name) :=
  (Reads.nextIf fun _ => Token.isInner_of_isName).weaken (fun _ => False.elim) fun _ _ => trivial

theorem yields_expectNameValue (name : String) :
    Yields v depth always always (expectNameValue name) (expectNameValue name) :=
  (Reads.expect (fun _ => Token.isInner_of_isName) _ _).weaken (fun _ => id) fun _ _ => trivial

theorem yields_expectBlockEnd : Yields v depth always always expectBlockEnd expectBlockEnd :=
  (Reads.expect (fun _ h => by rw [beq_iff_eq.mp h]; rfl) _ _).weaken (fun _ => id)
    fun _ _ => trivial

theorem yields_aliasedName : Yields v depth always always aliasedName aliasedName :=
  Yields.expectName.take fun _ _ => (yields_nextIfName _).bind fun _ _ =>
    .ite (Yields.expectName.bind fun _ _ => .pure trivial) (.pure trivial)

theorem yields_checkEndName (tag : Tag) (name : String) :
    Yields v depth never always (checkEndName tag name) (checkEndName tag name) := by
  refine (Reads.nextIf fun _ => Token.isInner_of_name?).bind fun token _ => ?_
  split
  · exact .pure trivial
  · exact .ite (.pure trivial) (.currentLine fun _ hline => .fail ⟨hline, rfl⟩ rfl)

section

variable (hP : Admits v.context v.lines v.scope P)

include hP

theorem yields_assignedValues :
    Yields v depth always (fun values => values ≠ [] ∧ ∀ e ∈ values, e.All P) assignedValues
      assignedValues :=
  .commaList (yields_expression hP)

theorem yields_filters {line : Nat} (hline : v.lines line) :
    Yields v depth always (Expr.All P)
      (nested fun r => filterChain r { kind := .applyTarget, line })
      (nested fun r => filterChain r { kind := .applyTarget, line }) :=
  yields_nested hP fun hr => .lower (yields_filterChain hP hr
    (forall_mem_singleton.mpr (hP.ordinary rfl hline)))

/-- Parameters, which are names, and their defaults, which are constants. -/
theorem yields_params :
    Yields v depth always (fun params => ∀ param ∈ params,
        param.2.All P ∧ v.context.Names param.1 ∧ isConstant param.2 = true)
      (nested macroParams) (nested macroParams) :=
  yields_nested hP fun hr => (yields_macroParams hP hr).lower

theorem yields_escapingStrategy :
    Yields v depth never always escapingStrategy escapingStrategy := by
  refine .current fun state hs => ?_
  split
  · exact .answer id trivial
  · refine ((yields_expression hP).bind fun e _ => ?_) state hs
    split
    · exact .pure trivial
    · exact .pure trivial
    · exact .currentLine fun _ hline => .fail ⟨hline, rfl⟩ rfl

theorem yields_inclusion {template : Expr} (htemplate : template.All P) :
    Yields v depth always
      (fun included => included.template = template ∧ ∀ e ∈ included.roots, e.All P)
      (inclusion template) (inclusion template) := by
  refine (yields_nextIfName _).bind fun ignored _ => ?_
  extract_lets finish bind
  have hfinish : ∀ bindings : Option Expr, (∀ e ∈ bindings, e.All P) → Yields v depth always
      (fun included => included.template = template ∧ ∀ e ∈ included.roots, e.All P)
      (finish bindings) (finish bindings) := by
    refine fun bindings hbindings => (yields_nextIfName _).bind fun _ _ =>
      yields_expectBlockEnd.take fun _ _ => .pure ⟨rfl, forall_mem_cons.mpr ⟨htemplate, ?_⟩⟩
    exact fun e he => hbindings e (Option.mem_toList.mp he)
  have hbind : Yields v depth always
      (fun included => included.template = template ∧ ∀ e ∈ included.roots, e.All P)
      (bind ()) (bind ()) :=
    (yields_nextIfName _).bind fun _ _ =>
      .ite ((yields_expression hP).bind fun _ he => hfinish _ (by rintro _ ⟨⟩; exact he))
        (hfinish none nofun)
  exact .ite ((yields_expectNameValue _).bind fun _ _ => hbind) hbind

theorem yields_cacheModifiers :
    Yields v depth never
      (fun modifiers => (∀ e ∈ modifiers.1, e.All P) ∧ ∀ e ∈ modifiers.2, e.All P)
      cacheModifiers cacheModifiers := by
  refine .loop (I := fun modifiers => (∀ e ∈ modifiers.1, e.All P) ∧
    ∀ e ∈ modifiers.2, e.All P) ⟨nofun, nofun⟩ ?_
  rintro ⟨ttl, tags⟩ ⟨httl, htags⟩
  refine .current fun state hs => ?_
  split
  · exact .answer id ⟨httl, htags⟩
  rename_i modifier hname
  refine .take hs (Token.isInner_of_name? (by rw [hname]; rfl)) ?_
  refine (yields_nested hP fun hr => (yields_arguments hr false false).lower).bind fun list hlist => ?_
  have hargument : Yields v depth never (fun e => ∀ x ∈ some e, x.All P)
      (modifierArgument modifier list) (modifierArgument modifier list) := by
    unfold modifierArgument
    split
    · exact .pure (by rintro _ ⟨⟩; exact hlist _ mem_cons_self)
    · exact .currentLine fun _ hline => .fail ⟨hline, rfl⟩ rfl
  split
  · exact hargument.bind fun _ he => .pure ⟨he, htags⟩
  · exact hargument.bind fun _ he => .pure ⟨httl, he⟩
  · exact .currentLine fun _ hline => .fail ⟨hline, rfl⟩ rfl

end

/-! ## Tokens alone -/

section

variable {context : Context} {state after : State}

theorem passes_of_expression {e : Expr} (h : expression context state = .ok e after) :
    Passes context state after :=
  (Yields.of_ok (L := AnyLine) (yields_expression (.trivial _ _)) h).1

theorem passes_of_assignmentTargets {names : List String}
    (h : assignmentTargets context state = .ok names after) : Passes context state after :=
  (Yields.of_ok (L := AnyLine) yields_assignmentTargets h).1

theorem passes_of_assignedValues {values : List Expr}
    (h : assignedValues context state = .ok values after) : Passes context state after :=
  (Yields.of_ok (L := AnyLine) (yields_assignedValues (.trivial _ _)) h).1

theorem passes_of_inclusion {template : Expr} {included : Inclusion}
    (h : inclusion template context state = .ok included after) : Passes context state after :=
  (Yields.of_ok (L := AnyLine) (yields_inclusion (.trivial _ _) fun _ _ => True.intro) h).1

theorem passes_of_cacheModifiers {modifiers : Option Expr × Option Expr}
    (h : cacheModifiers context state = .ok modifiers after) : Passes context state after :=
  (Yields.of_ok (L := AnyLine) (yields_cacheModifiers (.trivial _ _)) h).1

theorem passes_of_filters {line : Nat} {filter : Expr}
    (h : nested (fun r => filterChain r { kind := .applyTarget, line }) context state =
      .ok filter after) : Passes context state after :=
  (Yields.of_ok (L := AnyLine) (yields_filters (.trivial _ _) True.intro) h).1

theorem passes_of_macroParams {params : List (String × Expr)}
    (h : nested macroParams context state = .ok params after) : Passes context state after :=
  (Yields.of_ok (L := AnyLine) (yields_params (.trivial _ _)) h).1

theorem passes_of_escapingStrategy {strategy : Option String}
    (h : escapingStrategy context state = .ok strategy after) : Passes context state after :=
  (Yields.of_ok (L := AnyLine) (yields_escapingStrategy (.trivial _ _)) h).1

theorem passes_of_expectName {name : String} (h : expectName context state = .ok name after) :
    Passes context state after :=
  (passes_expectName (L := AnyLine)).of_ok h

end

end TwigToLatte.Grammar
