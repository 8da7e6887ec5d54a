import Mathlib.Logic.Relation
import TwigToLatte.Proofs.Latte.Fragments
import TwigToLatte.Proofs.Latte.Spelling

/-!
# Bound variables

Loops, macros and anonymous functions give names to variables. A variable is read under the name
that it was given, unless this is the name of the loop variable: that one is written as the iterator
wherever no loop around assigns it, and macros and anonymous functions do not count. What stands at
a position is written in its scope (`Position.Reached.renders`), so the scope is all that matters.

* `Binder` — what gives names to variables, and the text in which it does so.
* `Binder.Encloses` — the position is inside of the body of a loop or a macro.
* `Binder.Binds` — an expression stands where the names are given.
* `Position.Reached.mem_bound_iff` — the names in the scope of a position are those that the loops
  around it assign.
* `Binder.binds_text_eq_iff` — **a variable is read under its name, unless it is named like the loop
  variable and no loop around assigns this name**.
-/

namespace TwigToLatte

open List

/-- What gives names to variables. -/
inductive Binder where
  | loop (key : Option String) (value : String) (sequence : Expr)
  | define (name : String) (params : List (String × Expr))
  | arrow (names : List String)

namespace Binder

def names : Binder → List String
  | .loop key value _ => value :: key.toList
  | .define _ params => params.map Prod.fst
  | .arrow names => names

def isLoop : Binder → Bool
  | .loop .. => true
  | .define .. | .arrow _ => false

/-- The text that gives the names. -/
def head (scope : Latte.Scope) : Binder → Latte.Rendered
  | .loop key value sequence => Latte.loopHead scope key value sequence
  | .define name params => Latte.macroHead scope name params
  | .arrow names => Latte.arrowHead names

end Binder

/-! ## Text of the binders -/

namespace Latte

/-- A text holds a variable of this name. -/
def Declares (text name : String) : Prop :=
  ∃ before after : String, text = before ++ ("$" ++ name) ++ after ∧ EndsWord after.toList

theorem EndsWord.append {first second : List Char} (hfirst : EndsWord first)
    (hsecond : EndsWord second) : EndsWord (first ++ second) := by
  cases first with
  | nil => exact hsecond
  | cons c rest => exact endsWord_cons (hfirst c rfl) _

/-- A text that begins with a character that belongs to no word. -/
theorem endsWord_append {start : String}
    (h : start.toList.head?.any (!Pattern.isNameChar ·) = true) (more : String) :
    EndsWord (start ++ more).toList := by
  rw [String.toList_append]
  exact endsWord_text h _

namespace Declares

variable {text name : String}

theorem self (name : String) : Declares ("$" ++ name) name :=
  ⟨"", "", by simp, endsWord_nil⟩

theorem after (h : Declares text name) (before : String) : Declares (before ++ text) name := by
  obtain ⟨front, back, rfl, hback⟩ := h
  exact ⟨before ++ front, back, by simp only [String.append_assoc], hback⟩

theorem append (h : Declares text name) {more : String} (hmore : EndsWord more.toList) :
    Declares (text ++ more) name := by
  obtain ⟨front, back, rfl, hback⟩ := h
  refine ⟨front, back ++ more, by simp only [String.append_assoc], ?_⟩
  rw [String.toList_append]
  exact hback.append hmore

end Declares

/-! ### Anonymous functions -/

variable {names : List String} {name : String}

theorem declares_intercalate (h : name ∈ names) :
    Declares (", ".intercalate (names.map ("$" ++ ·))) name := by
  induction names with
  | nil => cases h
  | cons first rest ih =>
    cases rest with
    | nil =>
      cases mem_singleton.mp h
      rw [map_cons, map_nil, String.intercalate_singleton]
      exact .self _
    | cons second rest =>
      rw [map_cons, map_cons, String.intercalate_cons_cons]
      rcases mem_cons.mp h with rfl | h
      · rw [String.append_assoc]
        exact (Declares.self _).append (endsWord_append (by decide) _)
      · exact (ih h).after _

theorem declares_arrowHead (h : name ∈ names) : Declares (arrowHead names) name :=
  ((declares_intercalate h).after _).append (endsWord_cons (by decide) _)

/-! ### Loops -/

namespace Rendered

variable {r s : Rendered}

theorem error_left (h : (r ++ s).error = none) : r.error = none := by
  by_contra herror
  rw [append_of_error herror] at h
  exact herror h

end Rendered

section

variable {name : String} {head r : Rendered} {pieces : List Rendered}

theorem Declares.write (h : Declares head.text name) (hr : EndsWord r.text.toList) :
    Declares (head ++ r).text name := by
  by_cases herror : head.error = none
  · rw [Rendered.append_eq herror]
    exact h.append hr
  · rw [Rendered.append_of_error herror]
    exact h

theorem Declares.writeAll (h : Declares head.text name)
    (hpieces : ∀ r ∈ pieces, EndsWord r.text.toList) :
    Declares (pieces.foldl (· ++ ·) head).text name := by
  induction pieces generalizing head with
  | nil => exact h
  | cons piece rest ih =>
    obtain ⟨hpiece, hrest⟩ := forall_mem_cons.mp hpieces
    exact ih (h.write hpiece) hrest

theorem Rendered.error_of_foldl (h : (pieces.foldl (· ++ ·) head).error = none) :
    head.error = none := by
  induction pieces generalizing head with
  | nil => exact h
  | cons piece rest ih => exact error_left (ih h)

/-- What one piece of a text declares, the text declares, since the pieces after it belong to no
word. -/
theorem declares_foldl (hmem : r ∈ pieces) (hr : Declares r.text name)
    (hpieces : ∀ r ∈ pieces, EndsWord r.text.toList)
    (h : (pieces.foldl (· ++ ·) head).error = none) :
    Declares (pieces.foldl (· ++ ·) head).text name := by
  induction pieces generalizing head with
  | nil => cases hmem
  | cons piece rest ih =>
    obtain ⟨-, hrest⟩ := forall_mem_cons.mp hpieces
    rcases mem_cons.mp hmem with rfl | hmem
    · have herror : (head ++ r).error = none := Rendered.error_of_foldl h
      have hwritten : Declares (head ++ r).text name := by
        rw [Rendered.append_eq (Rendered.error_left herror)]
        exact hr.after _
      exact hwritten.writeAll hrest
    · exact ih hmem hrest h

end

theorem declares_loopHead {scope : Scope} {key : Option String} {value : String} {sequence : Expr}
    (h : name ∈ value :: key.toList) (herror : (loopHead scope key value sequence).error = none) :
    Declares (loopHead scope key value sequence).text name := by
  rw [loopHead, Rendered.append_eq (Rendered.error_left herror)]
  apply Declares.after
  show Declares (" as " ++ (key.map fun key => "$" ++ key ++ " => ").getD "" ++ "$" ++ value ++
    "\x7d") name
  rcases mem_cons.mp h with rfl | h
  · have hclose : EndsWord "\x7d".toList := endsWord_cons (by decide) _
    simpa only [String.append_assoc] using (((Declares.self name).append hclose).after _).after _
  · cases Option.mem_toList.mp h
    have harrow : EndsWord (" => " ++ ("$" ++ value ++ "\x7d")).toList :=
      endsWord_append (by decide) _
    have hkey := (Declares.self name).append harrow
    simpa only [Option.map_some, Option.getD_some, String.append_assoc] using hkey.after " as "

/-! ### Macros -/

section

variable {scope : Scope} {name : String} {param : String × Expr} {params : List (String × Expr)}

theorem endsWord_macroParam : EndsWord (macroParam scope param).text.toList := by
  rw [macroParam, Rendered.append_eq rfl]
  show EndsWord (", $" ++ param.1 ++ _).toList
  rw [String.append_assoc]
  exact endsWord_append (by decide) _

theorem declares_macroParam : Declares (macroParam scope param).text param.1 := by
  have hparam : Declares (", " ++ ("$" ++ param.1)) param.1 := (Declares.self _).after _
  rw [macroParam, Rendered.append_eq rfl]
  refine hparam.append ?_
  split
  · exact endsWord_nil
  · rw [Rendered.append_eq rfl]
    exact endsWord_append (by decide) _

theorem declares_macroHead {macroName : String} (hname : name ∈ params.map Prod.fst)
    (h : (macroHead scope macroName params).error = none) :
    Declares (macroHead scope macroName params).text name := by
  unfold macroHead at h ⊢
  cases hfind : params.find? (·.1 == "varargs") with
  | some param =>
    rw [hfind] at h
    cases h
  | none =>
    rw [hfind] at h
    have herror := Rendered.error_left h
    show Declares (_ ++ _ : Rendered).text name
    rw [Rendered.append_eq herror]
    obtain ⟨param, hparam, rfl⟩ := mem_map.mp hname
    have hparams := declares_foldl (mem_map_of_mem hparam) declares_macroParam
      (forall_mem_map.mpr fun _ _ => endsWord_macroParam) herror
    exact hparams.append (endsWord_cons (by decide) _)

end

end Latte

variable {name : String}

theorem Binder.declares_head {b : Binder} {scope : Latte.Scope} (h : name ∈ b.names)
    (herror : (b.head scope).error = none) : Latte.Declares (b.head scope).text name := by
  cases b with
  | loop key value sequence => exact Latte.declares_loopHead h herror
  | define macroName params => exact Latte.declares_macroHead h herror
  | arrow names => exact Latte.declares_arrowHead h

/-! ## Positions -/

namespace Position

/-- The body of a loop that stands at a position. -/
def inLoop (p : Position) (key : Option String) (value : String) (withLoop : Bool)
    (body : List Stmt) : Position :=
  { p with
    inner := ⟨.body, value :: key.toList, withLoop⟩ :: p.inner
    scope := p.scope.bind key value
    stmts := body }

/-- A template begins with these loops around it, in a scope: the outermost one, or one that is
embedded. -/
inductive Starts (root : Template) (scope : Latte.Scope) :
    Template → List LoopFrame → Latte.Scope → Prop
  | root : Starts root scope root [] scope
  | embedded {p : Position} {included : Inclusion} {t : Template} {line : Nat}
      (hp : Reached root scope p) (h : ⟨.embed included t, line⟩ ∈ p.stmts) :
      Starts root scope t (p.inner ++ p.outer) p.scope

end Position

open Position Relation

/-- A position is inside of the body of a loop or a macro. -/
inductive Binder.Encloses (root : Template) (scope : Latte.Scope) : Binder → Position → Prop
  | loop {p q : Position} {key : Option String} {value : String} {sequence : Expr}
      {body : List Stmt} {otherwise : Option (List Stmt)} {withLoop : Bool} {line : Nat}
      (hp : Reached root scope p)
      (h : ⟨.loop key value sequence body otherwise withLoop, line⟩ ∈ p.stmts)
      (hq : ReflTransGen Step (p.inLoop key value withLoop body) q) :
      Encloses root scope (.loop key value sequence) q
  | define {t : Template} {outer : List LoopFrame} {start : Latte.Scope} {name : String}
      {params : List (String × Expr)} {body : List Stmt} {line : Nat} {q : Position}
      (hstart : Starts root scope t outer start) (h : (name, ⟨params, body, line⟩) ∈ t.macros)
      (hq : ReflTransGen Step ⟨t, outer, [], start, body⟩ q) :
      Encloses root scope (.define name params) q

/-- An expression at a position stands where the names are given. -/
inductive Binder.Binds (root : Template) (scope : Latte.Scope) : Binder → Position → Expr → Prop
  | body {b : Binder} {q : Position} {frames : List LoopFrame} {x : Expr}
      (h : Encloses root scope b q) (hx : q.Reads frames x) : Binds root scope b q x
  | arrow {names : List String} {body : Expr} {line : Nat} {topmost : Bool} {q : Position}
      {frames : List LoopFrame} {x : Expr} (hq : Reached root scope q)
      (harrow : q.Reads frames ⟨.arrow names body, line, topmost⟩) (hx : x ∈ body.parts) :
      Binds root scope (.arrow names) q x

section

variable {root t : Template} {scope start : Latte.Scope} {p q : Position} {outer : List LoopFrame}
  {b : Binder} {x : Expr} {name : String}

namespace Position

theorem Starts.reached (h : Starts root scope t outer start) {stmts : List Stmt}
    (hstmts : stmts ∈ t.entries) : Reached root scope ⟨t, outer, [], start, stmts⟩ := by
  cases h with
  | root => exact .start hstmts
  | embedded hp hmem => exact .step hp (.embedded hmem hstmts)

theorem Reached.trans (hp : Reached root scope p) (hq : ReflTransGen Step p q) :
    Reached root scope q := by
  induction hq with
  | refl => exact hp
  | tail _ hstep ih => exact ih.step hstep

theorem Step.bound_subset (h : p.Step q) : p.scope.bound ⊆ q.scope.bound := by
  cases h with
  | loopBody => exact fun name hname => mem_bind.mpr (.inl hname)
  | loopOtherwise | inside | block | embedded => exact List.Subset.refl _

theorem bound_subset (h : ReflTransGen Step p q) : p.scope.bound ⊆ q.scope.bound := by
  induction h with
  | refl => exact List.Subset.refl _
  | tail _ hstep ih => exact List.Subset.trans ih hstep.bound_subset

end Position

theorem Binder.Encloses.reached (h : Encloses root scope b q) : Reached root scope q := by
  cases h with
  | loop hp hmem hq => exact (hp.step (.loopBody hmem)).trans hq
  | define hstart hmem hq =>
    exact (hstart.reached (mem_cons_of_mem _ (mem_map_of_mem hmem))).trans hq

theorem Binder.Encloses.step (h : Encloses root scope b p) (hstep : p.Step q) :
    Encloses root scope b q := by
  cases h with
  | loop hp hmem hq => exact .loop hp hmem (hq.tail hstep)
  | define hstart hmem hq => exact .define hstart hmem (hq.tail hstep)

/-- The names in the scope of a position are those that the loops around it assign. -/
theorem Position.Reached.mem_bound_iff (h : Reached root scope q) (hscope : scope.bound = []) :
    name ∈ q.scope.bound ↔
      ∃ b : Binder, b.isLoop = true ∧ b.Encloses root scope q ∧ name ∈ b.names := by
  constructor
  · intro hname
    induction h with
    | start =>
      rw [hscope] at hname
      cases hname
    | @step p q hp hstep ih =>
      have houter (hmem : name ∈ p.scope.bound) :
          ∃ b : Binder, b.isLoop = true ∧ b.Encloses root scope q ∧ name ∈ b.names := by
        obtain ⟨b, hloop, hencloses, htarget⟩ := ih hmem
        exact ⟨b, hloop, hencloses.step hstep, htarget⟩
      cases hstep with
      | loopBody hmem =>
        rcases mem_bind.mp hname with hname | hname
        · exact houter hname
        · exact ⟨_, rfl, .loop hp hmem .refl, hname⟩
      | loopOtherwise | inside | block | embedded => exact houter hname
  · rintro ⟨b, hloop, hencloses, hname⟩
    cases hencloses with
    | define => cases hloop
    | loop hp hmem hq => exact bound_subset hq (mem_bind.mpr (.inr hname))

theorem Binder.Binds.reached (h : Binds root scope b q x) : Reached root scope q := by
  cases h with
  | body hencloses => exact hencloses.reached
  | arrow hq => exact hq

end

/-! ## Reading variables -/

theorem Latte.variable_eq_iff (scope : Scope) (name : String) (line : Nat) (topmost : Bool) :
    expression scope ⟨.name name false, line, topmost⟩ = ("$" ++ name : String) ↔
      name ≠ "loop" ∨ "loop" ∈ scope.bound := by
  rw [expression, expressionKind, variableText.eq_def, ← specialName?_eq_none_iff]
  cases hspecial : specialName? scope.bound name with
  | none => exact iff_of_true rfl rfl
  | some special =>
    rw [specialName?] at hspecial
    split at hspecial <;> cases hspecial
    rename_i hloop
    cases eq_of_beq (Bool.and_eq_true_iff.mp hloop).1
    exact iff_of_false (by decide) (Option.some_ne_none _)

/-- **A variable is read under its name, unless it is named like the loop variable and no loop
around assigns this name.** So the variables of loops always are. The names stand in the texts of
the binders, whatever they are. The text in the scope of its position is what a template that can be
written has for the variable, in each statement that is written with it. -/
theorem Binder.binds_text_eq_iff {dialect : Dialect} {file : String} {root : Template} {b : Binder}
    {q : Position} {name : String} {line : Nat} {topmost : Bool}
    (h : b.Binds root ⟨dialect, file, []⟩ q ⟨.name name false, line, topmost⟩)
    (hname : name ∈ b.names) :
    (∀ scope, (b.head scope).error = none → Latte.Declares (b.head scope).text name) ∧
    (b.isLoop = true →
      Latte.expression q.scope ⟨.name name false, line, topmost⟩ = ("$" ++ name : String)) ∧
    (Latte.expression q.scope ⟨.name name false, line, topmost⟩ = ("$" ++ name : String) ↔
      name ≠ "loop" ∨ ∃ around : Binder, around.isLoop = true ∧
        around.Encloses root ⟨dialect, file, []⟩ q ∧ "loop" ∈ around.names) ∧
    ∀ {out after}, Latte.template root ⟨dialect, file, []⟩ out = .ok () after →
      ∀ stmt ∈ q.stmts, (∃ e ∈ stmt.kind.roots, Expr.Shows ⟨.name name false, line, topmost⟩ e) →
        q.Renders root ⟨dialect, file, []⟩ stmt ⟨.name name false, line, topmost⟩ := by
  have hiff := (Latte.variable_eq_iff q.scope name line topmost).trans
    (or_congr_right (h.reached.mem_bound_iff rfl))
  refine ⟨fun scope herror => declares_head hname herror, fun hloop => hiff.mpr ?_, hiff,
    fun hrun _ hstmt hshows => h.reached.renders hrun hstmt rfl hshows⟩
  by_cases hspecial : name = "loop"
  · subst hspecial
    cases h with
    | body hencloses => exact .inr ⟨b, hloop, hencloses, hname⟩
    | arrow => cases hloop
  · exact .inl hspecial

/-! ## Variables named like the loop variable -/

/-- `{% for loop in x %}{% block b %}{{ loop }}{% endblock %}{% endfor %}` -/
def blockInLoop : Template :=
  ⟨[⟨.loop none "loop" ⟨.name "x" false, 1, false⟩ [⟨.block "b", 1⟩] none false, 1⟩],
    [("b", ⟨[⟨.print ⟨.name "loop" false, 1, false⟩, 1⟩], 1⟩)], [], none, []⟩

/-- `{% macro foo(param) %}{{ param }}{% endmacro %}` -/
def macroOf (param : String) : Template :=
  ⟨[], [], [("foo", ⟨[(param, ⟨.constant .null, 1, false⟩)],
    [⟨.print ⟨.name param false, 1, false⟩, 1⟩], 1⟩)], none, []⟩

/-- `{{ x|sort(param => param) }}` -/
def sortedBy (param : String) : Template :=
  ⟨[⟨.print ⟨.filter ⟨.name "x" false, 1, false⟩ "sort"
      [⟨none, ⟨.arrow [param] ⟨.name param false, 1, false⟩, 1, false⟩⟩], 1, true⟩, 1⟩],
    [], [], none, []⟩

theorem binds_macroOf (param : String) :
    ∃ q : Position, q.scope.bound = [] ∧
      (Binder.define "foo" [(param, ⟨.constant .null, 1, false⟩)]).Binds (macroOf param)
        ⟨{}, "", []⟩ q ⟨.name param false, 1, false⟩ ∧
      ∃ stmt ∈ q.stmts, ∃ e ∈ stmt.kind.roots, Expr.Shows ⟨.name param false, 1, false⟩ e :=
  ⟨_, rfl, .body (.define .root mem_cons_self .refl)
    (.statement mem_cons_self rfl mem_cons_self mem_cons_self),
    _, mem_cons_self, _, mem_cons_self, .self⟩

theorem binds_sortedBy (param : String) :
    ∃ q : Position, q.scope.bound = [] ∧
      (Binder.arrow [param]).Binds (sortedBy param) ⟨{}, "", []⟩ q ⟨.name param false, 1, false⟩ ∧
      ∃ stmt ∈ q.stmts, ∃ e ∈ stmt.kind.roots, Expr.Shows ⟨.name param false, 1, false⟩ e :=
  ⟨_, rfl, .arrow (.start mem_cons_self) (.statement mem_cons_self rfl mem_cons_self
    (mem_cons_of_mem _ (mem_cons_of_mem _ mem_cons_self))) mem_cons_self,
    _, mem_cons_self, _, mem_cons_self,
    .child (mem_cons_of_mem _ mem_cons_self) (.child mem_cons_self .self)⟩

/-- A block inside of a loop reads the variable of the loop, even under the name of the loop
variable. Parameters have other names. -/
theorem Binder.binds_text_eq_iff_block :
    (∃ q : Position,
      (Binder.loop none "loop" ⟨.name "x" false, 1, false⟩).Binds blockInLoop ⟨{}, "", []⟩ q
        ⟨.name "loop" false, 1, false⟩ ∧
      Latte.expression q.scope ⟨.name "loop" false, 1, false⟩ = ("$loop" : String) ∧
      ∃ stmt ∈ q.stmts,
        q.Renders blockInLoop ⟨{}, "", []⟩ stmt ⟨.name "loop" false, 1, false⟩) ∧
    (∃ q : Position,
      (Binder.define "foo" [("a", ⟨.constant .null, 1, false⟩)]).Binds (macroOf "a") ⟨{}, "", []⟩ q
        ⟨.name "a" false, 1, false⟩ ∧
      Latte.expression q.scope ⟨.name "a" false, 1, false⟩ = ("$a" : String)) ∧
    (∃ q : Position,
      (Binder.arrow ["a"]).Binds (sortedBy "a") ⟨{}, "", []⟩ q ⟨.name "a" false, 1, false⟩ ∧
      Latte.expression q.scope ⟨.name "a" false, 1, false⟩ = ("$a" : String)) := by
  have hp : Reached blockInLoop ⟨{}, "", []⟩ _ := .start mem_cons_self
  have hencloses := Binder.Encloses.loop hp mem_cons_self
    (.single (.block mem_cons_self rfl))
  have hloop : Binder.Binds blockInLoop ⟨{}, "", []⟩ _ _ ⟨.name "loop" false, 1, false⟩ :=
    .body hencloses (.statement mem_cons_self rfl mem_cons_self mem_cons_self)
  have hrun : Latte.template blockInLoop ⟨{}, "", []⟩ {} = .ok () _ := rfl
  obtain ⟨p, -, hmacro, -⟩ := binds_macroOf "a"
  obtain ⟨q, -, harrow, -⟩ := binds_sortedBy "a"
  exact ⟨⟨_, hloop, (binds_text_eq_iff hloop mem_cons_self).2.1 rfl, _, mem_cons_self,
      (binds_text_eq_iff hloop mem_cons_self).2.2.2 hrun _ mem_cons_self ⟨_, mem_cons_self, .self⟩⟩,
    ⟨p, hmacro, (binds_text_eq_iff hmacro mem_cons_self).2.2.1.mpr (.inl (by decide))⟩,
    ⟨q, harrow, (binds_text_eq_iff harrow mem_cons_self).2.2.1.mpr (.inl (by decide))⟩⟩

/-- Every variable is read under the name that it was given, wherever it is written. -/
def Template.ReadsAsBound (root : Template) (scope : Latte.Scope) : Prop :=
  ∀ {b : Binder} {q : Position} {name : String} {line : Nat} {topmost : Bool} {stmt : Stmt},
    b.Binds root scope q ⟨.name name false, line, topmost⟩ → name ∈ b.names → stmt ∈ q.stmts →
      q.Renders root scope stmt ⟨.name name false, line, topmost⟩ →
        Latte.expression q.scope ⟨.name name false, line, topmost⟩ = ("$" ++ name : String)

/-- Parameters that are named like the loop variable are not. -/
theorem not_readsAsBound_parameter :
    ¬ (macroOf "loop").ReadsAsBound ⟨{}, "", []⟩ ∧
      ¬ (sortedBy "loop").ReadsAsBound ⟨{}, "", []⟩ ∧
      (Latte.render {} "" (macroOf "loop")).map Prod.fst =
        .ok "\x7bdefine foo, $loop\x7d\x7b$iterator\x7d\x7b/define\x7d" ∧
      (Latte.render {} "" (sortedBy "loop")).map Prod.fst =
        .ok "\x7b$x|sort:fn($loop) => $iterator\x7d" := by
  have hmacro : Latte.template (macroOf "loop") ⟨{}, "", []⟩ {} = .ok () _ := rfl
  have harrow : Latte.template (sortedBy "loop") ⟨{}, "", []⟩ {} = .ok () _ := rfl
  refine ⟨fun h => ?_, fun h => ?_, by decide +kernel, by decide +kernel⟩
  · obtain ⟨q, hbound, hbinds, stmt, hstmt, hshows⟩ := binds_macroOf "loop"
    have htext := h hbinds mem_cons_self hstmt (hbinds.reached.renders hmacro hstmt rfl hshows)
    rw [Latte.variable_eq_iff, hbound] at htext
    exact absurd htext (by decide)
  · obtain ⟨q, hbound, hbinds, stmt, hstmt, hshows⟩ := binds_sortedBy "loop"
    have htext := h hbinds mem_cons_self hstmt (hbinds.reached.renders harrow hstmt rfl hshows)
    rw [Latte.variable_eq_iff, hbound] at htext
    exact absurd htext (by decide)

end TwigToLatte
