import TwigToLatte.Proofs.Conversion.Lines
import TwigToLatte.Proofs.Latte.Binders
import TwigToLatte.Proofs.Template.Tracking

/-!
# Declared variables

Which names a conversion declares. Parameters of macros and of anonymous functions are names of
templates. A variable that is assigned may as well be an operator that begins like a name, such as
`b-and` or `starts with`, and a key of a scope may be any string.

* `Declaration` — a place of the code that declares variables, with their names and its text, which
  is written for it: `Stmt.Kind.head_mem_statementKind`.
* `Dialect.phrases` — the operators that begin like a name and are none.
* `Template.Named` — **what is known of the names of a template**: `named_parse`, and
  `Pass.Rewords.named_onTemplate` for the passes.
* `isName_declared` — which declared names are names of templates.
-/

namespace TwigToLatte

open List

/-- A place where code declares variables. -/
inductive Declaration where
  | bound (binder : Binder)
  | assigned (targets : List (String × Expr))
  | captured (name : String)
  | entries (items : List (Expr × Expr))

namespace Declaration

/-- The names of the variables. A key of a scope is one if it is a string. -/
def names : Declaration → List String
  | .bound binder => binder.names
  | .assigned targets => targets.map Prod.fst
  | .captured name => [name]
  | .entries items => items.filterMap (·.1.string?)

/-- The text that declares them. -/
def head (scope : Latte.Scope) : Declaration → Latte.Rendered
  | .bound binder => binder.head scope
  | .assigned targets => Latte.assignTag scope targets
  | .captured name => Latte.captureHead name
  | .entries items => Latte.scopeTag scope items

/-- Whether the names are given as the targets of an assignment. -/
def isAssignment : Declaration → Bool
  | .bound binder => binder.isLoop
  | .assigned _ | .captured _ => true
  | .entries _ => false

/-- Whether the names are given as keys. -/
def isKeyed : Declaration → Bool
  | .entries _ => true
  | _ => false

end Declaration

/-- What a statement declares. -/
def Stmt.Kind.declaration? : Stmt.Kind → Option Declaration
  | .loop key value sequence _ _ _ => some (.bound (.loop key value sequence))
  | .assign targets => some (.assigned targets)
  | .capture name _ => some (.captured name)
  | .scope (some ⟨.array items, _, _⟩) _ _ => some (.entries items)
  | _ => none

/-- **A statement writes the head of its declaration**, if that has any names. -/
theorem Stmt.Kind.head_mem_statementKind {kind : Stmt.Kind} {d : Declaration}
    (h : kind.declaration? = some d) (hnames : d.names ≠ []) (line : Nat)
    (block : Latte.BlockScript) (scope : Latte.Scope) :
    .text (d.head scope) ∈ Latte.Script.statementKind kind line block scope := by
  unfold declaration? at h
  split at h
  · cases h
    exact mem_cons_self
  · cases h
    exact mem_cons_self
  · cases h
    exact mem_cons_self
  · rename_i items _ _ _ _
    cases h
    cases items with
    | nil => exact absurd rfl hnames
    | cons => exact mem_cons_of_mem _ mem_cons_self
  · cases h

/-- What a template declares, in its statements, its macros and its expressions. -/
inductive Template.Declared (t : Template) : Declaration → Prop
  | statement {stmt : Stmt} {d : Declaration} (mem : stmt ∈ t.parts)
      (declares : stmt.kind.declaration? = some d) : t.Declared d
  | define {name : String} {definition : MacroDef} (mem : (name, definition) ∈ t.macros) :
      t.Declared (.bound (.define name definition.params))
  | arrow {e : Expr} {names : List String} {body : Expr} (mem : e ∈ t.exprs)
      (kind : e.kind = .arrow names body) : t.Declared (.bound (.arrow names))

/-! ## Text -/

namespace Latte

variable {scope : Scope} {name : String} {r : Rendered} {list : List Rendered}

theorem commaSeparated_cons (first : Rendered) (rest : List Rendered) :
    commaSeparated (first :: rest) =
      (rest.map ((", " : String) ++ · : Rendered → Rendered)).foldl (· ++ ·) first := by
  rw [foldl_map]
  exact congrArg (List.foldl · first rest)
    (funext fun text => funext fun r => Rendered.append_assoc text _ r)

theorem declares_commaSeparated (hmem : r ∈ list) (hr : Declares r.text name)
    (h : (commaSeparated list).error = none) : Declares (commaSeparated list).text name := by
  cases list with
  | nil => cases hmem
  | cons first rest =>
    have hpieces : ∀ r ∈ rest.map ((", " : String) ++ · : Rendered → Rendered),
        EndsWord r.text.toList := by
      refine forall_mem_map.mpr fun r _ => ?_
      rw [Rendered.append_eq rfl]
      exact endsWord_append (by decide) _
    rw [commaSeparated_cons] at h ⊢
    rcases mem_cons.mp hmem with rfl | hmem
    · exact hr.writeAll hpieces
    · refine declares_foldl (mem_map_of_mem hmem) ?_ hpieces h
      rw [Rendered.append_eq rfl]
      exact hr.after _

theorem declares_varTag {start : String} (hmem : r ∈ list) (hr : Declares r.text name)
    (h : ((start : Rendered) ++ commaSeparated list ++ ("\x7d" : Rendered)).error = none) :
    Declares ((start : Rendered) ++ commaSeparated list ++ ("\x7d" : Rendered)).text name := by
  have hopen := Rendered.error_left h
  rw [Rendered.append_eq hopen, Rendered.append_eq rfl]
  rw [Rendered.append_eq rfl] at hopen
  exact ((declares_commaSeparated hmem hr hopen).after _).append (endsWord_cons (by decide) _)

theorem declares_assignment (target : String × Expr) :
    Declares (assignment scope target).text target.1 := by
  rw [assignment, Rendered.append_eq rfl]
  show Declares ("$" ++ target.1 ++ " = " ++ (expression scope target.2).text) target.1
  rw [String.append_assoc]
  exact (Declares.self _).append (endsWord_append (by decide) _)

theorem declares_scopeVariable {item : Expr × Expr} (h : item.1.string? = some name) :
    Declares (scopeVariable scope item).text name := by
  rw [scopeVariable, h]
  show Declares (("$" ++ name : String) ++ (" = " : String) ++ expression scope item.2 : Rendered).text
    name
  rw [Rendered.append_eq rfl, Rendered.append_eq rfl, String.append_assoc]
  exact (Declares.self _).append (endsWord_append (by decide) _)

end Latte

variable {d : Declaration} {name : String} {dialect : Dialect} {t : Template}

theorem Declaration.declares_head {scope : Latte.Scope} (hname : name ∈ d.names)
    (h : (d.head scope).error = none) : Latte.Declares (d.head scope).text name := by
  cases d with
  | bound binder => exact Binder.declares_head hname h
  | assigned targets =>
    obtain ⟨target, htarget, rfl⟩ := mem_map.mp hname
    exact Latte.declares_varTag (mem_map_of_mem htarget) (Latte.declares_assignment target) h
  | captured name =>
    cases mem_singleton.mp hname
    show Latte.Declares (Latte.captureHead name) name
    exact ((Latte.Declares.self name).after "\x7bcapture ").append (Latte.endsWord_cons (by decide) _)
  | entries items =>
    obtain ⟨item, hitem, hkey⟩ := mem_filterMap.mp hname
    exact Latte.declares_varTag (mem_map_of_mem hitem) (Latte.declares_scopeVariable hkey) h

/-! ## Names of a template -/

/-- The operators that begin like a name and are none. -/
def Dialect.phrases (dialect : Dialect) : List String :=
  dialect.operatorSymbols.filter fun symbol =>
    Grammar.startsLikeName symbol && !Grammar.isName symbol

example : Dialect.core.phrases =
    ["b-or", "b-xor", "b-and", "not in", "starts with", "ends with", "is not"] := by
  decide +kernel

/-- The variables that a statement assigns to. -/
def Stmt.Kind.targets : Stmt.Kind → List String
  | .loop key value _ _ _ _ => key.toList ++ [value]
  | .assign targets => targets.map Prod.fst
  | .capture name _ => [name]
  | _ => []

/-- What is known of the names that a template declares. -/
structure Template.Named (dialect : Dialect) (t : Template) : Prop where
  targets : ∀ names ∈ t.parts.map (·.kind.targets), ∀ name ∈ names,
    Grammar.isName name = true ∨ name ∈ dialect.phrases
  params : ∀ names ∈ t.macros.map (·.2.params.map Prod.fst), ∀ name ∈ names,
    Grammar.isName name = true
  parameters : ∀ e ∈ t.exprs, ∀ name ∈ e.parameters, Grammar.isName name = true

theorem Template.Named.of_declared (h : t.Named dialect) (hd : t.Declared d)
    (hname : name ∈ d.names) (hkeyed : d.isKeyed = false) :
    Grammar.isName name = true ∨ d.isAssignment = true ∧ name ∈ dialect.phrases := by
  cases hd with
  | @statement stmt d mem declares =>
    have htargets : name ∈ stmt.kind.targets ∧ d.isAssignment = true := by
      unfold Stmt.Kind.declaration? at declares
      split at declares
      · rename_i hkind
        cases declares
        rw [hkind]
        exact ⟨by simpa [Stmt.Kind.targets, Declaration.names, Binder.names, or_comm] using hname,
          rfl⟩
      · rename_i hkind
        cases declares
        rw [hkind]
        exact ⟨hname, rfl⟩
      · rename_i hkind
        cases declares
        rw [hkind]
        exact ⟨hname, rfl⟩
      · cases declares
        cases hkeyed
      · cases declares
    exact (h.targets _ (mem_map_of_mem mem) name htargets.1).imp_right
      fun hmem => ⟨htargets.2, hmem⟩
  | define mem => exact .inl (h.params _ (mem_map_of_mem mem) name hname)
  | @arrow e names body mem kind =>
    refine .inl (h.parameters e mem name ?_)
    rw [Expr.parameters, kind]
    exact hname

/-! ## Parsing -/

section

variable {dialect : Dialect} {source : Source} {tokens : Array Token} {name : String}
  (htokens : Lexer.tokenize source.text dialect.operatorSymbols = .ok tokens)

include htokens

theorem spelled_tokenAt (i : Nat) :
    ((Parse.Context.mk dialect source.displayName tokens).tokenAt i).kind.Spelled
      (Pattern.orderSymbols dialect.operatorSymbols) := by
  have h := Lexer.line_tokenize source.text dialect.operatorSymbols
  rw [htokens] at h
  exact Parse.Context.forall_tokenAt (P := fun token => token.kind.Spelled _) trivial
    (fun token htoken => (h token htoken).2) i

theorem isName_of_names (h : (Parse.Context.mk dialect source.displayName tokens).Names name) :
    Grammar.isName name = true := by
  obtain ⟨i, hname⟩ := h
  have hspelled := spelled_tokenAt htokens i
  unfold Token.name? at hname
  split at hname
  · rename_i hkind
    cases hname
    rwa [hkind] at hspelled
  · cases hname

theorem isName_or_mem_phrases
    (h : Grammar.Targets ⟨dialect, source.displayName, tokens⟩ name) :
    Grammar.isName name = true ∨ name ∈ dialect.phrases := by
  rcases h with h | ⟨i, hkind, hstart⟩
  · exact .inl (isName_of_names htokens h)
  · have hspelled := spelled_tokenAt htokens i
    rw [hkind] at hspelled
    obtain ⟨symbol, hmem, hsymbol⟩ := mem_map.mp (Pattern.mem_orderSymbols.mp hspelled).1
    cases String.toList_inj.mp hsymbol
    by_cases hname : Grammar.isName name = true
    · exact .inl hname
    · rw [Bool.not_eq_true] at hname
      refine .inr (mem_filter.mpr ⟨hmem, ?_⟩)
      rw [hstart, hname]
      rfl

theorem tracks_params : Grammar.Tracks ⟨dialect, source.displayName, tokens⟩ fun a _ b =>
    (∀ entry ∈ a.macros.entries, ∀ param ∈ entry.2.params, Grammar.isName param.1 = true) →
      ∀ entry ∈ b.macros.entries, ∀ param ∈ entry.2.params, Grammar.isName param.1 = true where
  refl _ h := h
  trans h h' ha := h' (h ha)
  statement _ _ h := h
  mark h := h
  block _ h ha := by
    rw [Scope.closeBlock, Scope.macros_leave]
    exact h ha
  inherit _ _ _ _ h := h
  useBlocks _ h := h
  defineMacro hparams _ h ha := by
    rw [Scope.closeMacro, Scope.macros_leave]
    exact Registry.forall_mem_insert (h ha) fun param hmem =>
      isName_of_names htokens (hparams param hmem).1
  addSymbol _ _ _ h := by
    rw [Scope.macros_addSymbol]
    exact h
  embed _ _ h := h

theorem admits_parameters {scope : Scope} (hscope : scope.Plain) :
    Grammar.Admits ⟨dialect, source.displayName, tokens⟩ Parse.AnyLine scope
      fun e => ∀ name ∈ e.parameters, Grammar.isName name = true where
  line _ := trivial
  ordinary {e} h _ := by
    obtain ⟨kind, line, topmost⟩ := e
    cases kind <;> first | exact forall_mem_nil _ | cases h
  test {_ _ e _ _} _ _ _ htest _ := by
    obtain ⟨kind, line, topmost⟩ := e
    cases kind <;> first | exact forall_mem_nil _ | cases htest
  parent _ _ _ := forall_mem_nil _
  arrow hnames _ name hname := isName_of_names htokens (hnames name hname)
  imported := by
    intro kind name symbol e hsymbol he
    obtain ⟨holder, line, rfl⟩ := hscope.symbol? hsymbol he
    exact forall_mem_singleton.mpr (forall_mem_nil _)

theorem describes_targets : Grammar.Describes
    (Grammar.Opens ⟨dialect, source.displayName, tokens⟩) ⟨dialect, source.displayName, tokens⟩
    Parse.AnyLine (fun e => ∃ name line, e = Expr.name name line)
    (fun stmt => ∀ name ∈ stmt.kind.targets, Grammar.isName name = true ∨ name ∈ dialect.phrases)
    fun _ => True where
  holder _ := ⟨_, _, rfl⟩
  statement {s s' stmt} _ hstmt _ := by
    have htargets : ∀ {s s' : Parse.State} {names : List String},
        Grammar.assignmentTargets ⟨dialect, source.displayName, tokens⟩ s = .ok names s' →
          ∀ name ∈ names, Grammar.isName name = true ∨ name ∈ dialect.phrases :=
      fun hnames name hname => isName_or_mem_phrases htokens
        ((Parse.Yields.of_ok (L := Parse.AnyLine) Grammar.yields_assignmentTargets hnames).2.2 name hname)
    cases hstmt with
    | loop opens names head expr inside last tail assigned =>
      exact fun name hname => htargets names name (assigned.subset hname)
    | single opens holds =>
      cases holds with
      | assign targets head exprs tail =>
        refine forall_mem_map.mpr fun target htarget => htargets targets target.1 ?_
        exact (of_mem_zip htarget).1
      | _ => exact forall_mem_nil _
    | around opens head inside =>
      cases head with
      | capture target => exact htargets target
      | _ => exact forall_mem_nil _
    | literal token =>
      obtain ⟨text, rfl | rfl | rfl⟩ := Grammar.literal?_eq_some token <;>
        exact forall_mem_nil _
    | _ => exact forall_mem_nil _
  print _ _ _ := forall_mem_nil _
  sandboxed _ := forall_mem_nil _
  expr _ _ := trivial
  defaults _ _ _ _ := trivial

end

/-- **The names of a parsed template**, as they stand in its tokens. -/
theorem named_parse {source : Source} {m : Template}
    (h : (Template.parse dialect source).result = .ok t) (hm : t.Module m) : m.Named dialect := by
  obtain ⟨tokens, -, -, htokens, -⟩ := Grammar.derives_parse h
  refine ⟨?_, ?_, ?_⟩
  · refine forall_mem_map.mpr ?_
    exact (satisfies_parse h fun _ => describes_targets).statements m hm
  · obtain ⟨parent, last, htracked, heq⟩ := made_module htokens h (tracks_params htokens) hm
    rw [heq]
    refine forall_mem_map.mpr fun entry hentry => forall_mem_map.mpr ?_
    exact htracked nofun entry hentry
  · exact forall_exprs_parse h (fun _ htokens _ => admits_parameters htokens) m hm

/-! ## Passes -/

theorem Stmt.targets_plain (stmt : Stmt) : stmt.plain.kind.targets = stmt.kind.targets := by
  obtain ⟨kind, line⟩ := stmt
  cases kind <;> rfl

theorem Template.named_plain : t.plain.Named dialect ↔ t.Named dialect := by
  have hparts : t.plain.parts.map (·.kind.targets) = t.parts.map (·.kind.targets) := by
    rw [parts_plain, map_map]
    exact map_congr_left fun stmt _ => stmt.targets_plain
  have hmacros : t.plain.macros.map (·.2.params.map Prod.fst) =
      t.macros.map (·.2.params.map Prod.fst) := by
    obtain ⟨body, blocks, macros, parent, setup⟩ := t
    rw [Template.plain, plainMacros_eq, map_map]
    rfl
  have hexprs : t.plain.exprs = t.exprs := by
    rw [exprs, exprs, roots_plain]
  exact ⟨fun h => ⟨hparts ▸ h.targets, hmacros ▸ h.params, hexprs ▸ h.parameters⟩,
    fun h => ⟨hparts ▸ h.targets, hmacros ▸ h.params, hexprs ▸ h.parameters⟩⟩

theorem Pass.names_assigned (q : Pass Unit) (list : List (String × Expr)) :
    (q.assigned list ()).1.map Prod.fst = list.map Prod.fst := by
  induction list with
  | nil => rfl
  | cons entry rest ih => exact congrArg (entry.1 :: ·) ih

theorem Pass.targets_onKind (q : Pass Unit) (kind : Stmt.Kind) :
    (q.onKind kind).targets = kind.targets := by
  cases kind with
  | assign targets => exact q.names_assigned targets
  | _ => rfl

theorem Stmt.Reworded.targets_eq {stmt stmt' : Stmt} (h : stmt.Reworded stmt') :
    stmt'.kind.targets = stmt.kind.targets := by
  cases h <;> rfl

theorem stable_parameters :
    Expr.Stable fun e => ∀ name ∈ e.parameters, Grammar.isName name = true where
  inside q {kind _ _} h := by
    cases kind <;> exact h
  marked _ h := h
  made _ _ _ hparameters _ := by
    rw [hparameters]
    exact forall_mem_nil _

theorem Pass.Rewords.named_onTemplate {q : Pass Unit} (hq : q.Rewords) (h : t.Named dialect) :
    (q.onTemplate t).Named dialect := by
  refine ⟨?_, ?_, (hq.stable stable_parameters).exprs_onTemplate hq.toLocal h.parameters⟩
  · rw [hq.parts_onTemplate, map_map]
    refine forall_mem_map.mpr fun stmt hstmt => ?_
    rw [Function.comp, onStmt, (hq.reworded _).targets_eq, targets_onKind]
    exact h.targets _ (mem_map_of_mem hstmt)
  · rw [hq.onTemplate_eq, macros_eq, map_map]
    refine forall_mem_map.mpr fun entry hentry => ?_
    rw [Function.comp, names_assigned]
    exact h.params _ (mem_map_of_mem hentry)

/-! ## Conversions -/

/-- **Which declared names are names of templates.** The text of a declaration holds each of its
names as a variable. A parameter of a macro or of an anonymous function is a name of templates. So is
a variable of a loop, of an assignment or of a capture, unless it is an operator that begins like a
name; of the keys of a scope nothing is known. -/
theorem isName_declared {dialect : Dialect} {source : Source} {t m : Template} {d : Declaration}
    {name : String} (h : (Template.parse dialect source).result = .ok t)
    (hm : (dialect.runStages t).Module m) (hd : m.Declared d) (hname : name ∈ d.names) :
    (∀ scope, (d.head scope).error = none → Latte.Declares (d.head scope).text name) ∧
      (d.isKeyed = false →
        (Grammar.isName name = true ↔ (d.isAssignment = true → name ∉ dialect.phrases))) := by
  have hnamed : m.Named dialect := Dialect.forall_module_runStages (fun _ => Template.named_plain)
    (fun _ hq _ => hq.named_onTemplate) (fun _ => named_parse h) m hm
  refine ⟨fun scope => Declaration.declares_head hname, fun hkeyed => ?_⟩
  constructor
  · intro hisName _ hphrase
    have hnot := (mem_filter.mp hphrase).2
    rw [hisName, Bool.not_true, Bool.and_false] at hnot
    cases hnot
  · intro hphrase
    rcases hnamed.of_declared hd hname hkeyed with hisName | ⟨hassignment, hmem⟩
    · exact hisName
    · exact absurd hmem (hphrase hassignment)

def namedAssignment : Source := ⟨"\x7b% set a = 1 %\x7d", "", none⟩

/-- The assigned variable is declared, and its name is one of templates. -/
theorem isName_declared_assignment :
    ∃ t d, (Template.parse Dialect.core namedAssignment).result = .ok t ∧
      (Dialect.core.runStages t).Declared d ∧ "a" ∈ d.names ∧ d.isKeyed = false ∧
      (∀ scope, (d.head scope).error = none → Latte.Declares (d.head scope).text "a") ∧
      Grammar.isName "a" = true := by
  have hparsed : (Template.parse Dialect.core namedAssignment).result.toOption.any
      (fun t => (Dialect.core.runStages t).parts.any fun stmt =>
        stmt.kind.declaration?.any fun d => d.names == ["a"] && !d.isKeyed) = true := by
    simp only [Dialect.runStages, Dialect.stages_eq, Template.parse, Dialect.tokenize,
      Lexer.tokenize, Pattern.orderSymbols_eq]
    decide +kernel
  obtain ⟨t, hresult, hstmt⟩ := eq_ok_of_any hparsed
  obtain ⟨stmt, hmem, hany⟩ := any_eq_true.mp hstmt
  obtain ⟨d, hd, htest⟩ := (Option.any_eq_true _ _).mp hany
  rw [Bool.and_eq_true, beq_iff_eq, Bool.not_eq_true'] at htest
  obtain ⟨hnames, hkeyed⟩ := htest
  have hname : "a" ∈ d.names := by
    rw [hnames]
    exact mem_singleton_self _
  have hdeclared : (Dialect.core.runStages t).Declared d := .statement hmem hd
  obtain ⟨htext, hiff⟩ := isName_declared hresult .self hdeclared hname
  have hplain : "a" ∉ Dialect.core.phrases := by decide +kernel
  exact ⟨t, d, hresult, hdeclared, hname, hkeyed, htext, (hiff hkeyed).mpr fun _ => hplain⟩

/-- An assignment to an operator. -/
def phraseAssignment : Source := ⟨"\x7b% set b-and = 1 %\x7d", "", none⟩

/-- A scope with a key of two words. -/
def phraseScope : Source :=
  ⟨"\x7b% with \x7b'a b': 1\x7d %\x7d\x7b% endwith %\x7d", "", none⟩

/-- Both are written as variables, and are no names. -/
theorem phrase_declared :
    (convert Dialect.core phraseAssignment).result =
      .ok ⟨"\x7bvar $b-and = 1\x7d", #[(1, 1)]⟩ ∧
    (convert Dialect.core phraseScope).result =
      .ok ⟨"\x7bblock\x7d\n\x7bvar $a b = 1\x7d\x7b/block\x7d", #[(1, 1)]⟩ ∧
    Grammar.isName "b-and" = false ∧ Grammar.isName "a b" = false := by
  simp only [convert, Template.convert, Dialect.runStages, Dialect.stages_eq, Template.parse,
    Dialect.tokenize, Lexer.tokenize, Pattern.orderSymbols_eq]
  decide +kernel

end TwigToLatte
