import TwigToLatte.Dialect.Core
import TwigToLatte.Proofs.Latte.Blocks
import TwigToLatte.Proofs.Pass.Steps
import TwigToLatte.Proofs.Template.ParentCalls

/-!
# Calls of `parent` where they are written

The body of a block is written in its place, and the bodies of macros are written after the
template. So a call of `parent` is written in the block that it is made from, unless a macro holds
it.

* `Pass.Rewords.callsInside_onTemplate` — the passes of a conversion make no calls and move none.
* `Script.begun` — the statements that a script writes, each with the block in which it does.
* `Script.mem_region_of_begun` — **in the place of a block only statements of its body are written,
  and outside of all blocks only those of the template and of its macros**.
* `calls_parse` — where the calls of a parsed template stand, and where they are written.
* `calls_elsewhere` — what takes them out of their blocks.
-/

namespace TwigToLatte

open List

/-! ## Passes -/

theorem parentCalls_subset {parts more : List Stmt} (h : parts ⊆ more) :
    parentCalls parts ⊆ parentCalls more := by
  intro called hcalled
  obtain ⟨stmt, hstmt, hroot⟩ := mem_parentCalls.mp hcalled
  exact mem_parentCalls.mpr ⟨stmt, h hstmt, hroot⟩

theorem stable_called (S : List String) :
    Expr.Stable fun e => ∀ called, e.calledParent? = some called → called ∈ S where
  inside q kind line topmost h called hcalled := by
    cases kind with
    | parent => exact h called hcalled
    | _ => cases hcalled
  marked _ h := h
  made h _ _ _ hmade called hcalled := by
    rcases hmade with hnone | hsame
    · rw [hnone] at hcalled
      cases hcalled
    · exact h called (hsame ▸ hcalled)

variable {q : Pass Unit} {t : Template} {stmt : Stmt}

theorem Pass.Rewords.parentCalls_onStmt (hq : q.Rewords) (parts : List Stmt) :
    parentCalls (parts.map q.onStmt) ⊆ parentCalls parts := by
  -- The pass keeps that whatever an expression calls is called by one of the statements.
  have hkeeps := hq.stable (stable_called (parentCalls parts))
  have hroots : ∀ stmt ∈ parts, ∀ e ∈ stmt.kind.roots,
      e.All fun x => ∀ called, x.calledParent? = some called → called ∈ parentCalls parts :=
    fun stmt hstmt e he x hx called hcalled =>
      mem_parentCalls.mpr ⟨stmt, hstmt, e, he, mem_filterMap.mpr ⟨x, hx, hcalled⟩⟩
  intro called hcalled
  obtain ⟨_, hstmt, e, he, hcalled⟩ := mem_parentCalls.mp hcalled
  obtain ⟨stmt, hmem, rfl⟩ := mem_map.mp hstmt
  obtain ⟨x, hx, hcalled⟩ := mem_filterMap.mp hcalled
  refine hkeeps.stmtStep ?_ e he x hx called hcalled
  rw [roots_onKind]
  exact forall_mem_map.mpr fun e he => hkeeps.onExpr e (hroots stmt hmem e he)

theorem Pass.Rewords.callsInside_onTemplate (hq : q.Rewords) (h : t.CallsInside) :
    (q.onTemplate t).CallsInside := by
  rw [hq.onTemplate_eq]
  refine ⟨?_, ?_, ?_⟩
  · rw [hq.bodyParts_onBody]
    exact subset_nil.mp (h.body ▸ hq.parentCalls_onStmt _)
  · rw [blocks_eq]
    refine forall_mem_map.mpr fun entry hentry called hcalled => ?_
    rw [hq.bodyParts_onBody] at hcalled
    exact h.blocks entry hentry called (hq.parentCalls_onStmt _ hcalled)
  · rw [hq.macroParts_onMacros]
    exact subset_nil.mp (h.macros ▸ hq.parentCalls_onStmt _)

theorem parentCalls_plain (parts : List Stmt) :
    parentCalls (parts.map Stmt.plain) = parentCalls parts := by
  rw [parentCalls, flatMap_map]
  simp only [Stmt.roots_plain]
  rfl

theorem callsInside_plain : t.plain.CallsInside ↔ t.CallsInside := by
  obtain ⟨body, blocks, macros, parent, setup⟩ := t
  have hbody : parentCalls (bodyParts (plainBody body)) = parentCalls (bodyParts body) := by
    rw [parts_plainBody, parentCalls_plain]
  have hblocks : (∀ entry ∈ plainBlocks blocks, ∀ called ∈ parentCalls (bodyParts entry.2.body),
      called = entry.1) ↔
      ∀ entry ∈ blocks, ∀ called ∈ parentCalls (bodyParts entry.2.body), called = entry.1 := by
    rw [plainBlocks_eq, forall_mem_map]
    simp only [parts_plainBody, parentCalls_plain]
  have hmacros : parentCalls (macroParts (plainMacros macros)) = parentCalls (macroParts macros) := by
    rw [plainMacros_eq, macroParts, flatMap_map, ← parentCalls_plain (macroParts macros),
      macroParts, map_flatMap]
    simp only [parts_plainBody]
  exact ⟨fun h => ⟨hbody ▸ h.body, hblocks.mp h.blocks, hmacros ▸ h.macros⟩,
    fun h => ⟨hbody.trans h.body, hblocks.mpr h.blocks, hmacros.trans h.macros⟩⟩

/-! ## Statements where they are written -/

namespace Template

/-- The statements that are written in the place of a block, without those in the places of other
blocks. -/
def region (t : Template) : Option String → List Stmt
  | none => bodyParts t.body ++ macroParts t.macros
  | some name => ((t.blocks.lookup name).map fun block => bodyParts block.body).getD []

variable {t : Template}

theorem CallsInside.region (h : t.CallsInside) (around : Option String) :
    ∀ called ∈ parentCalls (t.region around), around = some called := by
  cases around with
  | none =>
    rw [Template.region, parentCalls_append, h.body, h.macros]
    exact forall_mem_nil _
  | some name =>
    cases hlookup : t.blocks.lookup name with
    | none =>
      rw [Template.region, hlookup]
      exact forall_mem_nil _
    | some block =>
      rw [Template.region, hlookup]
      exact fun called hcalled =>
        congrArg some (h.blocks _ (mem_of_lookup_eq_some hlookup) called hcalled).symm

end Template

namespace Latte.Script

variable {block : BlockScript} {parts : List Stmt} {script : Script} {stack : List String}
  {entry : Option String × Stmt}

/-- The statements that begin in a script, each with the block in which it does. The blocks that are
open are given, innermost first; embedded templates do not count. -/
def begun : Script → List String → List (Option String × Stmt)
  | [], _ => []
  | .block name :: rest, stack => begun rest (name :: stack)
  | .endBlock :: rest, stack => begun rest stack.tail
  | .start (some kind) line :: rest, stack => (stack.head?, ⟨kind, line⟩) :: begun rest stack
  | _ :: rest, stack => begun rest stack

/-- Every block that the script begins ends in it. -/
def Balanced (script : Script) : Prop :=
  ∀ more stack, begun (script ++ more) stack = begun script stack ++ begun more stack

theorem begun_inner (script more : Script) (stack : List String) :
    begun (script.map .inner ++ more) stack = begun more stack := by
  induction script with
  | nil => rfl
  | cons event rest ih => exact ih

theorem Woven.balanced (h : Woven OfText block parts script)
    (hblock : ∀ name line scope, Balanced (block name line scope)) : Balanced script := by
  induction h with
  | nil => exact fun _ _ => rfl
  | event plain _ ih => cases plain <;> exact ih
  | start mem _ ih => exact fun more stack => congrArg (_ :: ·) (ih more stack)
  | skip _ _ _ ih => exact ih
  | place _ _ scope _ ih =>
    intro more stack
    rw [append_assoc, hblock, hblock, ih, append_assoc]
  | embed _ _ scope _ ih =>
    intro more stack
    rw [append_assoc, begun_inner, begun_inner, ih]

/-- A statement begins where it is woven in, or in the place of a block. -/
theorem Woven.mem_begun (h : Woven OfText block parts script)
    (hblock : ∀ name line scope, Balanced (block name line scope))
    (hentry : entry ∈ begun script stack) :
    (entry.1 = stack.head? ∧ entry.2 ∈ parts) ∨
      ∃ name line scope, entry ∈ begun (block name line scope) stack := by
  induction h with
  | nil => cases hentry
  | event plain _ ih => cases plain <;> exact ih hentry
  | start mem _ ih =>
    rcases mem_cons.mp hentry with rfl | hentry
    · exact .inl ⟨rfl, mem⟩
    · exact ih hentry
  | skip _ _ _ ih => exact (ih hentry).imp_left fun h => ⟨h.1, mem_cons_of_mem _ h.2⟩
  | place _ _ scope _ ih =>
    rw [hblock, mem_append] at hentry
    rcases hentry with hentry | hentry
    · exact .inr ⟨_, _, _, hentry⟩
    · exact (ih hentry).imp_left fun h => ⟨h.1, mem_cons_of_mem _ h.2⟩
  | embed _ _ scope _ ih =>
    rw [begun_inner] at hentry
    exact (ih hentry).imp_left fun h => ⟨h.1, mem_cons_of_mem _ h.2⟩

variable {t : Template}

theorem balanced_blocks (t : Template) (depth : Nat) (name : String) (line : Nat) (scope : Scope) :
    Balanced (blocks (blockBodies t.blocks) depth name line scope) := by
  induction depth generalizing name line scope with
  | zero => exact fun _ _ => rfl
  | succ depth ih =>
    rw [blocks_succ]
    cases t.blocks.lookup name with
    | none => exact fun _ _ => rfl
    | some found =>
      intro more stack
      have hbody := (woven_statements (blocks (blockBodies t.blocks) depth) found.body scope
        (rootsExcused_ofText _)).balanced ih
      show begun (_ ++ [.endBlock] ++ more) (name :: stack) =
        begun (_ ++ [.endBlock]) (name :: stack) ++ begun more stack
      rw [append_assoc, hbody, hbody, append_assoc]
      rfl

theorem mem_region_of_begun_blocks {depth : Nat} {name : String} {line : Nat} {scope : Scope}
    (h : entry ∈ begun (blocks (blockBodies t.blocks) depth name line scope) stack) :
    entry.2 ∈ t.region entry.1 := by
  induction depth generalizing name line scope stack with
  | zero => cases h
  | succ depth ih =>
    rw [blocks_succ] at h
    cases hlookup : t.blocks.lookup name with
    | none =>
      rw [hlookup] at h
      cases h
    | some found =>
      rw [hlookup] at h
      have hwoven := woven_statements (blocks (blockBodies t.blocks) depth) found.body scope
        (rootsExcused_ofText _)
      have hbody : entry ∈ begun (statements found.body _ scope ++ [.endBlock]) (name :: stack) := h
      rw [hwoven.balanced (balanced_blocks t depth), mem_append] at hbody
      rcases hwoven.mem_begun (balanced_blocks t depth) (hbody.resolve_right not_mem_nil) with
        ⟨haround, hstmt⟩ | ⟨_, _, _, hinner⟩
      · rw [haround, head?_cons, Template.region, hlookup]
        exact hstmt
      · exact ih hinner

/-- **In the place of a block only statements of its body are written**, and outside of all blocks only
those of the template and of its macros. -/
theorem mem_region_of_begun {scope : Scope} (h : entry ∈ (template t scope).begun []) :
    entry.2 ∈ t.region entry.1 := by
  rcases (woven_ofText t scope).mem_begun (balanced_blocks t _) h with
    ⟨haround, hstmt⟩ | ⟨_, _, _, hinner⟩
  · rw [haround]
    exact hstmt
  · exact mem_region_of_begun_blocks hinner

end Latte.Script

/-! ## Conversions -/

open Latte (Script)

/-- **Calls of `parent` stand in the block that they are made from**, unless a macro holds them or they
name the template that is embedded. A template that calls `parent` has a parent or a `use` statement,
unless a macro is defined twice. If no macro holds calls, then a statement that calls `parent` begins
in the script of a converted template only while the block that it is made from is the innermost one
that is open. -/
theorem calls_parse {dialect : Dialect} {source : Source} {t : Template} {tokens : Array Token}
    (htokens : Lexer.tokenize source.text dialect.operatorSymbols = .ok tokens)
    (h : (Template.parse dialect source).result = .ok t) :
    (t.CallsEnclosed ↔ parentCalls (macroParts t.macros) = []) ∧
    (∀ m, t.Module m → (m.CallsEnclosed ↔
      parentCalls (macroParts m.macros) = [] ∧ ∀ e ∈ m.parent.toList, e.parentCalls = [])) ∧
    (dialect.Keyed → (macroDefinitions tokens).Nodup → ∀ m, t.Module m → m.CallsSanctioned) ∧
    ((∀ m, t.Module m → parentCalls (macroParts m.macros) = []) →
      ∀ m scope, (dialect.runStages t).Module m →
        (Script.template m scope).run = Latte.template m scope ∧
        ∀ around stmt, (around, stmt) ∈ (Script.template m scope).begun [] →
          ∀ called ∈ parentCalls [stmt], around = some called) := by
  refine ⟨callsEnclosed_iff htokens h, fun m hm => callsEnclosed_iff_of_module htokens h hm,
    fun hkeyed hnodup m hm => callsSanctioned_of_module htokens h hkeyed hnodup hm, ?_⟩
  intro hmacros m scope hm
  have hinside : ∀ m, (dialect.runStages t).Module m → m.CallsInside :=
    Dialect.forall_module_runStages (fun _ => callsInside_plain)
      (fun _ hq _ => hq.callsInside_onTemplate)
      fun m hm => callsInside_of_module htokens h hm (hmacros m hm)
  refine ⟨Script.run_template m scope, fun around stmt hbegun called hcalled => ?_⟩
  have hregion : [stmt] ⊆ m.region around :=
    cons_subset.mpr ⟨Script.mem_region_of_begun hbegun, nil_subset _⟩
  exact (hinside m hm).region around called (parentCalls_subset hregion hcalled)

/-- A template with a parent and a block, with a text in the block. -/
def inBlock (text : String) : Source :=
  ⟨"\x7b% extends 'a' %\x7d\x7b% block b %\x7d" ++ text ++ "\x7b% endblock %\x7d", "", none⟩

/-- A call in a block that also defines a macro is written in the block. -/
theorem calls_parse_block :
    let dialect : Dialect := { tags := Dialect.core.tags }
    let source := inBlock "\x7b\x7b parent() \x7d\x7d\x7b% macro m() %\x7dx\x7b% endmacro %\x7d"
    ∃ t tokens, Lexer.tokenize source.text dialect.operatorSymbols = .ok tokens ∧
      (Template.parse dialect source).result = .ok t ∧ t.CallsEnclosed ∧ t.CallsSanctioned ∧
      ∃ stmt, "b" ∈ parentCalls [stmt] ∧
        (some "b", stmt) ∈ (Script.template (dialect.runStages t) ⟨{}, "", []⟩).begun [] := by
  intro dialect source
  have htokenize : (Lexer.tokenize source.text dialect.operatorSymbols).toOption.any
      (fun tokens => decide (macroDefinitions tokens).Nodup) = true := by
    decide +kernel
  have hparse : (Template.parse dialect source).result.toOption.any (fun t =>
      decide (parentCalls (macroParts t.macros) = [] ∧ t.parts.filterMap Stmt.embedded? = []) &&
        ((Script.template (dialect.runStages t) ⟨{}, "", []⟩).begun []).any fun entry =>
          decide ("b" ∈ parentCalls [entry.2])) = true := by
    simp only [Dialect.runStages, Dialect.stages_eq]
    decide +kernel
  obtain ⟨tokens, htokens, hnodup⟩ := eq_ok_of_any htokenize
  obtain ⟨t, hresult, hfacts⟩ := eq_ok_of_any hparse
  obtain ⟨hfacts, hbegun⟩ := Bool.and_eq_true_iff.mp hfacts
  obtain ⟨hmacros, hembedded⟩ := of_decide_eq_true hfacts
  obtain ⟨⟨around, stmt⟩, hentry, hcalled⟩ := any_eq_true.mp hbegun
  obtain ⟨henclosed, -, hsanctioned, hwritten⟩ := calls_parse htokens hresult
  have hmodules : ∀ m, t.Module m → parentCalls (macroParts m.macros) = [] := by
    intro m hm
    rcases hm.eq_or_embedded with rfl | ⟨stmt, hstmt, inner, hinner, -⟩
    · exact hmacros
    · have hmem := mem_filterMap.mpr ⟨stmt, hstmt, hinner⟩
      rw [hembedded] at hmem
      cases hmem
  have hcalled := of_decide_eq_true hcalled
  cases (hwritten hmodules _ ⟨{}, "", []⟩ .self).2 around stmt hentry "b" hcalled
  exact ⟨t, tokens, htokens, hresult, henclosed.mpr hmacros,
    hsanctioned (Dialect.keyed_of_tags_eq rfl) (of_decide_eq_true hnodup) t .self, stmt, hcalled,
    hentry⟩

/-- A macro that is defined in a block takes the calls in it elsewhere, an embedded template may be
named by a call, and the only `use` statement is lost with a macro that is replaced. -/
theorem calls_elsewhere :
    let dialect : Dialect := { tags := Dialect.core.tags }
    let call := "\x7b\x7b parent() \x7d\x7d"
    (∃ t, (Template.parse dialect
        (inBlock ("\x7b% macro m() %\x7d" ++ call ++ "\x7b% endmacro %\x7d"))).result = .ok t ∧
      ¬ t.CallsEnclosed ∧ ∃ stmt, "b" ∈ parentCalls [stmt] ∧
        (none, stmt) ∈ (Script.template (dialect.runStages t) ⟨{}, "", []⟩).begun []) ∧
    (∃ t m, (Template.parse dialect
        (inBlock "\x7b% embed parent() %\x7d\x7b% endembed %\x7d")).result = .ok t ∧
      t.Module m ∧ parentCalls (macroParts m.macros) = [] ∧ ¬ m.CallsEnclosed) ∧
    ∃ t, (Template.parse dialect ⟨"\x7b% macro m() %\x7d\x7b% use 'x' %\x7d\x7b% endmacro %\x7d" ++
        "\x7b% macro m() %\x7d\x7b% endmacro %\x7d\x7b% block b %\x7d" ++ call ++
          "\x7b% endblock %\x7d", "", none⟩).result = .ok t ∧ ¬ t.CallsSanctioned := by
  intro dialect call
  have hmacro : (Template.parse dialect
      (inBlock ("\x7b% macro m() %\x7d" ++ call ++ "\x7b% endmacro %\x7d"))).result.toOption.any
        (fun t => decide ("b" ∈ parentCalls (macroParts t.macros)) &&
          ((Script.template (dialect.runStages t) ⟨{}, "", []⟩).begun []).any fun entry =>
            decide (entry.1 = none ∧ "b" ∈ parentCalls [entry.2])) = true := by
    simp only [Dialect.runStages, Dialect.stages_eq]
    decide +kernel
  have hembed : (Template.parse dialect
      (inBlock "\x7b% embed parent() %\x7d\x7b% endembed %\x7d")).result.toOption.any
        (fun t => (t.parts.filterMap Stmt.embedded?).any fun m =>
          decide (parentCalls (macroParts m.macros) = [] ∧
            "b" ∈ m.parent.elim [] Expr.parentCalls)) = true := by
    decide +kernel
  have huse : (Template.parse dialect
      ⟨"\x7b% macro m() %\x7d\x7b% use 'x' %\x7d\x7b% endmacro %\x7d" ++
        "\x7b% macro m() %\x7d\x7b% endmacro %\x7d\x7b% block b %\x7d" ++ call ++
          "\x7b% endblock %\x7d", "", none⟩).result.toOption.any
        (fun t => decide (t.exprs.any (·.calledParent?.isSome) = true ∧ t.parent.isSome = false ∧
          t.parts.any Stmt.isUse = false)) = true := by
    decide +kernel
  refine ⟨?_, ?_, ?_⟩
  · obtain ⟨t, hresult, hfacts⟩ := eq_ok_of_any hmacro
    obtain ⟨hcalled, hwritten⟩ := Bool.and_eq_true_iff.mp hfacts
    obtain ⟨⟨around, stmt⟩, hentry, hfacts⟩ := any_eq_true.mp hwritten
    obtain ⟨rfl, hstmt⟩ := of_decide_eq_true hfacts
    refine ⟨t, hresult, fun henclosed => ?_, stmt, hstmt, hentry⟩
    have hmem := of_decide_eq_true hcalled
    rw [henclosed.macros] at hmem
    cases hmem
  · obtain ⟨t, hresult, hfacts⟩ := eq_ok_of_any hembed
    obtain ⟨m, hm, hfacts⟩ := any_eq_true.mp hfacts
    obtain ⟨stmt, hstmt, hembedded⟩ := mem_filterMap.mp hm
    obtain ⟨hmacros, hparent⟩ := of_decide_eq_true hfacts
    refine ⟨t, m, hresult, .embedded .self hstmt hembedded, hmacros, fun henclosed => ?_⟩
    cases hname : m.parent with
    | none =>
      rw [hname] at hparent
      cases hparent
    | some e =>
      rw [hname] at hparent
      have hnone := henclosed.parent e (Option.mem_toList.mpr hname)
      rw [Option.elim, hnone] at hparent
      cases hparent
  · obtain ⟨t, hresult, hfacts⟩ := eq_ok_of_any huse
    obtain ⟨hcalled, hparent, hused⟩ := of_decide_eq_true hfacts
    refine ⟨t, hresult, fun hsanctioned => ?_⟩
    rcases hsanctioned (any_eq_true.mp hcalled) with hsome | hstmt
    · rw [hparent] at hsome
      cases hsome
    · rw [any_eq_true.mpr hstmt] at hused
      cases hused

end TwigToLatte
