import TwigToLatte.Proofs.Latte.Fragments
import TwigToLatte.Proofs.Latte.Spelling
import TwigToLatte.Proofs.Pass.LoopMarks

/-!
# The iterator of a loop

The loop variable is written as the iterator of the loop around it. The pass that marks loops counts
all of a loop statement as the loop, while the variables of the loop are bound only in its body. So
they agree on the loop that a variable belongs to only where no sequence or alternative of another
loop comes between.

* `LoopFrame.taken` — a loop around assigns a variable with the name of the loop variable.
* `Position.Marked` — what the marks of the loops around a position say about its statements.
* `Reached.marked` — it holds at every position after the pass.
* `simplify_iterator_withLoop` — **a loop variable that is written as the iterator marks the
  innermost loop around it**, in whichever part of the loop it stands.
-/

namespace TwigToLatte

open List

/-- A loop assigns a variable with the name of the loop variable. -/
def LoopFrame.taken (frames : List LoopFrame) : Bool :=
  frames.any (·.targets.contains "loop")

/-! ## Statements inside statements -/

section

variable {taken : Bool} {stmts body : List Stmt} {kind : Stmt.Kind}

theorem Stmt.reads_subset {stmt : Stmt} (h : stmt ∈ stmts) : stmt.reads ⊆ bodyReads stmts := by
  rw [bodyReads_eq]
  exact fun x hx => mem_flatMap.mpr ⟨stmt, h, hx⟩

theorem Stmt.Kind.isLoop_of_mem_innerBodies (h : body ∈ kind.innerBodies) :
    kind.isLoop = false := by
  cases kind with
  | loop => cases h
  | _ => rfl

theorem Stmt.Kind.bodyReads_subset (h : body ∈ kind.innerBodies) : bodyReads body ⊆ kind.reads := by
  rw [← flatMap_reads]
  exact fun x hx => mem_flatMap.mpr ⟨_, body_mem_pieces h, hx⟩

variable {root : Expr} {t : Template}

theorem Piece.parts_subset {x : Piece} (h : root ∈ x.roots) : root.parts ⊆ x.reads := by
  cases x with
  | expr e =>
    cases mem_singleton.mp h
    exact List.Subset.refl _
  | named list =>
    obtain ⟨target, htarget, rfl⟩ := mem_map.mp h
    rw [reads, assignedReads_eq]
    exact fun x hx => mem_flatMap.mpr ⟨target, htarget, hx⟩
  | _ => cases h

theorem Stmt.Kind.parts_subset (h : root ∈ kind.roots) : root.parts ⊆ kind.reads := by
  rw [← flatMap_roots] at h
  obtain ⟨x, hx, hroot⟩ := mem_flatMap.mp h
  rw [← flatMap_reads]
  exact fun y hy => mem_flatMap.mpr ⟨x, hx, Piece.parts_subset hroot hy⟩

theorem Template.Marked.bodyMarked (hmarked : t.Marked taken) (h : body ∈ t.entries) :
    bodyMarked taken body :=
  t.marked_iff.mp hmarked _ (body_mem_pieces h)

theorem Template.Marked.blocksMarked (hmarked : t.Marked taken) : blocksMarked taken t.blocks := by
  cases t
  exact hmarked.2.1

end

/-! ## Positions after the pass -/

namespace Position

open LoopFrame

variable {root : Template} {scope : Latte.Scope} {p q : Position}

/-- The innermost loop has its mark if the statements read the loop variable, and so have the loops
in the statements and in the blocks of the template. -/
structure Marked (p : Position) : Prop where
  innermost : taken (p.inner ++ p.outer) = false →
    (∃ x ∈ bodyReads p.stmts, x.isName "loop" = true) →
      ∀ frame ∈ p.inner.head?, frame.withLoop = true
  stmts : bodyMarked (taken (p.inner ++ p.outer)) p.stmts
  blocks : blocksMarked (taken p.outer) p.template.blocks

/-- One step inwards. The frame of a loop takes the names that the loop statement takes. -/
theorem Marked.step (h : p.Marked) (hstep : p.Step q) : q.Marked := by
  have hstmts : ∀ stmt ∈ p.stmts, stmt.Marked (taken (p.inner ++ p.outer)) :=
    bodyMarked_iff.mp h.stmts
  cases hstep with
  | loopBody hmem =>
    obtain ⟨hmark, hbody, -⟩ := hstmts _ hmem
    refine ⟨fun htaken ⟨x, hx, hname⟩ => ?_, hbody, h.blocks⟩
    rintro _ ⟨⟩
    exact hmark htaken ⟨x, mem_append_left _ (mem_append_right _ hx), hname⟩
  | loopOtherwise hmem =>
    obtain ⟨hmark, -, hotherwise⟩ := hstmts _ hmem
    refine ⟨fun htaken ⟨x, hx, hname⟩ => ?_, hotherwise, h.blocks⟩
    rintro _ ⟨⟩
    exact hmark htaken ⟨x, mem_append_right _ hx, hname⟩
  | @inside kind line body hmem hbody =>
    have hloop := Stmt.Kind.isLoop_of_mem_innerBodies hbody
    have hkind : kind.Marked _ := Stmt.marked_eq hloop line _ ▸ hstmts _ hmem
    refine ⟨fun htaken ⟨x, hx, hname⟩ => h.innermost htaken ⟨x, ?_, hname⟩,
      kind.marked_iff.mp hkind _ (Stmt.Kind.body_mem_pieces hbody), h.blocks⟩
    refine Stmt.reads_subset hmem ?_
    rw [Stmt.reads_eq hloop]
    exact Stmt.Kind.bodyReads_subset hbody hx
  | block hmem hblock =>
    -- The pass walks a block beside the body of its template, not at its place: only the loops
    -- around the template count.
    exact ⟨fun _ _ _ hframe => (nomatch hframe),
      blocksMarked_iff.mp h.blocks _ (mem_of_lookup_eq_some hblock), h.blocks⟩
  | embedded hmem hentry =>
    have ht := hstmts _ hmem
    exact ⟨fun _ _ _ hframe => (nomatch hframe), Template.Marked.bodyMarked ht hentry,
      Template.Marked.blocksMarked ht⟩

theorem Reached.marked (h : Reached root scope p) (hroot : root.Marked false) : p.Marked := by
  induction h with
  | start hentry =>
    exact ⟨fun _ _ _ hframe => (nomatch hframe), hroot.bodyMarked hentry, hroot.blocksMarked⟩
  | step _ hstep ih => exact ih.step hstep

variable {frames : List LoopFrame} {x : Expr}

/-- Where the name of the loop variable is free, reading it marks the innermost loop around. -/
theorem Marked.withLoop (h : p.Marked) (hreads : p.Reads frames x) (hname : x.isName "loop" = true)
    (htaken : taken (frames ++ p.outer) = false) :
    ∀ frame ∈ frames.head?, frame.withLoop = true := by
  cases hreads with
  | statement hmem hloop hroot hx =>
    refine h.innermost htaken ⟨x, Stmt.reads_subset hmem ?_, hname⟩
    rw [Stmt.reads_eq hloop]
    exact Stmt.Kind.parts_subset hroot hx
  | sequence hmem hx =>
    obtain ⟨hmark, -⟩ := bodyMarked_iff.mp h.stmts _ hmem
    rintro _ ⟨⟩
    exact hmark htaken ⟨x, mem_append_left _ (mem_append_left _ hx), hname⟩

/-- The variables of a loop are bound where an expression stands in its body. -/
theorem Reached.bound_of_reads (h : Reached root scope p) (hreads : p.Reads frames x)
    {frame : LoopFrame} (hframe : frame ∈ frames ++ p.outer) (hbody : frame.part = .body) :
    frame.targets ⊆ p.scope.bound := by
  cases hreads with
  | statement => exact h.bound frame hframe hbody
  | sequence =>
    rcases mem_cons.mp hframe with rfl | hframe
    · cases hbody
    · exact h.bound frame hframe hbody

end Position

theorem exists_kind_of_isName {x : Expr} {name : String} (h : x.isName name = true) :
    ∃ defined, x.kind = .name name defined := by
  obtain ⟨kind, line, topmost⟩ := x
  cases kind with
  | name name defined =>
    cases eq_of_beq h
    exact ⟨defined, rfl⟩
  | _ => cases h

/-- The loop variable is written as the iterator where no loop binds its name. -/
theorem Latte.notMem_bound_of_iterator {scope : Scope} {x : Expr} (hname : x.isName "loop" = true)
    (h : expression scope x = ("$iterator" : String)) : "loop" ∉ scope.bound := by
  intro hbound
  obtain ⟨kind, line, topmost⟩ := x
  obtain ⟨defined, rfl⟩ := exists_kind_of_isName hname
  have htext : variableText scope.bound "loop" defined = "$iterator" := congrArg Rendered.text h
  rw [variableText.eq_def, specialName?_eq_none_iff.mpr (.inr hbound)] at htext
  cases defined with
  | false => exact absurd htext (by decide)
  | true => exact absurd htext (by decide)

/-- **A loop variable that is written as the iterator marks the innermost loop around it.** The name
must not be taken by a loop that holds it in its sequence or its alternative: such a loop does not
bind the name there, but keeps it from marking anything. The text in the scope of its position is
what a template that can be written has for the variable. -/
theorem simplify_iterator_withLoop (rawFilter : Bool) (t : Template) {scope : Latte.Scope}
    {p : Position} {frames : List LoopFrame} {x : Expr}
    (hp : Position.Reached ((simplify ⟨true, rawFilter⟩).run [] t).1 scope p)
    (hreads : p.Reads frames x) (hname : x.isName "loop" = true)
    (hiterator : Latte.expression p.scope x = ("$iterator" : String))
    (hfree : ∀ frame ∈ frames ++ p.outer, frame.part ≠ .body → "loop" ∉ frame.targets) :
    (∀ frame ∈ frames.head?, frame.withLoop = true) ∧
    ∀ {out after},
      Latte.template ((simplify ⟨true, rawFilter⟩).run [] t).1 scope out = .ok () after →
        ∀ stmt ∈ p.stmts, (∃ e ∈ stmt.kind.roots, x.Shows e) →
          p.Renders ((simplify ⟨true, rawFilter⟩).run [] t).1 scope stmt x := by
  obtain ⟨_, hkind⟩ := exists_kind_of_isName hname
  refine ⟨?_, fun hrun _ hstmt hshows => hp.renders hrun hstmt hkind hshows⟩
  have hbound := Latte.notMem_bound_of_iterator hname hiterator
  have htaken : LoopFrame.taken (frames ++ p.outer) = false := by
    rw [LoopFrame.taken, any_eq_false]
    intro frame hframe
    rw [contains_iff_mem]
    -- A body that assigns the name binds it, so that the variable would not be the iterator.
    by_cases hbody : frame.part = .body
    · exact fun hmem => hbound (hp.bound_of_reads hreads hframe hbody hmem)
    · exact hfree frame hframe hbody
  exact (hp.marked (marked_simplify rawFilter t)).withLoop hreads hname htaken

/-! ## Nested loops -/

/-- `{% for a in x %}{% for b in loop %}{% endfor %}{% endfor %}`, with the mark of the inner
loop. -/
def nestedSequence (innerMark : Bool) : Template :=
  ⟨[⟨.loop none "a" ⟨.name "x" false, 1, false⟩
      [⟨.loop none "b" ⟨.name "loop" false, 1, false⟩ [] none innerMark, 1⟩] none false, 1⟩],
    [], [], none, []⟩

/-- `{% for target in x %}{% else %}{% for b in y %}{{ loop }}{% endfor %}{% endfor %}`, with the
mark of the inner loop. -/
def nestedAlternative (target : String) (innerMark : Bool) : Template :=
  ⟨[⟨.loop none target ⟨.name "x" false, 1, false⟩ []
      (some [⟨.loop none "b" ⟨.name "y" false, 1, false⟩
        [⟨.print ⟨.name "loop" false, 1, false⟩, 1⟩] none innerMark, 1⟩]) false, 1⟩],
    [], [], none, []⟩

/-- The variable in a loop that stands in the alternative of another one marks that loop. -/
theorem simplify_iterator_withLoop_alternative :
    ∃ (p : Position) (frames : List LoopFrame) (F : LoopFrame),
      Position.Reached ((simplify {}).run [] (nestedAlternative "a" false)).1 ⟨{}, "", []⟩ p ∧
      p.Reads frames ⟨.name "loop" false, 1, false⟩ ∧
      Latte.expression p.scope ⟨.name "loop" false, 1, false⟩ = ("$iterator" : String) ∧
      (∀ frame ∈ frames ++ p.outer, frame.part ≠ .body → "loop" ∉ frame.targets) ∧
      frames.head? = some F ∧ F.withLoop = true ∧
      ∃ stmt ∈ p.stmts, p.Renders ((simplify {}).run [] (nestedAlternative "a" false)).1
        ⟨{}, "", []⟩ stmt ⟨.name "loop" false, 1, false⟩ := by
  have hrun : ((simplify {}).run [] (nestedAlternative "a" false)).1 = nestedAlternative "a" true :=
    rfl
  have hp : Position.Reached (nestedAlternative "a" true) ⟨{}, "", []⟩ _ :=
    .step (.step (.start mem_cons_self) (.loopOtherwise mem_cons_self))
      (.loopBody mem_cons_self)
  rw [← hrun] at hp
  have hfree : ∀ frame ∈ ([⟨.body, ["b"], true⟩, ⟨.otherwise, ["a"], false⟩] : List LoopFrame),
      frame.part ≠ .body → "loop" ∉ frame.targets := by decide
  have hmark := simplify_iterator_withLoop true _ hp
    (.statement mem_cons_self rfl mem_cons_self mem_cons_self) rfl rfl hfree
  have hwritten : Latte.template (nestedAlternative "a" true) ⟨{}, "", []⟩ {} = .ok () _ := rfl
  exact ⟨_, _, _, hp, .statement mem_cons_self rfl mem_cons_self mem_cons_self, rfl,
    hfree, rfl, hmark.1 _ rfl, _, mem_cons_self,
    hmark.2 (hrun ▸ hwritten) _ mem_cons_self ⟨_, mem_cons_self, .self⟩⟩

/-- Every loop variable that is written as the iterator marks the innermost loop that holds it in
its body, even if the sequence or the alternative of another loop comes between. -/
def Template.IteratorsMarked (root : Template) (scope : Latte.Scope) : Prop :=
  ∀ {p : Position} {frames : List LoopFrame} {x : Expr} {stmt : Stmt},
    Position.Reached root scope p → p.Reads frames x → x.isName "loop" = true →
      stmt ∈ p.stmts → p.Renders root scope stmt x →
        Latte.expression p.scope x = ("$iterator" : String) →
          ∀ frame ∈ frames.find? (·.part = .body), frame.withLoop = true

/-- It does not hold after the pass. The variable in the sequence of the inner loop marks that loop
and not the outer one, and an outer loop over a variable of that name keeps the variable in its
alternative from marking the loop around it. -/
theorem simplify_not_iteratorsMarked :
    let sequence := ((simplify {}).run [] (nestedSequence false)).1
    let alternative := ((simplify {}).run [] (nestedAlternative "loop" false)).1
    (¬ sequence.IteratorsMarked ⟨{}, "", []⟩ ∧ (Latte.render {} "" sequence).map Prod.fst =
      .ok ("\x7bforeach $x as $a\x7d\x7bforeach $iterator as $b\x7d\x7b/foreach\x7d" ++
        "\x7b/foreach\x7d")) ∧
    ¬ alternative.IteratorsMarked ⟨{}, "", []⟩ ∧ (Latte.render {} "" alternative).map Prod.fst =
      .ok ("\x7bforeach $x as $loop\x7d\x7belse\x7d\x7bforeach $y as $b\x7d\x7b$iterator\x7d" ++
        "\x7b/foreach\x7d\x7b/foreach\x7d") := by
  intro sequence alternative
  have hsequence : sequence = nestedSequence true := rfl
  have halternative : alternative = nestedAlternative "loop" false := rfl
  rw [hsequence, halternative]
  refine ⟨⟨?_, by decide +kernel⟩, ?_, by decide +kernel⟩
  · intro h
    have hp : Position.Reached (nestedSequence true) ⟨{}, "", []⟩ _ :=
      .step (.start mem_cons_self) (.loopBody mem_cons_self)
    have hwritten : Latte.template (nestedSequence true) ⟨{}, "", []⟩ {} = .ok () _ := rfl
    have hmark := h hp (.sequence mem_cons_self mem_cons_self) rfl mem_cons_self
      (hp.renders hwritten mem_cons_self rfl ⟨_, mem_cons_self, .self⟩) rfl _ rfl
    cases hmark
  · intro h
    have hp : Position.Reached (nestedAlternative "loop" false) ⟨{}, "", []⟩ _ :=
      .step (.step (.start mem_cons_self) (.loopOtherwise mem_cons_self))
        (.loopBody mem_cons_self)
    have hwritten : Latte.template (nestedAlternative "loop" false) ⟨{}, "", []⟩ {} = .ok () _ :=
      rfl
    have hmark := h hp (.statement mem_cons_self rfl mem_cons_self mem_cons_self)
      rfl mem_cons_self (hp.renders hwritten mem_cons_self rfl ⟨_, mem_cons_self, .self⟩) rfl _ rfl
    cases hmark

end TwigToLatte
