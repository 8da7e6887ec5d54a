import TwigToLatte.Proofs.Pass.Stateless

/-!
# Templates in Latte's idiom

* `Expr.Idiomatic`, `Stmt.Idiomatic` — what the idioms of Latte rule out: filters that Latte does
  not need or writes as functions, hashes of CSS classes, and printed statements.
* `Expr.idiom_eq_self` — an idiomatic expression is not changed any more.
* `establishes_latteIdioms` — one step makes an expression with idiomatic parts idiomatic.
* `latteIdioms_normal_form` — **the idioms of Latte lead to a normal form, and a second pass over
  it changes nothing**.
-/

namespace TwigToLatte

open List

/-- The filters that Latte does not need or writes as functions. -/
def replacedFilters : List String :=
  ["escape", "e", "reduce", "merge", "map", "filter", "column", "keys", "json_encode"]

/-- The expression is no filter that Latte writes in another way, and no list of CSS classes with
a hash in it. -/
structure Expr.Idiomatic (e : Expr) : Prop where
  filter : ∀ operand name list, e.kind = .filter operand name list → name ∉ replacedFilters
  classes : ∀ kind list defined, e.kind = .function "html_classes" kind list defined →
    ∀ argument ∈ list, ∀ items, argument.value.kind ≠ .array items

/-- The statement prints neither an inclusion nor a macro call. -/
structure Stmt.Idiomatic (stmt : Stmt) : Prop where
  inclusion : ∀ e name list defined, stmt.kind = .print e →
    e.kind ≠ .function name .inclusion list defined
  macroCall : ∀ e object method list defined, stmt.kind = .print e →
    e.kind ≠ .macroCall object method list defined

/-! ## Expressions -/

theorem notMem_replacedFilters_iff (name : String) :
    name ∉ replacedFilters ↔ isEscape name = false ∧ filterFunctions.lookup name = none := by
  simp only [replacedFilters, isEscape, filterFunctions, lookup_eq_none_iff, mem_cons,
    not_mem_nil, or_false, not_or, Bool.or_eq_false_iff, beq_eq_false_iff_ne, bne_iff_ne,
    forall_eq_or_imp, forall_eq, and_assoc, ne_eq]

theorem ne_of_lookup_filterFunctions {name function : String}
    (h : filterFunctions.lookup name = some function) : function ≠ "html_classes" := by
  have hmem := mem_of_lookup_eq_some h
  rintro rfl
  simp [filterFunctions] at hmem

variable {list : List (Argument Expr)} {e : Expr}

theorem flatMap_expandClasses (h : ∀ argument ∈ list, ∀ items, argument.value.kind ≠ .array items) :
    list.flatMap expandClasses = list := by
  induction list with
  | nil => rfl
  | cons argument rest ih =>
    rw [forall_mem_cons] at h
    have hhead : expandClasses argument = [argument] := by
      unfold expandClasses
      split
      · rename_i items line topmost hvalue
        exact absurd (by rw [hvalue]) (h.1 items)
      · rfl
    rw [flatMap_cons, hhead, ih h.2, singleton_append]

theorem Expr.idiom_eq_self (h : e.Idiomatic) : e.idiom = e := by
  obtain ⟨kind, line, topmost⟩ := e
  unfold idiom
  split
  · rename_i operand name list hkind
    obtain ⟨hescape, hlookup⟩ := (notMem_replacedFilters_iff name).mp (h.filter _ _ _ hkind)
    rw [hescape, hlookup]
    rfl
  · rename_i fkind list defined hkind
    cases hkind
    rw [flatMap_expandClasses (h.classes _ _ _ rfl)]
  · rfl

/-- The expression is idiomatic whatever its parts are. -/
theorem Expr.Idiomatic.of_kind (hfilter : ∀ operand name list, e.kind ≠ .filter operand name list)
    (hclasses : ∀ kind list defined, e.kind ≠ .function "html_classes" kind list defined) :
    e.Idiomatic :=
  ⟨fun operand name list h => absurd h (hfilter operand name list),
    fun kind list defined h => absurd h (hclasses kind list defined)⟩

/-- The parts of the function call that a filter becomes are those of the filter. -/
theorem mem_argumentParts_functionArguments {filter : String} {operand x : Expr}
    (h : x ∈ argumentParts (functionArguments filter operand list)) :
    x ∈ operand.parts ++ argumentParts list := by
  rw [argumentParts_eq, mem_flatMap] at h
  obtain ⟨argument, hmem, hx⟩ := h
  have hmem' : argument ∈ Argument.positional operand :: list := by
    unfold functionArguments at hmem
    split at hmem
    · exact mem_reverse.mp hmem
    · exact hmem
  rw [mem_append, argumentParts_eq, mem_flatMap]
  rcases mem_cons.mp hmem' with rfl | hlist
  · exact .inl hx
  · exact .inr ⟨argument, hlist, hx⟩

/-- Of a hash of CSS classes only conditions and their parts are left. -/
theorem idiomatic_of_mem_expandClasses {argument argument' : Argument Expr}
    (h : ∀ x ∈ argument.value.parts, x.Idiomatic) (hmem : argument' ∈ expandClasses argument) :
    (∀ x ∈ argument'.value.parts, x.Idiomatic) ∧
      ∀ items, argument'.value.kind ≠ .array items := by
  unfold expandClasses at hmem
  split at hmem
  · rename_i items line topmost hvalue
    obtain ⟨⟨key, value⟩, hitem, rfl⟩ := mem_map.mp hmem
    rw [hvalue, Expr.parts, forall_mem_cons] at h
    have hparts : ∀ x ∈ key.parts ++ value.parts, x.Idiomatic := by
      intro x hx
      refine h.2 x ?_
      rw [Expr.Kind.parts, itemParts_eq]
      exact mem_flatMap.mpr ⟨_, hitem, hx⟩
    obtain ⟨hkey, hvalue⟩ := forall_mem_append.mp hparts
    refine ⟨forall_mem_cons.mpr ⟨.of_kind ?_ ?_, ?_⟩, fun _ h => by cases h⟩
    · intro _ _ _ h
      cases h
    · intro _ _ _ h
      cases h
    refine forall_mem_append.mpr ⟨forall_mem_append.mpr ⟨hvalue, hkey⟩, ?_⟩
    refine forall_mem_singleton.mpr (.of_kind ?_ ?_)
    · intro _ _ _ h
      cases h
    · intro _ _ _ h
      cases h
  · rename_i hvalue
    rw [mem_singleton.mp hmem]
    refine ⟨h, fun items hkind => ?_⟩
    obtain ⟨name, kind, line, topmost⟩ := argument
    cases hkind
    exact hvalue items line topmost rfl

theorem establishes_latteIdioms : latteIdioms.Establishes Expr.Idiomatic := by
  intro e hparts
  show ∀ x ∈ e.idiom.parts, x.Idiomatic
  obtain ⟨kind, line, topmost⟩ := e
  unfold Expr.idiom
  split
  · rename_i operand name list hkind
    cases hkind
    have hoperand := (forall_mem_append.mp hparts).1
    split
    · exact hoperand
    · rename_i hescape
      split
      · rename_i function hlookup
        refine forall_mem_cons.mpr ⟨.of_kind ?_ ?_, fun x hx => ?_⟩
        · intro _ _ _ h
          cases h
        · intro _ _ _ h
          cases h
          exact ne_of_lookup_filterFunctions hlookup rfl
        · exact hparts x (mem_argumentParts_functionArguments hx)
      · rename_i hlookup
        refine forall_mem_cons.mpr ⟨⟨?_, fun _ _ _ h => by cases h⟩, hparts⟩
        intro _ _ _ h
        cases h
        exact (notMem_replacedFilters_iff name).mpr ⟨Bool.eq_false_iff.mpr hescape, hlookup⟩
  · rename_i fkind list defined hkind
    cases hkind
    have hargs : ∀ argument ∈ list, ∀ x ∈ argument.value.parts, x.Idiomatic := by
      intro argument hmem x hx
      refine hparts x ?_
      rw [Expr.Kind.parts, argumentParts_eq]
      exact mem_flatMap.mpr ⟨argument, hmem, hx⟩
    have hexpanded : ∀ argument ∈ list.flatMap expandClasses,
        (∀ x ∈ argument.value.parts, x.Idiomatic) ∧
          ∀ items, argument.value.kind ≠ .array items := by
      intro argument hmem
      obtain ⟨argument₀, hmem₀, hmem⟩ := mem_flatMap.mp hmem
      exact idiomatic_of_mem_expandClasses (hargs argument₀ hmem₀) hmem
    refine forall_mem_cons.mpr ⟨⟨?_, ?_⟩, fun x hx => ?_⟩
    · intro _ _ _ h
      cases h
    · intro _ _ _ h argument hmem
      cases h
      exact (hexpanded argument hmem).2
    · rw [Expr.Kind.parts, argumentParts_eq] at hx
      obtain ⟨argument, hmem, hx⟩ := mem_flatMap.mp hx
      exact (hexpanded argument hmem).1 x hx
  · rename_i hfilter hclasses
    exact forall_mem_cons.mpr ⟨.of_kind hfilter hclasses, hparts⟩

/-! ## Statements -/

theorem Stmt.reworded_idiom (stmt : Stmt) : stmt.Reworded stmt.idiom := by
  obtain ⟨kind, line⟩ := stmt
  unfold idiom
  split
  · rename_i hkind
    cases hkind
    dsimp only
    split
    · exact .output _ _ line
    · exact .print _ _ line
  · exact .same _

theorem local_latteIdioms : latteIdioms.Local where
  keeps _ := rfl
  alike stmt := stmt.reworded_idiom.alike
  leaveTemplate _ := rfl

/-- A statement after its step is idiomatic, and a further step leaves it as it is. -/
theorem Stmt.idiomatic_idiom (stmt : Stmt) :
    stmt.idiom.Idiomatic ∧ stmt.idiom.idiom = stmt.idiom := by
  obtain ⟨kind, line⟩ := stmt
  by_cases hprint : ∃ e, kind = .print e
  · obtain ⟨e, rfl⟩ := hprint
    obtain ⟨kind, eline, topmost⟩ := e
    by_cases hstatement : Expr.isStatement ⟨kind, eline, true⟩
    · have hidiom : Stmt.idiom ⟨.print ⟨kind, eline, topmost⟩, line⟩ =
          ⟨.output ⟨kind, eline, true⟩, line⟩ := by simp [idiom, hstatement]
      rw [hidiom]
      exact ⟨⟨nofun, nofun⟩, rfl⟩
    · have hidiom : ∀ topmost, Stmt.idiom ⟨.print ⟨kind, eline, topmost⟩, line⟩ =
          ⟨.print ⟨kind, eline, true⟩, line⟩ := by simp [idiom, hstatement]
      rw [hidiom, hidiom]
      refine ⟨⟨?_, ?_⟩, rfl⟩
      · rintro e name list defined ⟨⟩ hkind
        cases hkind
        exact hstatement rfl
      · rintro e object method list defined ⟨⟩ hkind
        cases hkind
        exact hstatement rfl
  · have hidiom : Stmt.idiom ⟨kind, line⟩ = ⟨kind, line⟩ := by
      unfold idiom
      split
      · rename_i e hkind
        exact absurd ⟨e, hkind⟩ hprint
      · rfl
    rw [hidiom]
    refine ⟨⟨fun e _ _ _ hkind => ?_, fun e _ _ _ _ hkind => ?_⟩, hidiom⟩
    · exact absurd ⟨e, hkind⟩ hprint
    · exact absurd ⟨e, hkind⟩ hprint

/-- A step on a statement only marks a printed expression as standing alone. -/
theorem Stmt.forall_mem_roots_idiom (stmt : Stmt)
    (h : ∀ e ∈ stmt.kind.roots, ∀ x ∈ e.parts, x.Idiomatic) :
    ∀ e ∈ stmt.idiom.kind.roots, ∀ x ∈ e.parts, x.Idiomatic := by
  obtain ⟨kind, line⟩ := stmt
  unfold idiom
  split
  · rename_i e hkind
    cases hkind
    have he := h e mem_cons_self
    rw [e.parts_eq, forall_mem_cons] at he
    have hmarked : ∀ x ∈ Expr.parts { e with topmost := true }, x.Idiomatic :=
      forall_mem_cons.mpr ⟨⟨he.1.filter, he.1.classes⟩, he.2⟩
    dsimp only
    split <;> exact forall_mem_singleton.mpr hmarked
  · exact h

/-- **The idioms of Latte lead to a normal form, and a second pass over it changes nothing.** After
one pass, in the template and in every template embedded in it, no expression is a filter that
Latte writes in another way, no list of CSS classes holds a hash, and no statement prints an
inclusion or a macro call. -/
theorem latteIdioms_normal_form (t : Template) :
    (latteIdioms.run () (latteIdioms.run () t).1).1 = (latteIdioms.run () t).1 ∧
      ∀ m, (latteIdioms.run () t).1.Module m →
        (∀ e ∈ m.exprs, e.Idiomatic) ∧ ∀ stmt ∈ m.parts, stmt.Idiomatic := by
  have hnormal : ∀ m, (latteIdioms.onTemplate t).Module m →
      (∀ e ∈ m.exprs, e.Idiomatic) ∧
        ∀ stmt ∈ m.parts, stmt.Idiomatic ∧ latteIdioms.stmtStep stmt = stmt := by
    intro m hm
    obtain ⟨m₀, -, rfl⟩ := local_latteIdioms.module_onTemplate hm
    refine ⟨fun x hx => ?_, fun stmt hmem => ?_⟩
    · obtain ⟨e, he, hx⟩ := mem_flatMap.mp hx
      exact local_latteIdioms.forall_mem_roots establishes_latteIdioms.onExpr
        Stmt.forall_mem_roots_idiom m₀ e he x hx
    · rw [local_latteIdioms.parts_onTemplate] at hmem
      obtain ⟨stmt₀, -, rfl⟩ := mem_map.mp hmem
      exact Stmt.idiomatic_idiom _
  have hsettled : latteIdioms.Settled (latteIdioms.onTemplate t) := fun m hm =>
    ⟨fun e he => Expr.idiom_eq_self ((hnormal m hm).1 e he),
      fun stmt hmem => ((hnormal m hm).2 stmt hmem).2⟩
  exact ⟨local_latteIdioms.onTemplate_eq_self _ hsettled, fun m hm =>
    ⟨(hnormal m hm).1, fun stmt hmem => ((hnormal m hm).2 stmt hmem).1⟩⟩

/-- An embedded template that prints a hash of CSS classes with explicit escaping. -/
def escapedClasses : Template :=
  ⟨[⟨.embed { template := Expr.string "card" 1 }
      ⟨[⟨.print
          ⟨.filter
            ⟨.function "html_classes" .generic
              [.positional ⟨.array [(Expr.string "active" 2, Expr.name "on" 2)], 2, false⟩] false,
              2, false⟩
            "escape" [], 2, false⟩, 2⟩],
        [], [], none, []⟩, 1⟩],
    [], [], none, []⟩

theorem latteIdioms_normal_form_embedded :
    ∃ m e, (latteIdioms.run () escapedClasses).1.Module m ∧ e ∈ m.exprs ∧ e.Idiomatic ∧
      e = ⟨.function "html_classes" .generic
        [.positional
          ⟨.conditional (Expr.name "on" 2) (Expr.string "active" 2) (Expr.constant .null 2), 2,
            false⟩] false, 2, true⟩ := by
  have hmodule : (latteIdioms.run () escapedClasses).1.Module _ :=
    .embedded .self mem_cons_self rfl
  have hnormal := (latteIdioms_normal_form escapedClasses).2 _ hmodule
  exact ⟨_, _, hmodule, mem_cons_self, hnormal.1 _ mem_cons_self, rfl⟩

end TwigToLatte
