import TwigToLatte.Proofs.Latte.Agreement
import TwigToLatte.Proofs.Template.Agreement
import TwigToLatte.Conversion

/-!
# Options of a conversion

A conversion reads a template, runs the passes and renders the result. Each of the three steps sees
a part of the dialect's options only.

* `Template.convert_eq` — the conversion of a parsed template depends on the Latte names of filters
  and functions and on whether raw filters are dropped.
* `convert_loopContext` — **marking loops changes nothing about a conversion**.
* `Dialect.covers_lenient` — a lenient dialect offers what the strict one does, and takes every other
  name besides.
* `convert_lenient_follows` — **leniency makes a difference only where the strict dialect stops at an
  unknown name**.
* `convert_lenient` — a template that the strict dialect converts is converted alike.
-/

namespace TwigToLatte

variable {dialect dialect' : Dialect}

/-- What the conversion of a parsed template depends on. -/
theorem Template.convert_eq (hfilters : dialect'.latteFilters = dialect.latteFilters)
    (hfunctions : dialect'.latteFunctions = dialect.latteFunctions)
    (hraw : dialect'.optimizations.rawFilter = dialect.optimizations.rawFilter) (name : String)
    (t : Template) : t.convert dialect' name = t.convert dialect name := by
  have hplain : (dialect'.runStages t).plain = (dialect.runStages t).plain := by
    rw [Dialect.plain_runStages, Dialect.plain_runStages, hraw]
  have hrender : Latte.render dialect' name (dialect'.runStages t) =
      Latte.render dialect name (dialect.runStages t) :=
    Latte.render_eq_of_plain_eq
      (fun filter => by rw [Dialect.latteFilter, hfilters, Dialect.latteFilter])
      (fun function => by rw [Dialect.latteFunction, hfunctions, Dialect.latteFunction]) hplain
  rw [Template.convert, Template.convert, hrender]

theorem Conversion.stageRecords_eq (dialect dialect' : Dialect) (name : String) :
    dialect'.stages.map (stageRecord name) = dialect.stages.map (stageRecord name) := by
  rw [Dialect.stages_eq, Dialect.stages_eq]
  rfl

/-- A source that is read alike and a template that is converted alike make for one conversion. -/
theorem convert_eq {source : Source}
    (hparse : Template.parse dialect' source = Template.parse dialect source)
    (hconvert : ∀ name t, Template.convert dialect' name t = Template.convert dialect name t) :
    convert dialect' source = convert dialect source := by
  rw [convert, convert, hparse]
  cases (Template.parse dialect source).result with
  | error fault => rfl
  | ok t =>
    dsimp only
    rw [hconvert, Conversion.stageRecords_eq dialect dialect']

/-- **Marking loops changes nothing about a conversion**: neither the code and the line map, nor the
error if there is one, nor what is recorded on the way. -/
theorem convert_loopContext (dialect : Dialect) (loopContext : Bool) (source : Source) :
    convert { dialect with optimizations := { dialect.optimizations with loopContext } } source =
      convert dialect source := by
  have hcovers : Dialect.Covers (fun _ => False) dialect
      { dialect with optimizations := { dialect.optimizations with loopContext } } :=
    ⟨rfl, rfl, rfl, rfl, rfl, rfl, fun _ => .inl rfl, fun _ => .inl rfl⟩
  have hparse := (parse_follows hcovers source).resolve_right fun ⟨_, _, h⟩ => h
  exact convert_eq hparse (Template.convert_eq rfl rfl rfl)

/-! ## Unknown names -/

/-- The fault of a template that uses a filter or a function unknown to the dialect. -/
def Dialect.Unknown (dialect : Dialect) (fault : Fault) : Prop :=
  (∃ name, dialect.filter? name = none ∧
    fault.cause = .unknownFilter name dialect.filters.keys) ∨
  ∃ name, dialect.function? name = none ∧
    fault.cause = .unknownFunction name dialect.functions.keys

/-- A filter that the strict dialect knows is the same one in the lenient dialect. -/
theorem Dialect.filter?_lenient (dialect : Dialect) (name : String) :
    { dialect with acceptFilters := true, acceptFunctions := true }.filter? name =
      dialect.filter? name ∨ dialect.filter? name = none := by
  rw [filter?, filter?]
  cases dialect.filters.get? name with
  | some filter => exact .inl rfl
  | none =>
    cases haccept : dialect.acceptFilters with
    | true => exact .inl rfl
    | false => exact .inr rfl

theorem Dialect.function?_lenient (dialect : Dialect) (name : String) :
    { dialect with acceptFilters := true, acceptFunctions := true }.function? name =
      dialect.function? name ∨ dialect.function? name = none := by
  rw [function?, function?]
  cases dialect.functions.get? name with
  | some function => exact .inl rfl
  | none =>
    cases haccept : dialect.acceptFunctions with
    | true => exact .inl rfl
    | false => exact .inr rfl

theorem Dialect.covers_lenient (dialect : Dialect) :
    dialect.Covers dialect.Unknown
      { dialect with acceptFilters := true, acceptFunctions := true } where
  unary := rfl
  binary := rfl
  tests := rfl
  tags := rfl
  filterNames := rfl
  functionNames := rfl
  filter name := by
    rcases dialect.filter?_lenient name with heq | hnone
    · exact .inl heq
    · exact .inr ⟨hnone, fun _ => .inl ⟨name, hnone, rfl⟩⟩
  function name := by
    rcases dialect.function?_lenient name with heq | hnone
    · exact .inl heq
    · exact .inr ⟨hnone, fun _ => .inr ⟨name, hnone, rfl⟩⟩

/-- **Leniency makes a difference only where the strict dialect stops at an unknown name.** -/
theorem convert_lenient_follows (dialect : Dialect) (source : Source) :
    convert { dialect with acceptFilters := true, acceptFunctions := true } source =
        convert dialect source ∨
      ∃ fault, (convert dialect source).result = .error (.fault fault) ∧
        dialect.Unknown fault := by
  rcases parse_follows dialect.covers_lenient source with hparse | ⟨fault, hfault, hunknown⟩
  · exact .inl (convert_eq hparse (Template.convert_eq rfl rfl rfl))
  · refine .inr ⟨fault, ?_, hunknown⟩
    rw [convert, hfault]

/-- **A template that the strict dialect converts is converted alike by the lenient one**: the code
and the line map are the same, and so are the records. -/
theorem convert_lenient {dialect : Dialect} {source : Source} {conversion : Conversion}
    (h : (convert dialect source).result = .ok conversion) :
    let lenient := { dialect with acceptFilters := true, acceptFunctions := true }
    (convert lenient source).result = .ok conversion ∧
      (convert lenient source).log = (convert dialect source).log := by
  intro lenient
  rcases convert_lenient_follows dialect source with heq | ⟨fault, hfault, -⟩
  · exact ⟨by rw [heq, h], by rw [heq]⟩
  · rw [hfault] at h
    cases h

/-- A filter that the dialect knows. -/
theorem convert_lenient_filter :
    let dialect : Dialect := { filters := ⟨[("known", { name := "known", kind := .generic })]⟩ }
    let lenient := { dialect with acceptFilters := true, acceptFunctions := true }
    let known : Source := ⟨"\x7b\x7b 'a b'|known \x7d\x7d", "", none⟩
    (convert dialect known).result = .ok ⟨"\x7b='a b'|known\x7d", #[(1, 1)]⟩ ∧
      (convert lenient known).result = .ok ⟨"\x7b='a b'|known\x7d", #[(1, 1)]⟩ := by
  intro dialect lenient known
  have hknown : (convert dialect known).result = .ok ⟨"\x7b='a b'|known\x7d", #[(1, 1)]⟩ := by
    simp only [convert, Template.convert, Dialect.runStages, Dialect.stages_eq]
    decide +kernel
  exact ⟨hknown, (convert_lenient hknown).1⟩

end TwigToLatte
