import Mathlib.Data.List.DropRight
import TwigToLatte.Proofs.Template.Effect
import TwigToLatte.Signature

/-!
# Arguments and parameters

Which arguments a signature accepts, and which parameter gets which of them.

* `Signature.supplied?` — the value that a call gives under a name.
* `Signature.Accepts` — arguments that fit a signature: no parameter gets two values, none that needs
  a value goes without, and none is left over unless the callable collects them.
* `Signature.Fills` — the positional list that such arguments stand for.
* `Signature.foldlM_param_eq_ok_iff` — **the parameters up to any of them**, bound one by one.
* `Signature.fault_of_bind` — arguments that do not fit are the fault of the template.
* `Signature.bind_fills` — **what is bound, and how**.
-/

namespace TwigToLatte

open List

/-! ## Registries -/

namespace Registry

variable {α : Type}

theorem lookup_cons_of_ne {x key : String} (h : x ≠ key) (value : α)
    (entries : List (String × α)) : ((key, value) :: entries).lookup x = entries.lookup x := by
  rw [lookup_cons, beq_eq_false_iff_ne.mpr h]

theorem lookup_insertEntry (key : String) (value : α) (entries : List (String × α)) (x : String) :
    (insertEntry key value entries).lookup x = if x = key then some value else entries.lookup x := by
  induction entries with
  | nil =>
    by_cases hx : x = key
    · rw [insertEntry, hx, lookup_cons_self, if_pos rfl]
    · rw [insertEntry, lookup_cons_of_ne hx, if_neg hx]
  | cons entry rest ih =>
    obtain ⟨first, old⟩ := entry
    rw [insertEntry]
    split
    · rename_i hfirst
      subst hfirst
      by_cases hx : x = first
      · rw [hx, lookup_cons_self, if_pos rfl]
      · rw [lookup_cons_of_ne hx, lookup_cons_of_ne hx, if_neg hx]
    · rename_i hfirst
      by_cases hx : x = first
      · rw [hx, lookup_cons_self, if_neg hfirst, lookup_cons_self]
      · rw [lookup_cons_of_ne hx, lookup_cons_of_ne hx, ih]

theorem keys_insertEntry (key : String) (value : α) (entries : List (String × α)) :
    (insertEntry key value entries).map Prod.fst =
      if key ∈ entries.map Prod.fst then entries.map Prod.fst
      else entries.map Prod.fst ++ [key] := by
  induction entries with
  | nil => rfl
  | cons entry rest ih =>
    rw [insertEntry]
    split
    · simp_all
    · rename_i hne
      by_cases hmem : key ∈ rest.map Prod.fst <;> simp_all [Ne.symm hne]

/-- Looking up a name among the entries whose names pass a test. -/
theorem lookup_filter (p : String → Bool) (entries : List (String × α)) (x : String) :
    (entries.filter fun entry => p entry.1).lookup x =
      if p x then entries.lookup x else none := by
  induction entries with
  | nil => exact (ite_self _).symm
  | cons entry rest ih =>
    obtain ⟨key, value⟩ := entry
    by_cases hp : p key = true
    · rw [filter_cons_of_pos (by exact hp)]
      by_cases hx : x = key
      · rw [hx, lookup_cons_self, lookup_cons_self, if_pos hp]
      · rw [lookup_cons_of_ne hx, lookup_cons_of_ne hx, ih]
    · rw [filter_cons_of_neg (by exact hp), ih]
      by_cases hx : x = key
      · rw [hx, if_neg hp, if_neg hp]
      · rw [lookup_cons_of_ne hx]

/-- Entries of different names are told by their names and by what is found under them. -/
theorem entries_eq_filterMap {entries : List (String × α)} (h : (entries.map Prod.fst).Nodup) :
    entries = (entries.map Prod.fst).filterMap fun key =>
      (entries.lookup key).map fun value => (key, value) := by
  induction entries with
  | nil => rfl
  | cons entry rest ih =>
    obtain ⟨key, value⟩ := entry
    rw [map_cons, nodup_cons] at h
    have hrest : (rest.map Prod.fst).filterMap (fun x => (((key, value) :: rest).lookup x).map
        fun found => (x, found)) = rest := by
      refine Eq.trans (filterMap_congr fun x hx => ?_) (ih h.2).symm
      have hne : x ≠ key := fun heq => h.1 (heq ▸ hx)
      rw [lookup_cons_of_ne hne]
    rw [map_cons, filterMap_cons, hrest, lookup_cons_self]
    rfl

end Registry

namespace Signature

variable {callee : Callee} {line : Nat} {arguments : List (Argument Expr)}

/-! ## Arguments of a call -/

/-- The value that the arguments give under a name, the last one if there are several. -/
def supplied? (arguments : List (Argument Expr)) (name : String) : Option Expr :=
  (arguments.reverse.find? (·.name == some name)).map (·.value)

/-- No positional argument follows a named one. -/
def Ordered (arguments : List (Argument Expr)) : Prop :=
  arguments.Pairwise fun first second => second.name = none → first.name = none

theorem misordered_eq_false_iff : misordered arguments = false ↔ Ordered arguments := by
  induction arguments with
  | nil => exact iff_of_true rfl .nil
  | cons a rest ih =>
    rw [Ordered, pairwise_cons]
    cases hname : a.name with
    | none =>
      have hrest : misordered (a :: rest) = misordered rest := by
        rw [misordered, dropWhile_cons_of_pos (by rw [hname]; rfl), misordered]
      rw [hrest, ih]
      exact ⟨fun h => ⟨fun _ _ _ => rfl, h⟩, fun h => h.2⟩
    | some name =>
      have hrest : misordered (a :: rest) = rest.any (·.name.isNone) := by
        rw [misordered, dropWhile_cons_of_neg (by rw [hname]; nofun), any_cons, hname]
        rfl
      rw [hrest, any_eq_false]
      simp only [Option.isNone_iff_eq_none]
      refine ⟨fun h => ⟨fun b hb hnone => absurd hnone (h b hb), ?_⟩, fun h b hb hnone => ?_⟩
      · exact pairwise_iff_getElem.mpr fun i j _ hj _ hnone =>
          absurd hnone (h _ (getElem_mem hj))
      · cases h.1 b hb hnone

theorem supplied?_append (arguments : List (Argument Expr)) (a : Argument Expr) (name : String) :
    supplied? (arguments ++ [a]) name =
      if a.name = some name then some a.value else supplied? arguments name := by
  rw [supplied?, reverse_append, reverse_singleton, singleton_append,
    find?_cons]
  by_cases h : a.name = some name
  · rw [if_pos h, h, beq_self_eq_true]
    rfl
  · rw [if_neg h, beq_eq_false_iff_ne.mpr h]
    rfl

theorem supplied?_eq_none_iff {name : String} :
    supplied? arguments name = none ↔ ∀ a ∈ arguments, a.name ≠ some name := by
  rw [supplied?, Option.map_eq_none_iff, find?_eq_none]
  simp only [mem_reverse, beq_iff_eq, ne_eq]

theorem nameds_append (arguments : List (Argument Expr)) (a : Argument Expr) :
    nameds (arguments ++ [a]) =
      match a.name with
      | none => nameds arguments
      | some name => (nameds arguments).insert name a.value := by
  rw [nameds, filterMap_append, Registry.insertAll, foldl_append]
  cases h : a.name with
  | none => simp [h, nameds, Registry.insertAll]
  | some name => simp [h, nameds, Registry.insertAll]

/-- Under a name stands the value that the arguments give. -/
theorem get?_nameds (arguments : List (Argument Expr)) (name : String) :
    (nameds arguments).get? name = supplied? arguments name := by
  induction arguments using List.reverseRecOn with
  | nil => rfl
  | append_singleton arguments a ih =>
    rw [nameds_append, supplied?_append]
    cases a.name with
    | none => simpa using ih
    | some given =>
      refine (Registry.lookup_insertEntry given a.value _ name).trans ?_
      by_cases h : name = given
      · rw [if_pos h, if_pos (congrArg some h.symm)]
      · rw [if_neg h, if_neg fun heq => h (Option.some.inj heq).symm]
        exact ih

/-- The names stand in the order in which they are first given. -/
theorem keys_nameds (arguments : List (Argument Expr)) :
    (nameds arguments).keys = (arguments.filterMap (·.name)).eraseDups := by
  induction arguments using List.reverseRecOn with
  | nil => rfl
  | append_singleton arguments a ih =>
    rw [nameds_append, filterMap_append, eraseDups_append]
    cases hname : a.name with
    | none => simpa [hname] using ih
    | some name =>
      have hkeys : ((nameds arguments).insert name a.value).keys =
          if name ∈ (nameds arguments).keys then (nameds arguments).keys
          else (nameds arguments).keys ++ [name] :=
        Registry.keys_insertEntry name a.value _
      rw [hkeys, ih, filterMap_cons_some hname, filterMap_nil]
      generalize arguments.filterMap (·.name) = names
      by_cases hmem : name ∈ names <;>
        simp [cons_removeAll, mem_eraseDups, hmem, eraseDups_cons]

theorem nodup_keys_nameds (arguments : List (Argument Expr)) : (nameds arguments).keys.Nodup := by
  induction arguments using List.reverseRecOn with
  | nil => exact nodup_nil
  | append_singleton arguments a ih =>
    rw [nameds_append]
    cases a.name with
    | none => exact ih
    | some name =>
      refine (congrArg List.Nodup (Registry.keys_insertEntry name a.value _)).mpr ?_
      split
      · exact ih
      · rename_i hnew
        exact concat_eq_append ▸ ih.concat hnew

theorem entries_nameds (arguments : List (Argument Expr)) :
    (nameds arguments).entries = (arguments.filterMap (·.name)).eraseDups.filterMap fun name =>
      (supplied? arguments name).map fun value => (name, value) := by
  refine (Registry.entries_eq_filterMap (nodup_keys_nameds arguments)).trans ?_
  rw [← keys_nameds]
  exact filterMap_congr fun name _ => congrArg _ (get?_nameds arguments name)

/-! ## Parameters one by one -/

namespace Binding

variable {start : Binding} {params : List Param} {param : Param} {value : Expr}

/-- The value of the parameter at a place, and whether an argument gives it. -/
def slot (start : Binding) (line i : Nat) (param : Param) : Expr × Bool :=
  match start.positional[i]?.or (start.named.get? param.name) with
  | some value => (value, true)
  | none => (Expr.constant (param.default.getD .null) line, false)

/-- The parameter at a place gets at most one value, and goes without only if it has a default. -/
def Fits (start : Binding) (i : Nat) (param : Param) : Prop :=
  (i < start.positional.length → start.named.get? param.name = none) ∧
    (start.positional.length ≤ i → param.default = none → start.named.get? param.name ≠ none)

/-- The binding after the given parameters. The defaults behind the last argument are pending. -/
def filled (start : Binding) (line : Nat) (params : List Param) : Binding where
  positional := start.positional.drop params.length
  named := ⟨start.named.entries.filter fun entry => !(params.map (·.name)).contains entry.1⟩
  bound := ((params.mapIdx (start.slot line)).rdropWhile (!·.2)).map (·.1)
  pending := ((params.mapIdx (start.slot line)).rtakeWhile (!·.2)).map (·.1)

theorem get?_named_filled (h : param.name ∉ params.map (·.name)) :
    (start.filled line params).named.get? param.name = start.named.get? param.name := by
  refine (Registry.lookup_filter (fun name => !(params.map (·.name)).contains name) _ _).trans ?_
  rw [contains_eq_mem, decide_eq_false h, Bool.not_false, if_pos rfl]
  rfl

theorem named_filled_append :
    (start.filled line (params ++ [param])).named =
      (start.filled line params).named.erase param.name := by
  show Registry.mk _ = Registry.mk _
  congr 1
  show _ = (start.named.entries.filter _).filter _
  rw [filter_filter]
  refine filter_congr fun entry _ => ?_
  rw [map_append, map_singleton, contains_eq_mem, contains_eq_mem,
    decide_eq_decide.mpr (mem_append.trans (or_congr_right mem_singleton)),
    Bool.decide_or, Bool.not_or, Bool.and_comm]
  rfl

theorem erase_of_get?_eq_none {registry : Registry Expr} {name : String}
    (h : registry.get? name = none) : registry.erase name = registry := by
  have hall : ∀ entry ∈ registry.entries, (entry.1 != name) = true := by
    intro entry hmem
    refine bne_iff_ne.mpr fun heq => Registry.get?_eq_none_iff.mp h ?_
    exact heq ▸ mem_map_of_mem hmem
  rw [Registry.erase, filter_eq_self.mpr hall]

/-- A parameter that an argument gives: the defaults before it count. -/
theorem filled_append_of_given (h : start.slot line params.length param = (value, true)) :
    start.filled line (params ++ [param]) =
      { (start.filled line params).push value with
        positional := start.positional.drop (params.length + 1)
        named := (start.filled line params).named.erase param.name } := by
  have hall := rdropWhile_append_rtakeWhile (p := fun slot : Expr × Bool => !slot.2)
    (l := params.mapIdx (start.slot line))
  rw [← named_filled_append]
  simp only [filled, push, mapIdx_concat, h, rdropWhile_concat, rtakeWhile_concat,
    Bool.not_true, Bool.false_eq_true, if_false, length_append, length_singleton]
  rw [← map_append, hall]
  simp only [map_append, map_cons, map_nil]

/-- A parameter that gets its default, which may not count. -/
theorem filled_append_of_default (h : start.slot line params.length param = (value, false)) :
    start.filled line (params ++ [param]) =
      { start.filled line params with
        positional := start.positional.drop (params.length + 1)
        named := (start.filled line params).named.erase param.name
        pending := (start.filled line params).pending ++ [value] } := by
  rw [← named_filled_append]
  simp only [filled, mapIdx_concat, h, rdropWhile_concat, rtakeWhile_concat,
    Bool.not_false, if_true, length_append, length_singleton, map_append]
  rfl

theorem param_filled_eq_ok_iff {last : Binding} (h : param.name ∉ params.map (·.name)) :
    (start.filled line params).param callee line param = .ok last ↔
      start.Fits params.length param ∧ last = start.filled line (params ++ [param]) := by
  have hget : (start.filled line params).named.get? param.name = start.named.get? param.name :=
    get?_named_filled h
  by_cases hlt : params.length < start.positional.length
  · have hpositional : (start.filled line params).positional =
        start.positional[params.length] :: start.positional.drop (params.length + 1) :=
      drop_eq_getElem_cons hlt
    cases hnamed : start.named.get? param.name with
    | some value =>
      rw [Binding.param, hget, hnamed, hpositional]
      refine ⟨nofun, fun hfits => ?_⟩
      cases (hfits.1.1 hlt).symm.trans hnamed
    | none =>
      have hslot : start.slot line params.length param =
          (start.positional[params.length], true) := by
        rw [slot, getElem?_eq_getElem hlt]
        rfl
      have hfits : start.Fits params.length param :=
        ⟨fun _ => hnamed, fun hle => absurd hlt (Nat.not_lt.mpr hle)⟩
      rw [filled_append_of_given hslot, erase_of_get?_eq_none (hget.trans hnamed), Binding.param,
        hget, hnamed, hpositional, Except.ok.injEq]
      exact ⟨fun heq => ⟨hfits, heq.symm⟩, fun heq => heq.2.symm⟩
  · have hle := Nat.not_lt.mp hlt
    have hpositional : (start.filled line params).positional = [] := drop_eq_nil_of_le hle
    have hrest : start.positional.drop (params.length + 1) = [] :=
      drop_eq_nil_of_le (Nat.le_succ_of_le hle)
    cases hnamed : start.named.get? param.name with
    | some value =>
      have hslot : start.slot line params.length param = (value, true) := by
        rw [slot, getElem?_eq_none hle, hnamed]
        rfl
      have hfits : start.Fits params.length param :=
        ⟨fun hlt' => absurd hlt' hlt, fun _ _ hnone => nomatch hnamed.symm.trans hnone⟩
      rw [filled_append_of_given hslot, hrest, Binding.param, hget, hnamed, hpositional,
        Except.ok.injEq]
      refine ⟨fun heq => ⟨hfits, heq.symm.trans ?_⟩, fun heq => Eq.trans ?_ heq.2.symm⟩
      · rw [push, hpositional]
      · rw [push, hpositional]
    | none =>
      cases hdefault : param.default with
      | none =>
        rw [Binding.param, hget, hnamed, hpositional, hdefault]
        exact ⟨nofun, fun hfits => absurd hnamed (hfits.1.2 hle hdefault)⟩
      | some value =>
        have hslot : start.slot line params.length param = (Expr.constant value line, false) := by
          rw [slot, getElem?_eq_none hle, hnamed, hdefault]
          rfl
        have hfits : start.Fits params.length param :=
          ⟨fun hlt' => absurd hlt' hlt, fun _ hnone => nomatch hdefault.symm.trans hnone⟩
        rw [filled_append_of_default hslot, hrest, erase_of_get?_eq_none (hget.trans hnamed),
          Binding.param, hget, hnamed, hpositional, hdefault, Except.ok.injEq]
        refine ⟨fun heq => ⟨hfits, heq.symm.trans ?_⟩, fun heq => Eq.trans ?_ heq.2.symm⟩
        · rw [← hpositional]
        · rw [← hpositional]

end Binding

theorem forall_getElem?_append_singleton {α : Type} {list : List α} {a : α} {p : Nat → α → Prop} :
    (∀ i x, (list ++ [a])[i]? = some x → p i x) ↔
      (∀ i x, list[i]? = some x → p i x) ∧ p list.length a := by
  constructor
  · intro h
    refine ⟨fun i x hx => h i x ?_, h _ _ getElem?_concat_length⟩
    rw [getElem?_append_left (List.getElem?_eq_some_iff.mp hx).1, hx]
  · rintro ⟨h, hlast⟩ i x hx
    rw [getElem?_append] at hx
    split at hx
    · exact h i x hx
    · rename_i hle
      have hlt : i - list.length < 1 := (List.getElem?_eq_some_iff.mp hx).1
      obtain rfl : i = list.length := by omega
      rw [Nat.sub_self] at hx
      cases hx
      exact hlast

variable {params : List Param} {binding : Binding} {fault : Fault} {signature : Option Signature}

/-- **The parameters up to any of them, one by one**: each must fit, and those that fit are filled. -/
theorem foldlM_param_eq_ok_iff {positional : List Expr} {named : Registry Expr}
    (hdistinct : (params.map (·.name)).Nodup) {last : Binding} :
    params.foldlM (Binding.param callee line) { positional, named } = .ok last ↔
      (∀ i param, params[i]? = some param → Binding.Fits { positional, named } i param) ∧
        last = Binding.filled { positional, named } line params := by
  induction params using List.reverseRecOn generalizing last with
  | nil =>
    have hfilled : Binding.filled { positional, named } line [] = { positional, named } := by
      simp [Binding.filled]
    rw [foldlM_nil, hfilled]
    exact ⟨fun h => ⟨nofun, (Except.ok.inj h).symm⟩, fun h => congrArg _ h.2.symm⟩
  | append_singleton params param ih =>
    rw [map_append, map_singleton, ← concat_eq_append, nodup_concat] at hdistinct
    rw [foldlM_append, forall_getElem?_append_singleton, and_assoc,
      ← Binding.param_filled_eq_ok_iff hdistinct.1]
    cases hfold : params.foldlM (Binding.param callee line) { positional, named } with
    | error fault =>
      refine ⟨nofun, fun h => ?_⟩
      cases hfold.symm.trans ((ih hdistinct.2).mpr ⟨h.1, rfl⟩)
    | ok middle =>
      obtain ⟨hfits, rfl⟩ := (ih hdistinct.2).mp hfold
      rw [and_iff_right hfits]
      show (List.foldlM (Binding.param callee line) _ [param]) = _ ↔ _
      rw [foldlM_cons]
      cases Binding.param callee line (Binding.filled _ line params) param <;> rfl

/-! ## Arguments that do not fit -/

theorem Binding.fault_of_param {param : Param} (h : binding.param callee line param = .error fault) :
    fault.line = line ∧ fault.cause.kind ≠ .internal := by
  unfold Binding.param at h
  split at h
  · cases h
    exact ⟨rfl, nofun⟩
  · cases h
  · cases h
  · split at h <;> cases h
    exact ⟨rfl, nofun⟩

theorem Binding.fault_of_foldlM
    (h : params.foldlM (Binding.param callee line) binding = .error fault) :
    fault.line = line ∧ fault.cause.kind ≠ .internal := by
  induction params generalizing binding with
  | nil => cases h
  | cons param rest ih =>
    rw [foldlM_cons] at h
    cases hparam : binding.param callee line param with
    | error fault' =>
      rw [hparam] at h
      cases h
      exact fault_of_param hparam
    | ok next =>
      rw [hparam] at h
      exact ih h

/-- Arguments that do not fit a signature are the fault of the template, on the line of the call. -/
theorem fault_of_bind {list : List (Argument Expr)}
    (h : bind callee signature list line = .error fault) :
    fault.line = line ∧ fault.cause.kind ≠ .internal := by
  unfold Signature.bind at h
  split at h
  · cases h
    exact ⟨rfl, nofun⟩
  split at h
  · cases h
  cases signature with
  | none =>
    cases h
    exact ⟨rfl, nofun⟩
  | some signature =>
    dsimp only at h
    cases hfold : signature.params.foldlM (Binding.param callee line)
        { positional := positionals list, named := nameds list } with
    | error fault' =>
      rw [hfold] at h
      cases h
      exact Binding.fault_of_foldlM hfold
    | ok binding =>
      rw [hfold] at h
      simp only [Bind.bind, Except.bind] at h
      generalize (if signature.variadic then binding.collect line else binding) = b at h
      split at h <;> cases h
      exact ⟨rfl, nofun⟩

/-! ## Accepted arguments -/

/-- The arguments fit the signature: no parameter gets two values, one without a default gets one,
and every argument is for a parameter, unless the callable collects the others. -/
structure Accepts (signature : Signature) (arguments : List (Argument Expr)) : Prop where
  once : ∀ i param, signature.params[i]? = some param → i < (positionals arguments).length →
    supplied? arguments param.name = none
  complete : ∀ i param, signature.params[i]? = some param → (positionals arguments).length ≤ i →
    param.default = none → supplied? arguments param.name ≠ none
  known : signature.variadic = false → (positionals arguments).length ≤ signature.params.length ∧
    ∀ a ∈ arguments, ∀ name, a.name = some name → name ∈ signature.params.map (·.name)

/-- The arguments that are for no parameter, as elements of an array: positional ones by number, then
the others by name. -/
def surplus (signature : Signature) (line : Nat) (arguments : List (Argument Expr)) :
    List (Expr × Expr) :=
  (((positionals arguments).drop signature.params.length).mapIdx fun i value =>
      (Expr.constant (.int (Int64.ofNat i)) line, value)) ++
    ((arguments.filterMap (·.name)).eraseDups.filter fun name =>
      !(signature.params.map (·.name)).contains name).filterMap fun name =>
        (supplied? arguments name).map fun value => (Expr.string name line, value)

/-- An argument gives the parameter at a place its value. -/
def Given (signature : Signature) (arguments : List (Argument Expr)) (i : Nat) : Prop :=
  ∃ param, signature.params[i]? = some param ∧
    (i < (positionals arguments).length ∨ supplied? arguments param.name ≠ none)

/-- The positional list that the arguments stand for. A parameter has the positional argument in its
place, else the one of its name, else its default. The list ends with the last parameter that an
argument gives; surplus arguments come behind all parameters. -/
structure Fills (signature : Signature) (line : Nat) (arguments : List (Argument Expr))
    (values : List Expr) : Prop where
  slots : ∀ i param, signature.params[i]? = some param → i < values.length →
    values[i]? = (positionals arguments)[i]?.or ((supplied? arguments param.name).or
      (param.default.map (Expr.constant · line)))
  ends : signature.surplus line arguments = [] →
    ∀ i, i < values.length ↔ ∃ j, i ≤ j ∧ signature.Given arguments j
  collects : signature.surplus line arguments ≠ [] →
    values.length = signature.params.length + 1 ∧ values[signature.params.length]? =
      some { kind := .array (signature.surplus line arguments), line }

/-- The arguments of a call before the first parameter is bound. -/
def Binding.start (arguments : List (Argument Expr)) : Binding :=
  { positional := positionals arguments, named := nameds arguments }

section

variable {signature : Signature} {i : Nat} {param : Param} {start : Binding}

theorem fits_start_iff :
    (Binding.start arguments).Fits i param ↔
      (i < (positionals arguments).length → supplied? arguments param.name = none) ∧
      ((positionals arguments).length ≤ i → param.default = none →
        supplied? arguments param.name ≠ none) := by
  rw [← get?_nameds]
  exact Iff.rfl

theorem surplus_filled :
    Binding.surplus line ((Binding.start arguments).filled line signature.params) =
      signature.surplus line arguments := by
  rw [Binding.surplus, surplus]
  congr 1
  show List.map _ (List.filter _ (nameds arguments).entries) = _
  rw [entries_nameds, filter_filterMap, map_filterMap, filterMap_filter]
  refine filterMap_congr fun name _ => ?_
  cases supplied? arguments name with
  | none => exact (ite_self _).symm
  | some value => simp only [Option.map_some, Option.filter_some]; split <;> rfl

theorem leftovers_filled_eq_nil_iff :
    ((Binding.start arguments).filled line signature.params).leftovers = [] ↔
      (positionals arguments).length ≤ signature.params.length ∧
        ∀ a ∈ arguments, ∀ name, a.name = some name → name ∈ signature.params.map (·.name) := by
  rw [Binding.leftovers, append_eq_nil_iff, mapIdx_eq_nil_iff, and_comm]
  refine and_congr drop_eq_nil_iff ?_
  show List.map _ (List.filter _ (nameds arguments).entries) = [] ↔ _
  rw [map_eq_nil_iff, filter_eq_nil_iff]
  have hnames : ∀ name, name ∈ (nameds arguments).keys ↔ ∃ a ∈ arguments, a.name = some name := by
    intro name
    rw [keys_nameds, mem_eraseDups, mem_filterMap]
  constructor
  · intro h a ha name hname
    obtain ⟨entry, hentry, rfl⟩ := mem_map.mp ((hnames name).mpr ⟨a, ha, hname⟩)
    simpa using h entry hentry
  · intro h entry hentry
    obtain ⟨a, ha, hname⟩ := (hnames entry.1).mp (mem_map_of_mem hentry)
    simpa using h a ha entry.1 hname

theorem lt_length_rdropWhile_iff {α : Type} {p : α → Bool} {list : List α} :
    i < (list.rdropWhile p).length ↔ ∃ j, i ≤ j ∧ ∃ x, list[j]? = some x ∧ p x = false := by
  induction list using List.reverseRecOn with
  | nil => simp
  | append_singleton list a ih =>
    rw [rdropWhile_concat]
    cases ha : p a with
    | true =>
      rw [if_pos rfl, ih]
      constructor
      · rintro ⟨j, hij, x, hx, hp⟩
        refine ⟨j, hij, x, ?_, hp⟩
        rw [getElem?_append_left (List.getElem?_eq_some_iff.mp hx).1, hx]
      · rintro ⟨j, hij, x, hx, hp⟩
        revert hij hp
        refine forall_getElem?_append_singleton
          (p := fun j x => i ≤ j → p x = false → ∃ j, i ≤ j ∧ ∃ x, list[j]? = some x ∧ p x = false)
          |>.mpr ⟨fun j x hx hij hp => ⟨j, hij, x, hx, hp⟩, fun _ hp => ?_⟩ j x hx
        cases ha.symm.trans hp
    | false =>
      rw [if_neg Bool.false_ne_true, length_append, length_singleton, Nat.lt_succ_iff]
      refine ⟨fun hle => ⟨_, hle, a, getElem?_concat_length, ha⟩, ?_⟩
      rintro ⟨j, hij, x, hx, -⟩
      have hlt := (List.getElem?_eq_some_iff.mp hx).1
      rw [length_append, length_singleton] at hlt
      omega

theorem leftovers_eq_nil_iff (line : Nat) {binding : Binding} :
    binding.leftovers = [] ↔ binding.surplus line = [] := by
  rw [Binding.leftovers, Binding.surplus, append_eq_nil_iff, append_eq_nil_iff,
    mapIdx_eq_nil_iff, mapIdx_eq_nil_iff, Registry.keys, map_eq_nil_iff,
    map_eq_nil_iff, and_comm]

/-- The positional list, from the parameters that are filled. -/
def values (signature : Signature) (line : Nat) (arguments : List (Argument Expr)) : List Expr :=
  match signature.surplus line arguments with
  | [] => ((Binding.start arguments).filled line signature.params).bound
  | items => (signature.params.mapIdx ((Binding.start arguments).slot line)).map (·.1) ++
      [{ kind := .array items, line }]

theorem bound_collect :
    (((Binding.start arguments).filled line signature.params).collect line).leftovers = [] ∧
      (((Binding.start arguments).filled line signature.params).collect line).bound =
        signature.values line arguments := by
  rw [Binding.collect, surplus_filled, values]
  cases hsurplus : signature.surplus line arguments with
  | nil => exact ⟨(leftovers_eq_nil_iff line).mpr (surplus_filled.trans hsurplus), rfl⟩
  | cons item rest =>
    refine ⟨rfl, ?_⟩
    have hall := rdropWhile_append_rtakeWhile (p := fun slot : Expr × Bool => !slot.2)
      (l := signature.params.mapIdx ((Binding.start arguments).slot line))
    show (_ ++ _) ++ _ = _
    rw [Binding.filled, ← map_append, hall]

/-- The binding after the last parameter, the surplus collected if the callable does so. -/
def gathered (signature : Signature) (line : Nat) (arguments : List (Argument Expr)) : Binding :=
  if signature.variadic then ((Binding.start arguments).filled line signature.params).collect line
  else (Binding.start arguments).filled line signature.params

theorem leftovers_gathered_eq_nil_iff :
    (signature.gathered line arguments).leftovers = [] ↔ (signature.variadic = false →
      (positionals arguments).length ≤ signature.params.length ∧
        ∀ a ∈ arguments, ∀ name, a.name = some name → name ∈ signature.params.map (·.name)) := by
  rw [gathered]
  cases signature.variadic with
  | true => exact iff_of_true bound_collect.1 nofun
  | false =>
    rw [if_neg Bool.false_ne_true, leftovers_filled_eq_nil_iff]
    exact ⟨fun h _ => h, fun h => h rfl⟩

theorem bound_gathered (h : (signature.gathered line arguments).leftovers = []) :
    (signature.gathered line arguments).bound = signature.values line arguments := by
  rw [gathered] at h ⊢
  cases hvariadic : signature.variadic with
  | true => exact bound_collect.2
  | false =>
    rw [hvariadic, if_neg Bool.false_ne_true, leftovers_eq_nil_iff line, surplus_filled] at h
    rw [if_neg Bool.false_ne_true, values, h]

/-- Binding beyond the plain case, in which the arguments are taken as they are. -/
theorem bind_eq_ok_iff_accepts (hdistinct : (signature.params.map (·.name)).Nodup)
    (hordered : Ordered arguments)
    (hplain : (arguments.all (·.name.isNone) && !signature.variadic) = false)
    {bound : List (Argument Expr)} :
    bind callee (some signature) arguments line = .ok bound ↔
      signature.Accepts arguments ∧ bound = (signature.values line arguments).map .positional := by
  have hstart : ({ positional := positionals arguments, named := nameds arguments } : Binding) =
      .start arguments := rfl
  have hiff : ∀ last, signature.params.foldlM (Binding.param callee line) (.start arguments) =
      .ok last ↔ (∀ i param, signature.params[i]? = some param →
        (Binding.start arguments).Fits i param) ∧
      last = (Binding.start arguments).filled line signature.params :=
    fun _ => foldlM_param_eq_ok_iff hdistinct
  rw [bind, misordered_eq_false_iff.mpr hordered, if_neg Bool.false_ne_true, Option.any_some, hplain,
    if_neg Bool.false_ne_true]
  dsimp only
  rw [hstart]
  cases hfold : signature.params.foldlM (Binding.param callee line) (.start arguments) with
  | error fault =>
    refine ⟨nofun, fun h => ?_⟩
    have hok := (hiff _).mpr ⟨fun i param hparam =>
      fits_start_iff.mpr ⟨h.1.once i param hparam, h.1.complete i param hparam⟩, rfl⟩
    cases hfold.symm.trans hok
  | ok last =>
    obtain ⟨hfits, rfl⟩ := (hiff _).mp hfold
    simp only [Bind.bind, Except.bind]
    rw [← gathered]
    split
    · rename_i hleft
      rw [Except.ok.injEq, bound_gathered hleft]
      refine ⟨fun h => ⟨⟨fun i param hparam => ?_, fun i param hparam => ?_, ?_⟩, h.symm⟩,
        fun h => h.2.symm⟩
      · exact (fits_start_iff.mp (hfits i param hparam)).1
      · exact (fits_start_iff.mp (hfits i param hparam)).2
      · exact leftovers_gathered_eq_nil_iff.mp hleft
    · rename_i hleft
      exact ⟨nofun, fun h => (hleft (leftovers_gathered_eq_nil_iff.mpr h.1.known)).elim⟩

theorem Binding.slot_eq_of_fits (h : start.Fits i param) :
    start.positional[i]?.or ((start.named.get? param.name).or
      (param.default.map (Expr.constant · line))) = some (start.slot line i param).1 := by
  rw [slot, ← Option.or_assoc]
  cases hgiven : start.positional[i]?.or (start.named.get? param.name) with
  | some value => rfl
  | none =>
    obtain ⟨hpositional, hnamed⟩ := Option.or_eq_none_iff.mp hgiven
    cases hdefault : param.default with
    | some value => rfl
    | none => exact absurd hnamed (h.2 (List.getElem?_eq_none_iff.mp hpositional) hdefault)

theorem Binding.slot_given_iff :
    (start.slot line i param).2 = true ↔
      i < start.positional.length ∨ start.named.get? param.name ≠ none := by
  rw [slot]
  cases hgiven : start.positional[i]?.or (start.named.get? param.name) with
  | some value =>
    refine iff_of_true rfl ?_
    rcases Option.or_eq_some_iff.mp hgiven with h | ⟨-, h⟩
    · exact .inl (List.getElem?_eq_some_iff.mp h).1
    · exact .inr fun hnone => nomatch hnone.symm.trans h
  | none =>
    obtain ⟨hpositional, hnamed⟩ := Option.or_eq_none_iff.mp hgiven
    refine iff_of_false Bool.false_ne_true fun h => ?_
    rcases h with h | h
    · exact absurd h (Nat.not_lt.mpr (List.getElem?_eq_none_iff.mp hpositional))
    · exact h hnamed

/-- The list that is made of accepted arguments is the one that they stand for. -/
theorem fills_values (h : signature.Accepts arguments) :
    signature.Fills line arguments (signature.values line arguments) := by
  have hslots : ∀ (i : Nat) (param : Param), signature.params[i]? = some param →
      ((signature.params.mapIdx ((Binding.start arguments).slot line)).map Prod.fst)[i]? =
        (positionals arguments)[i]?.or ((supplied? arguments param.name).or
          (param.default.map (Expr.constant · line))) := by
    intro i param hparam
    rw [getElem?_map, getElem?_mapIdx, hparam, ← get?_nameds]
    exact (Binding.slot_eq_of_fits
      (fits_start_iff.mpr ⟨h.once i param hparam, h.complete i param hparam⟩)).symm
  have hlength : ((signature.params.mapIdx ((Binding.start arguments).slot line)).map
      (·.1)).length = signature.params.length := by
    rw [length_map, length_mapIdx]
  rw [values]
  cases hsurplus : signature.surplus line arguments with
  | nil =>
    refine ⟨fun i param hparam hlt => ?_, fun _ i => ?_, fun hne => absurd hsurplus hne⟩
    · rw [← hslots i param hparam]
      have hstart := ( rdropWhile_prefix (fun slot : Expr × Bool => !slot.2)
        (signature.params.mapIdx ((Binding.start arguments).slot line))).map (·.1)
      exact (getElem?_eq_getElem hlt).trans (prefix_iff_getElem?.mp hstart i hlt).symm
    · rw [Binding.filled, length_map, lt_length_rdropWhile_iff]
      refine exists_congr fun j => and_congr_right fun _ => ?_
      simp only [getElem?_mapIdx, Option.map_eq_some_iff, Bool.not_eq_false', Given]
      constructor
      · rintro ⟨_, ⟨param, hparam, rfl⟩, hgiven⟩
        exact ⟨param, hparam, get?_nameds arguments _ ▸ Binding.slot_given_iff.mp hgiven⟩
      · rintro ⟨param, hparam, hgiven⟩
        exact ⟨_, ⟨param, hparam, rfl⟩,
          Binding.slot_given_iff.mpr (get?_nameds arguments _ ▸ hgiven)⟩
  | cons item rest =>
    refine ⟨fun i param hparam _ => ?_, fun hnil => (nomatch hsurplus.symm.trans hnil),
      fun _ => ⟨?_, ?_⟩⟩
    · rw [getElem?_append_left (hlength ▸ (List.getElem?_eq_some_iff.mp hparam).1)]
      exact hslots i param hparam
    · rw [length_append, hlength, length_singleton]
    · rw [hsurplus, ← hlength, getElem?_concat_length]

end

theorem map_positionals (h : ∀ a ∈ arguments, a.name = none) :
    (positionals arguments).map .positional = arguments := by
  induction arguments with
  | nil => rfl
  | cons a rest ih =>
    obtain ⟨name, value⟩ := a
    obtain ⟨hname, hrest⟩ := forall_mem_cons.mp h
    obtain rfl : name = none := hname
    exact congrArg (_ :: ·) (ih hrest)

/-- Arguments without names that fit a signature stand for themselves. -/
theorem Fills.eq_positionals {signature : Signature} {values : List Expr}
    (h : signature.Fills line arguments values) (hnames : ∀ a ∈ arguments, a.name = none)
    (hlength : (positionals arguments).length ≤ signature.params.length) :
    values = positionals arguments := by
  have hnone : ∀ name, supplied? arguments name = none := fun name =>
    supplied?_eq_none_iff.mpr fun a ha => hnames a ha ▸ nofun
  have hgiven : ∀ i, signature.Given arguments i ↔ i < (positionals arguments).length := by
    intro i
    refine ⟨fun ⟨param, _, hi⟩ => hi.resolve_right fun h => h (hnone _), fun hi => ?_⟩
    exact ⟨_, getElem?_eq_getElem (Nat.lt_of_lt_of_le hi hlength), .inl hi⟩
  have hsurplus : signature.surplus line arguments = [] := by
    rw [surplus, drop_eq_nil_of_le hlength]
    simp only [hnone]
    exact filterMap_eq_nil_iff.mpr fun _ _ => rfl
  have hlt : ∀ i, i < values.length ↔ i < (positionals arguments).length := by
    intro i
    rw [h.ends hsurplus i]
    simp only [hgiven]
    exact ⟨fun ⟨j, hij, hj⟩ => Nat.lt_of_le_of_lt hij hj, fun hi => ⟨i, Nat.le_refl i, hi⟩⟩
  refine ext_getElem? fun i => ?_
  by_cases hi : i < values.length
  · have hi' := (hlt i).mp hi
    rw [h.slots i _ (getElem?_eq_getElem (Nat.lt_of_lt_of_le hi' hlength)) hi,
      getElem?_eq_getElem hi']
    rfl
  · rw [getElem?_eq_none (Nat.not_lt.mp hi),
      getElem?_eq_none (Nat.not_lt.mp fun h => hi ((hlt i).mpr h))]

theorem bind_of_plain (hordered : Ordered arguments) (hnames : ∀ a ∈ arguments, a.name = none)
    (hvariadic : ∀ s ∈ signature, s.variadic = false) :
    bind callee signature arguments line = .ok arguments := by
  have hall : arguments.all (·.name.isNone) = true :=
    all_eq_true.mpr fun a ha => Option.isNone_iff_eq_none.mpr (hnames a ha)
  have hany : signature.any (·.variadic) = false := by
    cases signature with
    | none => rfl
    | some s => exact hvariadic s rfl
  unfold bind
  rw [misordered_eq_false_iff.mpr hordered, if_neg Bool.false_ne_true, hall, hany]
  rfl

theorem exists_bind_of_accepts {signature : Signature}
    (hdistinct : (signature.params.map (·.name)).Nodup) (hordered : Ordered arguments)
    (haccepts : signature.Accepts arguments) :
    ∃ values, bind callee (some signature) arguments line = .ok (values.map .positional) ∧
      signature.Fills line arguments values := by
  refine ⟨signature.values line arguments, ?_, fills_values haccepts⟩
  cases hplain : arguments.all (·.name.isNone) && !signature.variadic with
  | false => exact (bind_eq_ok_iff_accepts hdistinct hordered hplain).mpr ⟨haccepts, rfl⟩
  | true =>
    obtain ⟨hall, hvariadic⟩ := Bool.and_eq_true_iff.mp hplain
    rw [Bool.not_eq_true'] at hvariadic
    have hnames : ∀ a ∈ arguments, a.name = none := fun a ha =>
      Option.isNone_iff_eq_none.mp (all_eq_true.mp hall a ha)
    rw [(fills_values haccepts).eq_positionals hnames (haccepts.known hvariadic).1,
      map_positionals hnames]
    exact bind_of_plain hordered hnames fun s hs => Option.mem_some_iff.mp hs ▸ hvariadic

/-- Only arguments in order are bound, and beyond the plain case only those that fit. -/
theorem accepts_of_bind (hdistinct : ∀ s ∈ signature, (s.params.map (·.name)).Nodup)
    {bound : List (Argument Expr)} (h : bind callee signature arguments line = .ok bound) :
    Ordered arguments ∧
      (((∀ a ∈ arguments, a.name = none) ∧ ∀ s ∈ signature, s.variadic = false) ∨
        ∃ s ∈ signature, s.Accepts arguments) := by
  have hordered : Ordered arguments := by
    refine misordered_eq_false_iff.mp (Bool.eq_false_iff.mpr fun hmisordered => ?_)
    unfold bind at h
    rw [hmisordered] at h
    cases h
  refine ⟨hordered, ?_⟩
  cases hplain : arguments.all (·.name.isNone) && !signature.any (·.variadic) with
  | true =>
    obtain ⟨hall, hvariadic⟩ := Bool.and_eq_true_iff.mp hplain
    rw [Bool.not_eq_true'] at hvariadic
    refine .inl ⟨fun a ha => Option.isNone_iff_eq_none.mp (all_eq_true.mp hall a ha), ?_⟩
    rintro s rfl
    exact hvariadic
  | false =>
    cases signature with
    | none =>
      unfold bind at h
      rw [misordered_eq_false_iff.mpr hordered, if_neg Bool.false_ne_true, hplain] at h
      cases h
    | some s =>
      exact .inr ⟨s, rfl, ((bind_eq_ok_iff_accepts (hdistinct s rfl) hordered hplain).mp h).1⟩

/-- **What is bound, and how.** Arguments in order are bound if none has a name and nothing is
collected, and then they are taken as they are; or if they fit the signature, and then the bound
ones are positional and fill its parameters. -/
theorem bind_fills (callee : Callee) (signature : Option Signature)
    (arguments : List (Argument Expr)) (line : Nat)
    (hdistinct : ∀ s ∈ signature, (s.params.map (·.name)).Nodup) :
    ((∃ bound, bind callee signature arguments line = .ok bound) ↔ Ordered arguments ∧
      (((∀ a ∈ arguments, a.name = none) ∧ ∀ s ∈ signature, s.variadic = false) ∨
        ∃ s ∈ signature, s.Accepts arguments)) ∧
    (Ordered arguments → (∀ a ∈ arguments, a.name = none) → (∀ s ∈ signature, s.variadic = false) →
      bind callee signature arguments line = .ok arguments) ∧
    ∀ s ∈ signature, Ordered arguments → s.Accepts arguments →
      ∃ values, bind callee signature arguments line = .ok (values.map .positional) ∧
        s.Fills line arguments values := by
  have hfills : ∀ s ∈ signature, Ordered arguments → s.Accepts arguments →
      ∃ values, bind callee signature arguments line = .ok (values.map .positional) ∧
        s.Fills line arguments values := by
    rintro s rfl hordered haccepts
    exact exists_bind_of_accepts (hdistinct s rfl) hordered haccepts
  refine ⟨⟨fun ⟨bound, h⟩ => accepts_of_bind hdistinct h, ?_⟩, bind_of_plain, hfills⟩
  rintro ⟨hordered, ⟨hnames, hvariadic⟩ | ⟨s, hs, haccepts⟩⟩
  · exact ⟨arguments, bind_of_plain hordered hnames hvariadic⟩
  · obtain ⟨values, hbind, -⟩ := hfills s hs hordered haccepts
    exact ⟨_, hbind⟩

/-- A required parameter, an optional one that goes without, and two surplus values of one name: the
default is written out, and behind it stands an array with the last of the two. -/
theorem bind_fills_collected :
    ∃ values : List Expr, bind ⟨.function, "list"⟩
        (some { params := [⟨"first", none⟩, ⟨"mark", some (.string ",")⟩], variadic := true })
        [.positional (.string "a" 3), ⟨some "more", .string "b" 3⟩, ⟨some "more", .string "c" 3⟩] 3 =
          .ok (values.map .positional) ∧
      values[1]? = some (.string "," 3) ∧ values.length = 3 ∧
      values[2]? = some { kind := .array [(.string "more" 3, .string "c" 3)], line := 3 } := by
  obtain ⟨-, -, h⟩ := bind_fills ⟨.function, "list"⟩
    (some { params := [⟨"first", none⟩, ⟨"mark", some (.string ",")⟩], variadic := true })
    [.positional (.string "a" 3), ⟨some "more", .string "b" 3⟩, ⟨some "more", .string "c" 3⟩] 3
    (by intro s hs; cases hs; decide)
  specialize h _ rfl (misordered_eq_false_iff.mp rfl) ⟨?_, ?_, nofun⟩
  · rintro (_ | _) param hparam hlt
    · cases hparam
      rfl
    · exact absurd hlt (Nat.not_lt.mpr (Nat.le_add_left 1 _))
  · rintro (_ | _ | _) param hparam hle hdefault
    · cases hle
    · cases hparam
      cases hdefault
    · cases hparam
  · obtain ⟨values, hbind, hfills⟩ := h
    obtain ⟨hlength, hmore⟩ := hfills.collects nofun
    exact ⟨values, hbind, hfills.slots 1 _ rfl (hlength ▸ (by decide : 1 < 3)), hlength, hmore⟩

end Signature

end TwigToLatte
