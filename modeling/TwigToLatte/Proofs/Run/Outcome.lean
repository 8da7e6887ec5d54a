import TwigToLatte.Proofs.Disk.Replacement
import TwigToLatte.Run

/-!
# Outcomes of runs

What a run has done, read off how it ended.

* `Run.Gives` — a run in a state ends with a result and leaves a state.
* `Run.Gives.bind` — the outcome of a run in two parts.
* `Run.Gives.convertFile_ok` — a conversion only reads.
* `Run.Gives.backUp_ok` — what is in the way of a file is moved aside.
* `Run.convert_ok` — **a run that converts a template reads one file and writes another one**.
-/

namespace TwigToLatte.Run

variable {α β σ : Type} {s s' : σ} {tree tree' : FileTree} {dialect : Dialect}
  {readConfig : String → Option Config}

/-- A run in a state ends with a result, and leaves another state. -/
def Gives (r : Run (StateM σ) α) (s : σ) (result : Except RunError α) (s' : σ) : Prop :=
  ∃ journal journal', r.run.run journal s = ((result, journal'), s')

/-- The settings that a run finds in a tree. -/
def settings? (readConfig : String → Option Config) (tree : FileTree) :
    Option String → Option Config
  | none => some {}
  | some path => (tree.load path).toOption.bind readConfig

/-! ## Parts of a run -/

/-- A run in two parts, the second of which depends on how the first one ends. -/
theorem run_bind_eq (r : Run (StateM σ) α) (f : α → Run (StateM σ) β) (journal : Journal) (s : σ) :
    (r >>= f).run.run journal s =
      (ExceptT.bindCont f (r.run.run journal s).1.1 : StateT Journal (StateM σ) (Except RunError β))
        (r.run.run journal s).1.2 (r.run.run journal s).2 :=
  rfl

variable {journal : Journal}

theorem run_bind_of_error {r : Run (StateM σ) α} {f : α → Run (StateM σ) β} {journal' : Journal}
    {e : RunError} (h : r.run.run journal s = ((.error e, journal'), s')) :
    (r >>= f).run.run journal s = ((.error e, journal'), s') := by
  rw [run_bind_eq, h]
  rfl

namespace Gives

variable {r : Run (StateM σ) α} {f : α → Run (StateM σ) β} {a : α} {result : Except RunError α}
  {records : Array Log.Record} {text path : String} {describe : Disk.Failure → RunError}
  {operation : StateM σ (Except Disk.Failure α)}

theorem bind {result : Except RunError β} (h : Gives (r >>= f) s result s') :
    (∃ a s₁, Gives r s (.ok a) s₁ ∧ Gives (f a) s₁ result s') ∨
      ∃ e, result = .error e ∧ Gives r s (.error e) s' := by
  obtain ⟨journal, journal', h⟩ := h
  rw [run_bind_eq] at h
  rcases hr : r.run.run journal s with ⟨⟨result₁, journal₁⟩, s₁⟩
  rw [hr] at h
  cases result₁ with
  | ok a => exact .inl ⟨a, s₁, ⟨journal, journal₁, hr⟩, journal₁, journal', h⟩
  | error e =>
    cases h
    exact .inr ⟨e, rfl, journal, _, hr⟩

theorem bind_ok {b : β} (h : Gives (r >>= f) s (.ok b) s') :
    ∃ a s₁, Gives r s (.ok a) s₁ ∧ Gives (f a) s₁ (.ok b) s' := by
  rcases h.bind with h | ⟨e, he, -⟩
  · exact h
  · cases he

theorem eq_of_pure (h : Gives (pure a) s result s') : result = .ok a ∧ s = s' := by
  obtain ⟨journal, journal', h⟩ := h
  cases h
  exact ⟨rfl, rfl⟩

theorem eq_of_throw {e : RunError} (h : Gives (throw e) s result s') :
    result = .error e ∧ s = s' := by
  obtain ⟨journal, journal', h⟩ := h
  cases h
  exact ⟨rfl, rfl⟩

theorem eq_of_logAll {result : Except RunError Unit} (h : Gives (logAll records) s result s') :
    result = .ok () ∧ s = s' := by
  obtain ⟨journal, journal', h⟩ := h
  cases h
  exact ⟨rfl, rfl⟩

theorem after_logAll {f : Unit → Run (StateM σ) α} (h : Gives (logAll records >>= f) s result s') :
    Gives (f ()) s result s' := by
  rcases h.bind with ⟨_, s₁, hlog, h⟩ | ⟨e, -, hlog⟩
  · obtain ⟨-, rfl⟩ := hlog.eq_of_logAll
    exact h
  · cases hlog.eq_of_logAll.1

theorem eq_of_print {result : Except RunError Unit} (h : Gives (print text) s result s') :
    result = .ok () ∧ s = s' := by
  obtain ⟨journal, journal', h⟩ := h
  cases h
  exact ⟨rfl, rfl⟩

theorem after_liftM {operation : StateM σ α} {result : Except RunError β}
    (h : Gives (liftM operation >>= f) s result s') :
    ∃ a s₁, operation s = (a, s₁) ∧ Gives (f a) s₁ result s' := by
  obtain ⟨journal, journal', h⟩ := h
  exact ⟨_, _, rfl, journal, journal', h⟩

/-- An operation is done, and the run goes on or ends as it did. -/
theorem of_attempt (h : Gives (attempt describe operation) s result s') :
    ∃ outcome, operation s = (outcome, s') ∧ result = outcome.mapError describe := by
  obtain ⟨outcome, s₁, hoperation, h⟩ := h.after_liftM
  cases outcome with
  | error failure =>
    obtain ⟨hresult, rfl⟩ := h.eq_of_throw
    exact ⟨_, hoperation, hresult⟩
  | ok a =>
    obtain ⟨hresult, rfl⟩ := h.eq_of_pure
    exact ⟨_, hoperation, hresult⟩

theorem attempt_ok (h : Gives (attempt describe operation) s (.ok a) s') :
    operation s = (.ok a, s') := by
  obtain ⟨outcome, hoperation, hresult⟩ := h.of_attempt
  cases outcome with
  | error failure => cases hresult
  | ok a' =>
    cases hresult
    exact hoperation

/-! ## Steps of a conversion -/

theorem read_ok (h : Gives (attempt describe (FileTree.disk.read path)) tree (.ok text) tree') :
    tree.load path = .ok text ∧ tree = tree' := by
  have hread : (tree.load path, tree) = (.ok text, tree') := h.attempt_ok
  exact Prod.mk.inj hread

theorem change_ok {f : FileTree → Except Disk.Failure FileTree}
    (h : Gives (attempt describe (FileTree.change f)) tree (.ok ()) tree') :
    f tree = .ok tree' := by
  have hchange := h.attempt_ok
  rw [FileTree.change] at hchange
  split at hchange
  · rename_i hf
    cases hchange
    exact hf
  · cases hchange

theorem loadConfig_ok {path : Option String} {config : Config}
    (h : Gives (loadConfig FileTree.disk readConfig path) tree (.ok config) tree') :
    tree = tree' ∧ settings? readConfig tree path = some config := by
  cases path with
  | none =>
    obtain ⟨hconfig, htree⟩ := h.eq_of_pure
    exact ⟨htree, congrArg some (Except.ok.inj hconfig).symm⟩
  | some path =>
    obtain ⟨text, tree₁, hread, h⟩ := h.bind_ok
    obtain ⟨hload, rfl⟩ := hread.read_ok
    split at h
    · cases h.eq_of_throw.1
    · rename_i hconfig
      obtain ⟨heq, htree⟩ := h.after_logAll.eq_of_pure
      obtain rfl := Except.ok.inj heq
      refine ⟨htree, ?_⟩
      rw [settings?, hload]
      exact hconfig

/-- A conversion reads the template and changes nothing. -/
theorem convertFile_ok {conversion : Conversion}
    (h : Gives (convertFile FileTree.disk dialect path) tree (.ok conversion) tree') :
    tree = tree' ∧ ∃ text, tree.load path = .ok text ∧
      (convert dialect
        { text, name := (Path.fileName? path).getD path, path := some path }).result =
          .ok conversion := by
  obtain ⟨found, tree₁, hfound, h⟩ := h.after_liftM
  obtain rfl : tree = tree₁ := congrArg Prod.snd hfound
  cases found with
  | false =>
    obtain ⟨_, _, hthrow, -⟩ := h.bind_ok
    cases hthrow.eq_of_throw.1
  | true =>
    obtain ⟨text, tree₂, hread, h⟩ := h.bind_ok
    obtain ⟨hload, rfl⟩ := hread.read_ok
    replace h := h.after_logAll
    split at h
    · rename_i hresult
      obtain ⟨hconversion, htree⟩ := h.eq_of_pure
      obtain rfl := Except.ok.inj hconversion
      exact ⟨htree, text, hload, hresult⟩
    · cases h.eq_of_throw.1

theorem backUp_ok (h : Gives (backUp FileTree.disk path) tree (.ok ()) tree') :
    tree.MovedAside path tree' := by
  obtain ⟨found, tree₁, hfound, h⟩ := h.after_liftM
  obtain rfl : tree = tree₁ := congrArg Prod.snd hfound
  cases found with
  | true =>
    obtain ⟨_, tree₂, hmove, h⟩ := h.bind_ok
    obtain ⟨-, rfl⟩ := h.eq_of_logAll
    exact .inl hmove.change_ok
  | false =>
    refine .inr ⟨fun l hl => ?_, h.eq_of_pure.2.symm⟩
    rw [FileTree.contains_of_find hl] at hfound
    cases hfound

theorem convertTo_ok {input output : String}
    (h : Gives (convertTo FileTree.disk dialect input output) tree (.ok ()) tree') :
    ∃ text conversion tree₁, tree.load input = .ok text ∧
      (convert dialect
        { text, name := (Path.fileName? input).getD input, path := some input }).result =
          .ok conversion ∧
      tree.MovedAside output tree₁ ∧ tree₁.store output conversion.code = .ok tree' := by
  obtain ⟨conversion, tree₁, hconvert, h⟩ := h.bind_ok
  obtain ⟨rfl, text, hload, hresult⟩ := hconvert.convertFile_ok
  obtain ⟨_, tree₂, hbackUp, h⟩ := h.bind_ok
  obtain ⟨_, tree₃, hwrite, h⟩ := h.bind_ok
  obtain ⟨-, rfl⟩ := h.eq_of_logAll
  exact ⟨text, conversion, tree₂, hload, hresult, hbackUp.backUp_ok, hwrite.change_ok⟩

end Gives

/-- **A run that converts a template reads it, moves aside what is in the way of the result, and
writes that.** -/
theorem convert_ok {arguments : Arguments} {input : String} {output? : Option String}
    (hcommand : arguments.command = .convert input output?)
    (hrun : run FileTree.disk arguments readConfig tree = ((.ok (), journal), tree')) :
    ∃ text config conversion tree₁, tree.load input = .ok text ∧
      settings? readConfig tree arguments.config = some config ∧
      (convert (config.dialect arguments.lenient)
        { text, name := (Path.fileName? input).getD input, path := some input }).result =
          .ok conversion ∧
      tree.MovedAside (output?.getD (Path.defaultOutput input)) tree₁ ∧
      tree₁.store (output?.getD (Path.defaultOutput input)) conversion.code = .ok tree' := by
  have h : Gives (call FileTree.disk readConfig arguments) tree (.ok ()) tree' :=
    ⟨{}, journal, hrun⟩
  obtain ⟨config, tree₁, hconfig, h⟩ := h.bind_ok
  obtain ⟨rfl, hsettings⟩ := hconfig.loadConfig_ok
  replace h := h.after_logAll
  rw [hcommand] at h
  obtain ⟨_, tree₃, hconvert, h⟩ := h.bind_ok
  obtain ⟨-, rfl⟩ := h.eq_of_print
  obtain ⟨text, conversion, tree₄, hload, hwritten⟩ := hconvert.convertTo_ok
  exact ⟨text, config, conversion, tree₄, hload, hsettings, hwritten⟩

end TwigToLatte.Run
