import TwigToLatte.Proofs.Disk.Laws
import TwigToLatte.Proofs.Run.Input

/-!
# Files before and after a run

A run reads what it needs and converts the template before it changes any file. Then it moves aside
what is in the way of the result, and writes that. On a disk that obeys its laws nothing is lost in
between.

* `Disk.Kept` — what was at a location before is at another one now.
* `Disk.UnchangedBut` — all other files are as they were.
* `Run.Gives.files_convertFile` — **a conversion leaves the files as they are**, whatever its outcome.
* `run_files` — **what a run that ends, in whichever way, has done to the files**.
-/

namespace TwigToLatte

namespace Disk

/-- What was at a location is at another one now: a file, or all files below it. -/
def Kept (files : Files) (location : Location) (files' : Files) (location' : Location) : Prop :=
  ∀ rest content, rest = [] ∨ files location = none → files (location ++ rest) = some content →
    files' (location' ++ rest) = some content

/-- Other files than those at the two locations are as they were, but for those below them if the
first one was a directory. -/
def UnchangedBut (files : Files) (location location' : Location) (files' : Files) : Prop :=
  ∀ x, x ≠ location → x ≠ location' →
    files' x = files x ∨ files.IsDirectory location ∧ (location <+: x ∨ location' <+: x)

variable {files files' files'' : Files} {l l' : Location}

theorem Kept.refl (files : Files) (l : Location) : Kept files l files l := fun _ _ _ h => h

theorem UnchangedBut.refl (files : Files) (l l' : Location) : UnchangedBut files l l' files :=
  fun _ _ _ => .inl rfl

theorem Moved.kept (h : Moved files l l' files') (hne : l ≠ l')
    (hfiles : ∀ x, x ≠ l → files'' x = files' x) : Kept files l files'' l' := by
  intro rest content hrest hcontent
  cases h with
  | same hsame => exact absurd hsame hne
  | file old hold hmoved =>
    have hnil : rest = [] := hrest.resolve_right fun hnone => nomatch hold.symm.trans hnone
    rw [hnil, List.append_nil] at hcontent ⊢
    rw [hfiles l' hne.symm, hmoved, if_pos rfl, ← hcontent, hold]
  | directory hsource hbelow habove hmoved hother =>
    have hapart : l' ++ rest ≠ l := fun h => habove (h ▸ List.prefix_append l' rest)
    rw [hfiles _ hapart, hmoved, hcontent]

theorem Moved.unchangedBut (h : Moved files l l' files') (hfiles : ∀ x, x ≠ l → files'' x = files' x) :
    UnchangedBut files l l' files'' := by
  intro x hx hx'
  rw [hfiles x hx]
  cases h with
  | same _ hsame => exact .inl (congrFun hsame x)
  | file old hold hmoved =>
    rw [hmoved, if_neg hx', if_neg hx]
    exact .inl rfl
  | directory hsource hbelow habove hmoved hother =>
    by_cases hl : l <+: x
    · exact .inr ⟨hsource, .inl hl⟩
    by_cases hl' : l' <+: x
    · exact .inr ⟨hsource, .inr hl'⟩
    · exact .inl (hother x hl hl')

/-- The settings in a file, or those that hold without one. -/
def View.Settings {σ : Type} (view : View σ) (readConfig : String → Option Config)
    (files : Files) : Option String → Config → Prop
  | none, config => config = {}
  | some path, config =>
    ∃ text, files (view.place path) = some text.toUTF8 ∧ readConfig text = some config

/-- What a run that fails leaves behind: it changes nothing before it writes its result, and what was
in place of that is still there, or at its backup. -/
structure View.Spares {σ : Type} (view : View σ) (output : String) (e : RunError)
    (files files' : Files) : Prop where
  unchanged : (∀ failure, e ≠ .inaccessible output failure) → files' = files
  kept : Kept files (view.place output) files' (view.place output) ∨
    Kept files (view.place output) files' (view.place (Path.backup output))
  other : UnchangedBut files (view.place output) (view.place (Path.backup output)) files'

theorem View.Spares.of_eq {σ : Type} {view : View σ} {output : String} {e : RunError}
    (h : files' = files) : view.Spares output e files files' :=
  h ▸ ⟨fun _ => rfl, .inl (.refl _ _), .refl _ _ _⟩

/-- What a run that succeeds leaves behind: its result, and at the backup what was in place of that. -/
structure View.Replaces {σ : Type} (view : View σ) (output code : String)
    (files files' : Files) : Prop where
  written : files' (view.place output) = some code.toUTF8
  kept : Kept files (view.place output) files' (view.place (Path.backup output))
  other : UnchangedBut files (view.place output) (view.place (Path.backup output)) files'

end Disk

namespace Run.Gives

variable {σ : Type} {disk : Disk (StateM σ)} {view : Disk.View σ} (hdisk : disk.Faithful view)
  {dialect : Dialect} {s s' : σ}

include hdisk

/-! ## Parts of a run -/

variable {path : String} {result : Except RunError Unit}

theorem files_read {describe : Disk.Failure → RunError} {result : Except RunError String}
    (h : Gives (attempt describe (disk.read path)) s result s') :
    view.files s' = view.files s ∧ (∀ e, result = .error e → ∃ failure, e = describe failure) ∧
      ∀ text, result = .ok text → view.files s (view.place path) = some text.toUTF8 := by
  obtain ⟨outcome, hread, rfl⟩ := h.of_attempt
  obtain ⟨hfiles, htext⟩ := hdisk.read _ _ _ _ hread
  cases outcome with
  | error failure =>
    refine ⟨hfiles, ?_, nofun⟩
    rintro e ⟨⟩
    exact ⟨failure, rfl⟩
  | ok text =>
    refine ⟨hfiles, nofun, ?_⟩
    rintro _ ⟨⟩
    exact htext text rfl

/-- Reading the settings leaves the files as they are. -/
theorem files_loadConfig {readConfig : String → Option Config} {path : Option String}
    {result : Except RunError Config} (h : Gives (loadConfig disk readConfig path) s result s') :
    view.files s' = view.files s ∧
      ∀ config, result = .ok config → view.Settings readConfig (view.files s) path config := by
  cases path with
  | none =>
    obtain ⟨rfl, rfl⟩ := h.eq_of_pure
    refine ⟨rfl, ?_⟩
    rintro config ⟨⟩
    rfl
  | some path =>
    rcases h.bind with ⟨text, s₁, hread, h⟩ | ⟨e, rfl, hread⟩
    · obtain ⟨hfiles, -, htext⟩ := hread.files_read hdisk
      split at h
      · obtain ⟨rfl, rfl⟩ := h.eq_of_throw
        exact ⟨hfiles, nofun⟩
      · rename_i config hconfig
        obtain ⟨rfl, rfl⟩ := h.after_logAll.eq_of_pure
        refine ⟨hfiles, ?_⟩
        rintro config ⟨⟩
        exact ⟨text, htext text rfl, hconfig⟩
    · exact ⟨(hread.files_read hdisk).1, nofun⟩

theorem files_convertFile {result : Except RunError Conversion}
    (h : Gives (convertFile disk dialect path) s result s') :
    view.files s' = view.files s ∧
      (∀ e, result = .error e → ∀ other failure, e ≠ .inaccessible other failure) ∧
      ∀ conversion, result = .ok conversion → ∃ text,
        view.files s (view.place path) = some text.toUTF8 ∧
        (convert dialect
          { text, name := (Path.fileName? path).getD path, path := some path }).result =
            .ok conversion := by
  obtain ⟨found, s₁, hfound, h⟩ := h.after_liftM
  have hfiles₁ : view.files s₁ = view.files s := by
    rw [← hdisk.isFile path s, hfound]
  cases found with
  | false =>
    rcases h.bind with ⟨_, _, hthrow, -⟩ | ⟨e, rfl, hthrow⟩
    · cases hthrow.eq_of_throw.1
    · obtain ⟨he, rfl⟩ := hthrow.eq_of_throw
      refine ⟨hfiles₁, ?_, nofun⟩
      rintro _ ⟨⟩ other failure rfl
      cases he
  | true =>
    rcases h.bind with ⟨text, s₂, hread, h⟩ | ⟨e, rfl, hread⟩
    · obtain ⟨hfiles₂, -, htext⟩ := hread.files_read hdisk
      rw [hfiles₁] at hfiles₂ htext
      replace h := h.after_logAll
      split at h
      · rename_i conversion hresult
        obtain ⟨rfl, rfl⟩ := h.eq_of_pure
        refine ⟨hfiles₂, nofun, ?_⟩
        rintro _ ⟨⟩
        exact ⟨text, htext text rfl, hresult⟩
      · obtain ⟨rfl, rfl⟩ := h.eq_of_throw
        refine ⟨hfiles₂, ?_, nofun⟩
        rintro _ ⟨⟩ other failure
        exact nofun
    · obtain ⟨hfiles₂, herror, -⟩ := hread.files_read hdisk
      refine ⟨hfiles₂.trans hfiles₁, ?_, nofun⟩
      rintro _ ⟨⟩ other failure rfl
      obtain ⟨_, h⟩ := herror _ rfl
      cases h

/-- What is in the way of a file is moved aside, or cannot be moved, or nothing is seen there. -/
theorem files_backUp (h : Gives (backUp disk path) s result s') :
    (∃ failure, result = .error (.inaccessible path failure) ∧ view.files s' = view.files s) ∨
      result = .ok () ∧ (disk.contains path s = (false, s') ∨
        view.place path ≠ view.place (Path.backup path) ∧
        Disk.Moved (view.files s) (view.place path) (view.place (Path.backup path))
          (view.files s')) := by
  obtain ⟨found, s₁, hfound, h⟩ := h.after_liftM
  have hfiles₁ : view.files s₁ = view.files s := by
    rw [← hdisk.contains path s, hfound]
  cases found with
  | false =>
    obtain ⟨rfl, rfl⟩ := h.eq_of_pure
    exact .inr ⟨rfl, .inl hfound⟩
  | true =>
    rcases h.bind with ⟨_, s₂, hmove, h⟩ | ⟨e, rfl, hmove⟩
    · obtain ⟨rfl, rfl⟩ := h.eq_of_logAll
      have hmove := hmove.attempt_ok
      refine .inr ⟨rfl, .inr ⟨hdisk.apart _ _ _ hmove, ?_⟩⟩
      rw [← hfiles₁]
      exact hdisk.rename_ok _ _ _ _ hmove
    · obtain ⟨outcome, hrename, heq⟩ := hmove.of_attempt
      cases outcome with
      | ok => cases heq
      | error failure =>
        cases heq
        exact .inl ⟨failure, rfl, (hdisk.rename_error _ _ _ _ _ hrename).trans hfiles₁⟩

theorem files_write {text : String}
    (h : Gives (attempt (.inaccessible path) (disk.write path text)) s result s') :
    (∃ failure, result = .error (.inaccessible path failure) ∧ view.files s' = view.files s) ∨
      result = .ok () ∧ disk.write path text s = (.ok (), s') := by
  obtain ⟨outcome, hwrite, rfl⟩ := h.of_attempt
  cases outcome with
  | error failure => exact .inl ⟨failure, rfl, hdisk.write_error _ _ _ _ _ hwrite⟩
  | ok => exact .inr ⟨rfl, hwrite⟩

/-- A conversion that fails before it changes a file changes none; one that fails later keeps what
it has moved aside; and one that succeeds has replaced a file. -/
theorem files_convertTo {input output : String}
    (h : Gives (convertTo disk dialect input output) s result s') :
    (∀ e, result = .error e → view.Spares output e (view.files s) (view.files s')) ∧
      (result = .ok () → ∃ text conversion, view.files s (view.place input) = some text.toUTF8 ∧
        (convert dialect
          { text, name := (Path.fileName? input).getD input, path := some input }).result =
            .ok conversion ∧
        view.Replaces output conversion.code (view.files s) (view.files s')) := by
  rcases h.bind with ⟨conversion, s₁, hconvert, h⟩ | ⟨e, rfl, hconvert⟩
  swap
  · exact ⟨fun e' _ => .of_eq (hconvert.files_convertFile hdisk).1, nofun⟩
  obtain ⟨hfiles₁, -, htext⟩ := hconvert.files_convertFile hdisk
  obtain ⟨text, hinput, hresult⟩ := htext conversion rfl
  rw [← hfiles₁] at hinput ⊢
  rcases h.bind with ⟨_, s₂, hbackUp, h⟩ | ⟨e, rfl, hbackUp⟩
  swap
  · obtain ⟨failure, -, hfiles₂⟩ | ⟨hok, -⟩ := hbackUp.files_backUp hdisk
    · exact ⟨fun e' _ => .of_eq hfiles₂, nofun⟩
    · cases hok
  obtain ⟨_, herror, -⟩ | ⟨-, haside⟩ := hbackUp.files_backUp hdisk
  · cases herror
  rcases h.bind with ⟨_, s₃, hwrite, h⟩ | ⟨e, rfl, hwrite⟩
  · obtain ⟨rfl, rfl⟩ := h.eq_of_logAll
    obtain ⟨_, herror, -⟩ | ⟨-, hwrite⟩ := hwrite.files_write hdisk
    · cases herror
    refine ⟨nofun, fun _ => ⟨text, conversion, hinput, hresult, ?_⟩⟩
    have hwritten := hdisk.write_ok _ _ _ _ hwrite
    have hother : ∀ x, x ≠ view.place output → view.files s₃ x = view.files s₂ x := by
      intro x hx
      rw [hwritten, if_neg hx]
    have hcode : view.files s₃ (view.place output) = some conversion.code.toUTF8 := by
      rw [hwritten, if_pos rfl]
    rcases haside with hcontains | ⟨hne, hmoved⟩
    · have hnew := hdisk.new _ _ _ _ _ hcontains hwrite
      have hfiles₂ : view.files s₂ = view.files s₁ := by
        rw [← hdisk.contains output s₁, hcontains]
      refine ⟨hcode, fun rest content _ hcontent => ?_, fun x hx _ => .inl ?_⟩
      · cases (hnew rest).symm.trans hcontent
      · rw [hother x hx, hfiles₂]
    · exact ⟨hcode, hmoved.kept hne hother, hmoved.unchangedBut hother⟩
  · obtain ⟨failure, he, hfiles₃⟩ | ⟨hok, -⟩ := hwrite.files_write hdisk
    swap
    · cases hok
    refine ⟨?_, nofun⟩
    rintro _ ⟨⟩
    rcases haside with hcontains | ⟨hne, hmoved⟩
    · refine .of_eq (hfiles₃.trans ?_)
      rw [← hdisk.contains output s₁, hcontains]
    · rw [hfiles₃]
      exact ⟨fun h => absurd (Except.error.inj he) (h failure), .inr (hmoved.kept hne fun _ _ => rfl),
        hmoved.unchangedBut fun _ _ => rfl⟩

end Run.Gives

/-- **What a run that ends, in whichever way, has done to the files.** One that checks a template has
done nothing. One that converts a template has done nothing if the settings cannot be read, and
nothing if it fails for another reason than that the result cannot be written; if it fails at all,
what was in place of the result is there or at its backup. If it succeeds, the result is written,
what was in its place is at its backup, and all other files are as they were. -/
theorem run_files {σ : Type} {disk : Disk (StateM σ)} {view : Disk.View σ}
    (hdisk : disk.Faithful view) {arguments : Arguments} {readConfig : String → Option Config}
    {s s' : σ} {result : Except RunError Unit} {journal : Journal}
    (hrun : run disk arguments readConfig s = ((result, journal), s')) :
    (∀ input, arguments.command = .check input → view.files s' = view.files s) ∧
    (∀ e journal₁ s₁,
      (Run.loadConfig disk readConfig arguments.config).run.run {} s = ((.error e, journal₁), s₁) →
        result = .error e ∧ view.files s' = view.files s) ∧
    ∀ input output? output, arguments.command = .convert input output? →
      output = output?.getD (Path.defaultOutput input) →
      (∀ e, result = .error e → view.Spares output e (view.files s) (view.files s')) ∧
      (result = .ok () → ∃ text config conversion,
        view.Settings readConfig (view.files s) arguments.config config ∧
        view.files s (view.place input) = some text.toUTF8 ∧
        (convert (config.dialect arguments.lenient)
          { text, name := (Path.fileName? input).getD input, path := some input }).result =
            .ok conversion ∧
        view.Replaces output conversion.code (view.files s) (view.files s')) := by
  have h : Run.Gives (Run.call disk readConfig arguments) s result s' := ⟨{}, journal, hrun⟩
  have hconfig : ∀ e journal₁ s₁,
      (Run.loadConfig disk readConfig arguments.config).run.run {} s = ((.error e, journal₁), s₁) →
        result = .error e ∧ view.files s' = view.files s := by
    intro e journal₁ s₁ hload
    have heq := hrun.symm.trans (Run.run_bind_of_error hload)
    cases heq
    exact ⟨rfl, (Run.Gives.files_loadConfig hdisk ⟨_, _, hload⟩).1⟩
  rcases h.bind with ⟨config, s₁, hload, h⟩ | ⟨e, rfl, hload⟩
  · obtain ⟨hfiles₁, hsettings⟩ := hload.files_loadConfig hdisk
    replace h := h.after_logAll
    rw [← hfiles₁] at hsettings hconfig ⊢
    refine ⟨fun input hcommand => ?_, hconfig, ?_⟩
    · rw [hcommand] at h
      rcases h.bind with ⟨conversion, s₂, hconvert, h⟩ | ⟨e, -, hconvert⟩
      · obtain ⟨-, rfl⟩ := h.eq_of_print
        exact (hconvert.files_convertFile hdisk).1
      · exact (hconvert.files_convertFile hdisk).1
    · rintro input output? output hcommand rfl
      rw [hcommand] at h
      rcases h.bind with ⟨_, s₂, hconvert, h⟩ | ⟨e, rfl, hconvert⟩
      · obtain ⟨rfl, rfl⟩ := h.eq_of_print
        refine ⟨nofun, fun _ => ?_⟩
        obtain ⟨text, conversion, hinput, hresult, hreplaces⟩ :=
          (hconvert.files_convertTo hdisk).2 rfl
        exact ⟨text, config, conversion, hsettings config rfl, hinput, hresult, hreplaces⟩
      · refine ⟨?_, nofun⟩
        rintro _ ⟨⟩
        exact (hconvert.files_convertTo hdisk).1 e rfl
  · have hfiles := (hload.files_loadConfig hdisk).1
    exact ⟨fun _ _ => hfiles, hconfig, fun _ _ _ _ _ => ⟨fun _ _ => .of_eq hfiles, nofun⟩⟩

/-- An older result is replaced and kept. If the third operation fails, which is to write the new one,
the older one is kept too. -/
theorem run_files_shopPages :
    (∃ journal tree',
      run FileTree.disk { command := .convert "shop/page.twig" none } Config.read? shopPages =
        ((.ok (), journal), tree') ∧
      tree'.content? ["shop", "page.latte.bak"] = some "old".toUTF8) ∧
    ∃ e journal tree' plan,
      run FileTree.disk.interrupted { command := .convert "shop/page.twig" none } Config.read?
        (shopPages, [none, none, some .notFound]) = ((.error e, journal), tree', plan) ∧
      (tree'.content? ["shop", "page.latte"] = some "old".toUTF8 ∨
        tree'.content? ["shop", "page.latte.bak"] = some "old".toUTF8) := by
  have hold : FileTree.view.files shopPages (FileTree.view.place "shop/page.latte" ++ []) =
      some "old".toUTF8 := by
    decide +kernel
  have houtput : "shop/page.latte" =
      (none : Option String).getD (Path.defaultOutput "shop/page.twig") := by
    decide +kernel
  have hplace : FileTree.view.place "shop/page.latte" ++ [] = ["shop", "page.latte"] := by
    decide +kernel
  have hbackup : FileTree.view.place (Path.backup "shop/page.latte") ++ [] =
      ["shop", "page.latte.bak"] := by
    decide +kernel
  constructor
  · have hfiles : (filesAfter? { command := .convert "shop/page.twig" none } shopPages).any
        (fun _ => true) = true := by
      simp only [filesAfter?, run, Run.call, Run.loadConfig, Run.command, Run.convertTo,
        Run.convertFile, convert, Template.convert, Dialect.runStages, Dialect.stages_eq,
        Template.parse, Dialect.tokenize, Lexer.tokenize, Pattern.orderSymbols_eq]
      decide +kernel
    obtain ⟨journal, tree', hrun, -⟩ := exists_run_of_any hfiles
    obtain ⟨-, -, hconvert⟩ := run_files FileTree.faithful_disk hrun
    obtain ⟨_, _, _, -, -, -, hreplaces⟩ := (hconvert _ _ _ rfl houtput).2 rfl
    have hkept := hreplaces.kept [] _ (.inl rfl) hold
    rw [hbackup] at hkept
    exact ⟨journal, tree', hrun, hkept⟩
  · have hfails : (run FileTree.disk.interrupted { command := .convert "shop/page.twig" none }
        Config.read? (shopPages, [none, none, some .notFound])).1.1.toOption = none := by
      simp only [run, Run.call, Run.loadConfig, Run.command, Run.convertTo, Run.convertFile, convert,
        Template.convert, Dialect.runStages, Dialect.stages_eq, Template.parse, Dialect.tokenize,
        Lexer.tokenize, Pattern.orderSymbols_eq]
      decide +kernel
    rcases hrun : run FileTree.disk.interrupted { command := .convert "shop/page.twig" none }
        Config.read? (shopPages, [none, none, some .notFound]) with ⟨⟨e | _, journal⟩, tree', plan⟩
    swap
    · rw [hrun] at hfails
      cases hfails
    obtain ⟨-, -, hconvert⟩ := run_files FileTree.faithful_disk.interrupted hrun
    refine ⟨e, journal, tree', plan, rfl, ?_⟩
    refine ((hconvert _ _ _ rfl houtput).1 e rfl).kept.imp (fun hkept => ?_) fun hkept => ?_
    · have hcontent := hkept [] _ (.inl rfl) hold
      exact hplace ▸ hcontent
    · have hcontent := hkept [] _ (.inl rfl) hold
      exact hbackup ▸ hcontent

end TwigToLatte
