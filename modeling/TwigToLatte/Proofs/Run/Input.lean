import TwigToLatte.Proofs.Latte.References
import TwigToLatte.Proofs.Run.Outcome

/-!
# The template after its conversion

A run that converts a template writes the result, and may have to move another file aside for that.
Either may hit the template itself.

* `Path.apart_latte` — the result of a template with one of Twig's extensions is another file.
* `run_keeps_input_iff` — **when a template is still there after its conversion**.
* `run_loses_input` — three templates that are not.
-/

namespace TwigToLatte

variable {tree : FileTree}

/-- Next to a file with one of Twig's extensions, the one with that of Latte is another file, and so
is the one that keeps an older version of it. -/
theorem Path.apart_latte {stem ending : String}
    (hending : ending = ".twig" ∨ ending = ".twig.html") {i p : Location} {name : String}
    {route : Route} (hfind : tree.find (stem ++ ending) = .ok i)
    (hroute : Route.ofPath (stem ++ ".latte") = .ok route) (hends : route.Ends p name) :
    Path.crossed (stem ++ ending) = Path.crossed (stem ++ ".latte") ∧ i ≠ p ++ [name] ∧
      i ≠ Location.backup (p ++ [name]) := by
  obtain ⟨route', hroute', -, rfl, -⟩ := FileTree.find_eq_ok_iff.mp hfind
  obtain ⟨crossed, q, last, hstem⟩ := Route.exists_ends stem
  have hslash : '/' ∉ ending.toList ∧ ending ≠ "" ∧ 2 < ending.length := by
    rcases hending with rfl | rfl <;> decide
  obtain ⟨-, hcrossed, hnames, -⟩ := hstem ".latte" route (by decide) hroute nofun
  obtain ⟨-, hcrossed', -, hends'⟩ :=
    hstem ending route' hslash.1 hroute' fun h => absurd h hslash.2.1
  obtain ⟨rfl, rfl⟩ := hnames p name hends
  have hne : ∀ tail : String, ending ≠ tail → p ++ [last ++ ending] ≠ p ++ [last ++ tail] := by
    intro tail htail h
    have hname : last ++ ending = last ++ tail :=
      List.head_eq_of_cons_eq (List.append_cancel_left h)
    exact htail ((String.append_right_inj last).mp hname)
  rw [(hends' hslash.2.2).goal_eq, Path.crossed, hroute', Path.crossed, hroute,
    Location.backup_append, String.append_assoc]
  refine ⟨hcrossed'.trans hcrossed.symm, hne _ ?_, hne _ ?_⟩ <;>
    rcases hending with rfl | rfl <;> decide

/-- **When a template is still there after its conversion**: its path must not lead through the
file that is written; if it is that file, the result must be the same text; and if it stands where
an older version of that file goes, so must be that version. None of this happens to a template
with one of Twig's extensions whose result goes beside it. -/
theorem run_keeps_input_iff {arguments : Arguments} {readConfig : String → Option Config}
    {input : String} {output? : Option String} {tree tree' : FileTree} {journal : Journal}
    (hcommand : arguments.command = .convert input output?)
    (hrun : run FileTree.disk arguments readConfig tree = ((.ok (), journal), tree')) :
    ∃ text config conversion i o, tree.load input = .ok text ∧ tree.find input = .ok i ∧
      Run.settings? readConfig tree arguments.config = some config ∧
      (convert (config.dialect arguments.lenient)
        { text, name := (Path.fileName? input).getD input, path := some input }).result =
          .ok conversion ∧
      tree'.find (output?.getD (Path.defaultOutput input)) = .ok o ∧
      tree'.load (output?.getD (Path.defaultOutput input)) = .ok conversion.code ∧
      (tree'.load input = .ok text ↔ o ∉ Path.crossed input ∧ (i = o → conversion.code = text) ∧
        (i = o.backup → ∀ old, tree.content? o = some old → String.fromUTF8? old = some text)) ∧
      (output? = none → (∃ stem, input = stem ++ ".twig" ∨ input = stem ++ ".twig.html") →
        tree'.load input = .ok text) := by
  obtain ⟨text, config, conversion, tree₁, hload, hsettings, hresult, haside, hstore⟩ :=
    Run.convert_ok hcommand hrun
  obtain ⟨o, hreplaces, houtput, hcode, route, p, name, hroute, hends, -, rfl⟩ :=
    FileTree.replaces_of_store haside hstore
  obtain ⟨i, content, hfind, hcontent, hutf8⟩ := FileTree.load_eq_ok_iff.mp hload
  have hiff := hreplaces.load_iff hfind hload
  refine ⟨text, config, conversion, i, p ++ [name], hload, hfind, hsettings, hresult, houtput, hcode,
    hiff, ?_⟩
  rintro rfl ⟨stem, hinput⟩
  obtain ⟨ending, hending, rfl, hdefault⟩ : ∃ ending, (ending = ".twig" ∨ ending = ".twig.html") ∧
      input = stem ++ ending ∧ Path.defaultOutput input = stem ++ ".latte" := by
    rcases hinput with rfl | rfl
    · exact ⟨_, .inl rfl, rfl, Latte.defaultOutput_twig stem⟩
    · exact ⟨_, .inr rfl, rfl, Latte.defaultOutput_html stem⟩
  rw [Option.getD_none, hdefault] at hroute houtput
  obtain ⟨hcrossed, hne, hne'⟩ := Path.apart_latte hending hfind hroute hends
  refine hiff.mpr ⟨?_, fun h => absurd h hne, fun h => absurd h hne'⟩
  rw [hcrossed]
  exact hreplaces.notMem_crossed houtput

/-! ## Templates and older versions -/

/-- The files after a run that succeeds. -/
def filesAfter? (arguments : Arguments) (tree : FileTree) : Option FileTree :=
  match run FileTree.disk arguments Config.read? tree with
  | ((.ok _, _), tree') => some tree'
  | ((.error _, _), _) => none

theorem exists_run_of_any {arguments : Arguments} {p : FileTree → Bool}
    (h : (filesAfter? arguments tree).any p = true) :
    ∃ journal tree', run FileTree.disk arguments Config.read? tree = ((.ok (), journal), tree') ∧
      p tree' = true := by
  rcases hrun : run FileTree.disk arguments Config.read? tree with ⟨⟨_ | _, journal⟩, tree'⟩
  · rw [filesAfter?, hrun] at h
    cases h
  · rw [filesAfter?, hrun] at h
    exact ⟨journal, tree', rfl, h⟩

/-- A template with two older versions of its result. -/
def shopPages : FileTree :=
  ⟨[(["shop", "page.twig"], "\x7b\x7b a \x7d\x7d".toUTF8), (["shop", "page.latte"], "old".toUTF8),
    (["shop", "page.latte.bak"], "older".toUTF8)]⟩

theorem run_keeps_input_iff_shopPages :
    ∃ journal tree',
      run FileTree.disk { command := .convert "shop/page.twig" none } Config.read? shopPages =
        ((.ok (), journal), tree') ∧
      shopPages.load "shop/page.twig" = .ok "\x7b\x7b a \x7d\x7d" ∧
      tree'.load "shop/page.twig" = .ok "\x7b\x7b a \x7d\x7d" ∧
      tree'.load "shop/page.latte" = .ok "\x7b$a\x7d" ∧
      tree'.load "shop/page.latte.bak" = .ok "old" := by
  have hfiles : (filesAfter? { command := .convert "shop/page.twig" none } shopPages).any
      (fun tree' => decide (tree'.load "shop/page.latte" = .ok "\x7b$a\x7d" ∧
        tree'.load "shop/page.latte.bak" = .ok "old")) = true := by
    simp only [filesAfter?, run, Run.call, Run.loadConfig, Run.command, Run.convertTo,
      Run.convertFile, convert, Template.convert, Dialect.runStages, Dialect.stages_eq,
      Template.parse, Dialect.tokenize, Lexer.tokenize, Pattern.orderSymbols_eq]
    decide +kernel
  obtain ⟨journal, tree', hrun, hwritten⟩ := exists_run_of_any hfiles
  have hload : shopPages.load "shop/page.twig" = .ok "\x7b\x7b a \x7d\x7d" := by decide +kernel
  obtain ⟨text, _, _, _, _, htext, _, _, _, _, _, _, hkept⟩ := run_keeps_input_iff rfl hrun
  obtain rfl := Except.ok.inj (htext.symm.trans hload)
  exact ⟨journal, tree', hrun, hload, hkept rfl ⟨"shop/page", .inl (by decide)⟩,
    of_decide_eq_true hwritten⟩

/-- **Three templates that are lost**: one that stands where an older version of its result goes, one
that is its own result, and one whose directory gives way to its result. -/
theorem run_loses_input :
    (∃ journal tree',
      run FileTree.disk { command := .convert "page.latte.bak" (some "page.latte") } Config.read?
          ⟨[(["page.latte.bak"], "\x7b\x7b a \x7d\x7d".toUTF8), (["page.latte"], "old".toUTF8)]⟩ =
        ((.ok (), journal), tree') ∧
      tree'.load "page.latte.bak" = .ok "old") ∧
    (∃ journal tree',
      run FileTree.disk { command := .convert "page.latte" none } Config.read?
          ⟨[(["page.latte"], "\x7b\x7b a \x7d\x7d".toUTF8)]⟩ =
        ((.ok (), journal), tree') ∧
      tree'.load "page.latte" = .ok "\x7b$a\x7d") ∧
    (∃ journal tree',
      run FileTree.disk { command := .convert "shop/page.twig" (some "shop") } Config.read? shopPages =
        ((.ok (), journal), tree') ∧
      tree'.load "shop/page.twig" = .error .notDirectory) := by
  have hfiles : ((filesAfter? { command := .convert "page.latte.bak" (some "page.latte") }
        ⟨[(["page.latte.bak"], "\x7b\x7b a \x7d\x7d".toUTF8), (["page.latte"], "old".toUTF8)]⟩).any
          (fun tree' => decide (tree'.load "page.latte.bak" = .ok "old")) &&
      ((filesAfter? { command := .convert "page.latte" none }
        ⟨[(["page.latte"], "\x7b\x7b a \x7d\x7d".toUTF8)]⟩).any
          (fun tree' => decide (tree'.load "page.latte" = .ok "\x7b$a\x7d")) &&
      (filesAfter? { command := .convert "shop/page.twig" (some "shop") } shopPages).any
        (fun tree' => decide (tree'.load "shop/page.twig" = .error .notDirectory)))) = true := by
    simp only [filesAfter?, run, Run.call, Run.loadConfig, Run.command, Run.convertTo,
      Run.convertFile, convert, Template.convert, Dialect.runStages, Dialect.stages_eq,
      Template.parse, Dialect.tokenize, Lexer.tokenize, Pattern.orderSymbols_eq]
    decide +kernel
  rw [Bool.and_eq_true, Bool.and_eq_true] at hfiles
  obtain ⟨hbackup, hitself, hdirectory⟩ := hfiles
  refine ⟨?_, ?_, ?_⟩
  · obtain ⟨journal, tree', hrun, hload⟩ := exists_run_of_any hbackup
    exact ⟨journal, tree', hrun, of_decide_eq_true hload⟩
  · obtain ⟨journal, tree', hrun, hload⟩ := exists_run_of_any hitself
    exact ⟨journal, tree', hrun, of_decide_eq_true hload⟩
  · obtain ⟨journal, tree', hrun, hload⟩ := exists_run_of_any hdirectory
    exact ⟨journal, tree', hrun, of_decide_eq_true hload⟩

end TwigToLatte
