import TwigToLatte.Conversion
import TwigToLatte.Dialect.Core
import TwigToLatte.Path
import TwigToLatte.Proofs.Latte.Quoting
import TwigToLatte.Proofs.Latte.Script
import TwigToLatte.Proofs.Lexer.Symbols
import TwigToLatte.Proofs.Pass.Plain
import TwigToLatte.Proofs.Text.Replace

/-!
# Names of other templates

Tags name other templates by string literals, in which the extension of Latte stands for that of
Twig. A converted template is stored where its own name says.

* `denoted?` — the string that a literal in quotes stands for.
* `renamed_quotedChars` — replacing extensions in a literal replaces them in what it denotes.
* `latteExtension_eq_defaultOutput_iff` — the new name of a template and its file.
* `Emit.codeAfter` — the code that is there when a part of a template is written.
* `codeAfter_statement_of_reference?` — a tag begins with the name of a template.
* `reference_denotes_output` — **which names in tags are the names of the converted files**.
* `reference_ne_output` — two names that are not.
-/

namespace TwigToLatte.Latte

open List

open Text

/-! ## What a literal denotes -/

/-- The string that a literal in quotes stands for. -/
def denoted? (literal : String) : Option String :=
  match literal.toList with
  | [] => none
  | quote :: rest =>
    if quote = '\'' ∨ quote = '"' then
      (quotedLength? quote (fun _ => false) rest).bind fun length =>
        if rest.drop length = [quote] then some (unescape (String.ofList (rest.take length)))
        else none
    else none

variable {quote : Char} {write : Char → List Char} {path name written : String} {e : Expr}
  {scope : Scope}

theorem denoted?_quoted (hquote : quote = '\'' ∨ quote = '"')
    (hwrite : ∀ c, Escape quote c (write c)) (cs : List Char) :
    denoted? (String.ofList (quote :: cs.flatMap write ++ [quote])) = some (String.ofList cs) := by
  have hplain : quote ≠ '\\' ∧ quote ≠ '#' := by rcases hquote with rfl | rfl <;> decide
  have hlength : quotedLength? quote (fun _ => false) (cs.flatMap write ++ [quote]) =
      some (cs.flatMap write).length :=
    quotedLength?_flatMap hwrite (fun _ _ => rfl) (fun _ _ => rfl) hplain []
  rw [denoted?, String.toList_ofList, cons_append]
  dsimp only
  rw [if_pos hquote, hlength, Option.bind_some, drop_left, if_pos rfl, take_left, unescape,
    String.toList_ofList, unescapeChars_flatMap hwrite]

/-- **A string in quotes denotes itself.** -/
theorem denoted?_quotedChars (cs : List Char) :
    denoted? (String.ofList (quotedChars cs)) = some (String.ofList cs) := by
  unfold quotedChars
  split
  · exact denoted?_quoted (.inr rfl) escape_double cs
  · exact denoted?_quoted (.inl rfl) escape_single cs

/-! ## Replacing an extension in quotes -/

/-- The extension of templates after its dot. -/
def twigTail : List Char := ['t', 'w', 'i', 'g']

/-- The extension of Latte templates. -/
def latteEnding : List Char := ['.', 'l', 'a', 't', 't', 'e']

/-- A name with every extension replaced. -/
def renamed (cs : List Char) : List Char := replaceChars ('.' :: twigTail) latteEnding 0 cs

theorem latteExtension_eq (name : String) :
    latteExtension name = String.ofList (renamed name.toList) := rfl

theorem setsApart_single : SetsApart '.' twigTail escapeSingle := by
  intro c hc
  unfold escapeSingle
  split
  · refine ⟨'\\', [c], rfl, by decide, fun hmem => hc ?_⟩
    rw [mem_singleton.mp hmem]
    exact mem_cons_self
  · exact ⟨c, [], rfl, hc, not_mem_nil⟩

theorem setsApart_double : SetsApart '.' twigTail escapeDouble := by
  intro c hc
  unfold escapeDouble
  split
  case h_10 =>
    split
    · refine ⟨'\\', octal c.toNat, rfl, by decide, fun hmem => ?_⟩
      have hdigits : ∀ d < 8, '.' ≠ Nat.digitChar d := by decide
      have hdigit : ∀ n, '.' ≠ Nat.digitChar (n % 8) := fun n =>
        hdigits _ (Nat.mod_lt _ (by decide))
      simp only [octal, mem_cons, not_mem_nil, or_false] at hmem
      rcases hmem with h | h | h <;> exact hdigit _ h
    · exact ⟨c, [], rfl, hc, not_mem_nil⟩
  all_goals exact ⟨'\\', _, rfl, by decide, by decide⟩

/-- A quoted string is not taken apart where its extension is replaced. -/
theorem renamed_quoted (hquote : quote ∉ '.' :: twigTail)
    (hplain : ∀ c ∈ '.' :: twigTail, write c = [c]) (hlatte : ∀ c ∈ latteEnding, write c = [c])
    (hapart : SetsApart '.' twigTail write) (cs : List Char) :
    renamed (quote :: cs.flatMap write ++ [quote]) =
      quote :: (renamed cs).flatMap write ++ [quote] := by
  obtain ⟨hfirst, htail⟩ := not_or.mp (mt mem_cons.mpr hquote)
  have hopen : '.' ∉ [quote] := fun hmem => hfirst (mem_singleton.mp hmem).symm
  have hclose : renamed [quote] = [quote] := replaceChars_append_of_notMem hopen []
  calc renamed (quote :: cs.flatMap write ++ [quote])
      = [quote] ++ renamed (cs.flatMap write ++ [quote]) := replaceChars_append_of_notMem hopen _
    _ = [quote] ++ (renamed (cs.flatMap write) ++ renamed [quote]) :=
        congrArg ([quote] ++ ·) (replaceChars_append htail _ _)
    _ = quote :: (renamed cs).flatMap write ++ [quote] := by
        rw [hclose, renamed, replaceChars_flatMap hplain hlatte hapart]
        rfl

theorem renamed_quotedChars (cs : List Char) :
    renamed (quotedChars cs) = quotedChars (renamed cs) := by
  have hcontrol : (renamed cs).any isControl = cs.any isControl :=
    any_replaceChars (cons_ne_nil _ _) rfl rfl cs
  rw [quotedChars, quotedChars, hcontrol]
  split
  · exact renamed_quoted (by decide) (by simp [twigTail, escapeDouble, isControl])
      (by simp [latteEnding, escapeDouble, isControl]) setsApart_double cs
  · exact renamed_quoted (by decide) (by simp [twigTail, escapeSingle])
      (by simp [latteEnding, escapeSingle]) setsApart_single cs

/-! ## The written name and the file -/

theorem dropSuffix?_append (stem ending : List Char) :
    Path.dropSuffix? ending (stem ++ ending) = some stem := by
  rw [Path.dropSuffix?, if_pos (isSuffixOf_iff_suffix.mpr (suffix_append stem ending)),
    length_append, Nat.add_sub_cancel, take_left]

theorem dropSuffix?_eq_none {ending text : List Char} (h : ¬ ending <:+ text) :
    Path.dropSuffix? ending text = none :=
  if_neg (mt isSuffixOf_iff_suffix.mp h)

theorem append_twig_ne (stem stem' : List Char) :
    stem ++ ".twig.html".toList ≠ stem' ++ ".twig".toList := by
  intro h
  have hlast := congrArg List.getLast? h
  have hhtml : ".twig.html".toList.getLast? = some 'l' := by decide
  have htwig : ".twig".toList.getLast? = some 'g' := by decide
  rw [getLast?_append, getLast?_append, hhtml, htwig] at hlast
  exact absurd (Option.some.inj hlast) (by decide)

theorem defaultOutput_twig (stem : String) :
    Path.defaultOutput (stem ++ ".twig") = stem ++ ".latte" := by
  have hhtml : ¬ ".twig.html".toList <:+ stem.toList ++ ".twig".toList := by
    rintro ⟨stem', h⟩
    exact append_twig_ne _ _ h
  rw [Path.defaultOutput, String.toList_append, dropSuffix?_eq_none hhtml, dropSuffix?_append]
  exact String.toList_inj.mp (by rw [String.toList_ofList, String.toList_append])

theorem defaultOutput_html (stem : String) :
    Path.defaultOutput (stem ++ ".twig.html") = stem ++ ".latte" := by
  rw [Path.defaultOutput, String.toList_append, dropSuffix?_append]
  exact String.toList_inj.mp (by rw [String.toList_ofList, String.toList_append])

/-- The last extension is replaced after those before it. -/
theorem latteExtension_twig (stem : String) :
    latteExtension (stem ++ ".twig") = latteExtension stem ++ ".latte" := by
  have htail : '.' ∉ twigTail := by decide
  have hrenamed : renamed (stem.toList ++ '.' :: twigTail) =
      renamed stem.toList ++ renamed ('.' :: twigTail) := replaceChars_append htail _ _
  rw [← String.toList_inj, String.toList_append, latteExtension_eq, latteExtension_eq,
    String.toList_ofList, String.toList_ofList, String.toList_append]
  exact hrenamed

theorem latteExtension_eq_self_iff (name : String) :
    latteExtension name = name ↔ ¬ ".twig".toList <:+: name.toList := by
  have hrenamed : renamed name.toList = name.toList ↔ ¬ '.' :: twigTail <:+: name.toList :=
    replaceChars_eq_self_iff (cons_ne_nil _ _) (by decide) _
  rw [← String.toList_inj, latteExtension_eq, String.toList_ofList]
  exact hrenamed

/-- **The written name is the name of the file for a template with one extension only.** -/
theorem latteExtension_eq_defaultOutput_iff
    (h : (∃ stem, path = stem ++ ".twig") ∨ ∃ stem, path = stem ++ ".twig.html") :
    latteExtension path = Path.defaultOutput path ↔
      ∃ stem, path = stem ++ ".twig" ∧ ¬ ".twig".toList <:+: stem.toList := by
  rcases h with ⟨stem, rfl⟩ | ⟨stem, rfl⟩
  · rw [latteExtension_twig, defaultOutput_twig, String.append_left_inj, latteExtension_eq_self_iff]
    constructor
    · exact fun h => ⟨stem, rfl, h⟩
    · rintro ⟨stem', heq, h⟩
      rwa [(String.append_left_inj _).mp heq]
  · rw [defaultOutput_html]
    constructor
    · intro heq
      -- The name does not get shorter, but the file's does.
      have hle : (stem ++ ".twig.html").toList.length ≤
          (renamed (stem ++ ".twig.html").toList).length :=
        length_le_replaceChars (cons_ne_nil _ _) (by decide) _
      have hlength := congrArg (fun name => name.toList.length) heq
      simp only [latteExtension_eq, String.toList_ofList, String.toList_append, length_append]
        at hle hlength
      have hhtml : ".twig.html".toList.length = 10 := by decide
      have hlatte : ".latte".toList.length = 6 := by decide
      omega
    · rintro ⟨stem', heq, -⟩
      have hchars := congrArg String.toList heq
      rw [String.toList_append, String.toList_append] at hchars
      exact absurd hchars (append_twig_ne _ _)

/-! ## Written names -/

theorem isSymbol_eq_false {text : String} (h : '.' ∈ text.toList) : isSymbol text = false := by
  have hall : text.toList.all (fun c => isWordChar c || c == '-') = false := by
    refine all_eq_false.mpr ⟨'.', h, ?_⟩
    decide
  rw [isSymbol, isSymbolChars, hall]
  simp only [Bool.and_false, Bool.false_and]

theorem fileName_of_string? (he : e.string? = some path) (hdot : '.' ∈ path.toList) (scope : Scope) :
    fileName scope e = ⟨String.ofList (quotedChars (renamed path.toList)), none⟩ := by
  obtain ⟨kind, line, topmost⟩ := e
  cases kind with
  | constant value =>
    cases value with
    | string value =>
      cases he
      show Rendered.map latteExtension ⟨string path, none⟩ = _
      rw [string, isSymbol_eq_false hdot, if_neg Bool.false_ne_true]
      show Rendered.mk (latteExtension _) none = _
      rw [latteExtension_eq, String.toList_ofList, renamed_quotedChars]
    | _ => cases he
  | _ => cases he

/-- The code that is there when a computation ends, be it with an error. -/
def Emit.codeAfter {α : Type} (m : Emit α) (out : Output) : String :=
  match m out with
  | .ok _ after => after.text
  | .error _ after => after.text

/-- The computation writes after what is there. -/
def Emit.Extends {α : Type} (m : Emit α) : Prop :=
  ∀ out, ∃ more, m.codeAfter out = out.text ++ more

namespace Emit

variable {α β : Type} {m : Emit α} {k : α → Emit β}

theorem codeAfter_bind (m : Emit α) (k : α → Emit β) (out : Output) :
    (m >>= k).codeAfter out =
      match m out with
      | .ok a after => (k a).codeAfter after
      | .error _ after => after.text := by
  rw [codeAfter, bind, Monad.toBind, EStateM.instMonad]
  simp only [EStateM.bind]
  cases m out <;> rfl

theorem Extends.of_text_eq (h : ∀ out, m.codeAfter out = out.text) : m.Extends := fun out =>
  ⟨"", by rw [h, String.append_empty]⟩

theorem Extends.bind (hm : m.Extends) (hk : ∀ a, (k a).Extends) : (m >>= k).Extends := by
  intro out
  obtain ⟨more, hmore⟩ := hm out
  rw [codeAfter_bind]
  rw [codeAfter] at hmore
  cases hout : m out with
  | error error after =>
    rw [hout] at hmore
    exact ⟨more, hmore⟩
  | ok a after =>
    rw [hout] at hmore
    obtain ⟨rest, hrest⟩ := hk a after
    refine ⟨more ++ rest, ?_⟩
    dsimp only at hmore ⊢
    rw [hrest, hmore, String.append_assoc]

theorem rendered_apply (r : Rendered) (out : Output) :
    rendered r out =
      match r.error with
      | none => .ok () (out.write r.text)
      | some e => .error e (out.write r.text) := by
  obtain ⟨text, error⟩ := r
  cases error <;> rfl

theorem codeAfter_rendered_bind {k : Unit → Emit β} (hk : (k ()).Extends) (r : Rendered)
    (out : Output) :
    ∃ more, (rendered r >>= k).codeAfter out = out.text ++ r.text ++ more := by
  rw [codeAfter_bind, rendered_apply]
  cases r.error with
  | none => exact hk (out.write r.text)
  | some e => exact ⟨"", (String.append_empty).symm⟩

theorem codeAfter_rendered (r : Rendered) (out : Output) :
    (rendered r).codeAfter out = out.text ++ r.text := by
  rw [codeAfter, rendered_apply]
  cases r.error <;> rfl

theorem extends_rendered (r : Rendered) : (rendered r).Extends := fun out =>
  ⟨r.text, codeAfter_rendered r out⟩

theorem extends_run (script : Script) : script.run.Extends := by
  have hevent : ∀ event : Event, event.run.Extends := by
    intro event
    induction event with
    | start kind line => exact .of_text_eq fun _ => rfl
    | text r => exact extends_rendered r
    | fresh f => exact Extends.bind (.of_text_eq fun _ => rfl) fun name => extends_rendered (f name)
    | block name => exact fun out => ⟨blockHead name, rfl⟩
    | endBlock => exact fun out => ⟨"\x7b/block\x7d", rfl⟩
    | inner event ih => exact ih
  induction script with
  | nil => exact .of_text_eq fun _ => rfl
  | cons event rest ih => exact Extends.bind (hevent event) fun _ => ih

end Emit

/-- The tag of a statement that names another template, and that template. -/
def reference? : Stmt.Kind → Option (String × Expr)
  | .inclusion inclusion =>
    some (if inclusion.sandboxed then "sandbox" else "include", inclusion.template)
  | .embed inclusion _ => some ("embed", inclusion.template)
  | .importAs template _ | .useBlocks template _ => some ("import", template)
  | .inherit template => some ("layout", template)
  | _ => none

/-- What is written first stays, whatever comes after it. -/
theorem exists_text_append (a b : Rendered) : ∃ more, (a ++ b).text = a.text ++ more := by
  by_cases h : a.error = none
  · exact ⟨b.text, by rw [Rendered.append_eq h]⟩
  · exact ⟨"", by rw [Rendered.append_of_error h, String.append_empty]⟩

theorem exists_text_fileName (h : fileName scope e = ⟨name, none⟩) (lead : String)
    (rest : Rendered) :
    ∃ after, (((lead : Rendered) ++ fileName scope e) ++ rest).text = lead ++ name ++ after := by
  obtain ⟨after, hafter⟩ := exists_text_append ((lead : Rendered) ++ fileName scope e) rest
  refine ⟨after, hafter.trans ?_⟩
  rw [Rendered.append_eq rfl, h]

theorem tryOpen_cases (inclusion : Inclusion) :
    tryOpen inclusion = "" ∨ tryOpen inclusion = "\x7btry\x7d\n" := by
  rw [tryOpen]
  split
  · exact .inr rfl
  · exact .inl rfl

/-- **A tag begins with the name of the template it names.** -/
theorem codeAfter_statement_of_reference? {kind : Stmt.Kind} {tag : String}
    (hreference : reference? kind = some (tag, e)) (hname : fileName scope e = ⟨name, none⟩)
    (line : Nat) (block : BlockWriter) (out : Output) :
    ∃ before after, (before = "" ∨ before = "\x7btry\x7d\n") ∧
      (statement ⟨kind, line⟩ block scope).codeAfter out =
        out.text ++ before ++ ("\x7b" ++ tag ++ " " ++ name) ++ after := by
  -- A tag with what follows it, after what is written before it.
  have htag : ∀ (tag : String) (rest : Rendered) {lead : String} {k : Unit → Emit Unit},
      (lead = "" ∨ lead = "\x7btry\x7d\n") → (k ()).Extends →
      ∃ before after, (before = "" ∨ before = "\x7btry\x7d\n") ∧
        (nameTemplate scope tag e rest >>= k).codeAfter ((out.mark line).write lead) =
          out.text ++ before ++ ("\x7b" ++ tag ++ " " ++ name) ++ after := by
    intro tag rest lead k hlead hk
    rw [nameTemplate_eq]
    obtain ⟨after, hafter⟩ := exists_text_fileName hname ("\x7b" ++ tag ++ " ") rest
    obtain ⟨more, hmore⟩ := Emit.codeAfter_rendered_bind hk (templateTag scope tag e rest)
      ((out.mark line).write lead)
    refine ⟨lead, after ++ more, hlead, hmore.trans ?_⟩
    show out.text ++ lead ++ (templateTag scope tag e rest).text ++ more = _
    rw [templateTag, hafter]
    simp only [String.append_assoc]
  have hbegin : ∀ m : Emit Unit, (do Emit.mark line; m).codeAfter out = m.codeAfter (out.mark line) :=
    fun _ => rfl
  have hopen : ∀ (lead : String) (m : Emit Unit) (out : Output),
      (do Emit.text lead; m).codeAfter out = m.codeAfter (out.write lead) := fun _ _ _ => rfl
  cases kind with
  | inclusion inclusion =>
    cases hreference
    simp only [statement, statementKind, openInclusion, hbegin, hopen]
    exact htag _ _ (tryOpen_cases inclusion) fun out => ⟨tryClose inclusion, rfl⟩
  | embed inclusion embedded =>
    cases hreference
    let rest : Emit Unit := do
      Emit.text "\n"
      template embedded scope
      Emit.text "\x7b/embed\x7d"
      Emit.text (tryClose inclusion)
    have hrest : rest.Extends := by
      refine .bind (fun _ => ⟨"\n", rfl⟩) fun _ => ?_
      rw [← Script.run_template]
      exact .bind (Emit.extends_run _) fun _ =>
        .bind (fun _ => ⟨_, rfl⟩) fun _ => fun _ => ⟨_, rfl⟩
    simp only [statement, statementKind, openInclusion, hbegin, hopen]
    exact htag _ _ (tryOpen_cases inclusion) hrest
  | importAs | useBlocks | inherit =>
    cases hreference
    have halone := fun tag => htag tag "\x7d" (k := pure) (.inl rfl) (.of_text_eq fun _ => rfl)
    simp only [Output.write_empty, bind_pure] at halone
    simp only [statement, statementKind, hbegin]
    exact halone _
  | _ => cases hreference

theorem exists_inclusionCall (h : fileName scope e = ⟨written, none⟩) (name : String)
    (argument : Option String) (list : List (Argument Expr)) (defined : Bool) (line : Nat)
    (topmost : Bool) :
    ∃ after, (expression scope
      ⟨.function name .inclusion (⟨argument, e⟩ :: list) defined, line, topmost⟩).text =
        "\x7binclude " ++ written ++ after := by
  obtain ⟨after, hafter⟩ := exists_text_append
    (("\x7binclude " : Rendered) ++ (fileName scope e ++ moreArguments scope list)) "\x7d"
  refine ⟨(moreArguments scope list).text ++ after, hafter.trans ?_⟩
  rw [Rendered.append_eq rfl, Rendered.append_eq (by rw [h]), h]
  simp only [String.append_assoc]

theorem text_blockCall_from {name : Expr} {block : String} (h : fileName scope e = ⟨written, none⟩)
    (hname : name.string? = some block) (output : Bool) (line : Nat) (topmost : Bool) :
    (expression scope ⟨.blockCall name (some e) false output, line, topmost⟩).text =
      "\x7binclude " ++ block ++ " from " ++ written ++ "\x7d" := by
  have hblock : expression scope ⟨.blockCall name (some e) false output, line, topmost⟩ =
      ((("\x7binclude " ++ block : String) : Rendered) ++ (" from " ++ fileName scope e)) ++
        "\x7d" := by
    simp only [expression, expressionKind, hname]
    rfl
  rw [hblock, h]
  show "\x7binclude " ++ block ++ (" from " ++ written) ++ "\x7d" = _
  simp only [String.append_assoc]

/-- **Which names in tags are the names of the converted files.** The name that is written for a
template, in whatever tag, denotes its path with `.latte` for each `.twig` in it. This is where the
converted template is stored if the path ends in `.twig` and holds no other `.twig`, and only then. -/
theorem reference_denotes_output (path : String)
    (h : (∃ stem, path = stem ++ ".twig") ∨ ∃ stem, path = stem ++ ".twig.html") :
    ∃ written, denoted? written = some (latteExtension path) ∧
      (denoted? written = some (Path.defaultOutput path) ↔
        ∃ stem, path = stem ++ ".twig" ∧ ¬ ".twig".toList <:+: stem.toList) ∧
      ∀ e : Expr, e.string? = some path → ∀ scope : Scope,
        (∀ kind tag, reference? kind = some (tag, e) → ∀ line block out, ∃ before after,
          (before = "" ∨ before = "\x7btry\x7d\n") ∧
          (statement ⟨kind, line⟩ block scope).codeAfter out =
            out.text ++ before ++ ("\x7b" ++ tag ++ " " ++ written) ++ after) ∧
        (∀ name argument list defined line topmost, ∃ after, (expression scope
          ⟨.function name .inclusion (⟨argument, e⟩ :: list) defined, line, topmost⟩).text =
            "\x7binclude " ++ written ++ after) ∧
        ∀ name block, name.string? = some block → ∀ output line topmost,
          (expression scope ⟨.blockCall name (some e) false output, line, topmost⟩).text =
            "\x7binclude " ++ block ++ " from " ++ written ++ "\x7d" := by
  have hdot : '.' ∈ path.toList := by
    rcases h with ⟨stem, rfl⟩ | ⟨stem, rfl⟩ <;>
      exact String.toList_append ▸ mem_append_right _ mem_cons_self
  have hdenoted : denoted? (String.ofList (quotedChars (renamed path.toList))) =
      some (latteExtension path) := denoted?_quotedChars _
  refine ⟨String.ofList (quotedChars (renamed path.toList)), hdenoted, ?_, fun e he scope => ?_⟩
  · rw [hdenoted, Option.some_inj, latteExtension_eq_defaultOutput_iff h]
  · have hname := fileName_of_string? he hdot scope
    refine ⟨fun kind tag hreference => codeAfter_statement_of_reference? hreference hname,
      exists_inclusionCall hname, fun name block hblock => text_blockCall_from hname hblock⟩

/-- A template in a directory, which may be missing. -/
def shopRow : Inclusion :=
  { template := Expr.string "shop.v2/it's a row.twig" 1, ignoreMissing := true }

theorem reference_denotes_output_shopRow :
    (¬ ".twig".toList <:+: "shop.v2/it's a row".toList) ∧
      ∃ written, denoted? written = some "shop.v2/it's a row.latte" ∧
        Path.defaultOutput "shop.v2/it's a row.twig" = "shop.v2/it's a row.latte" ∧
        ∀ scope block out, ∃ before after,
          (statement ⟨.inclusion shopRow, 1⟩ block scope).codeAfter out =
            out.text ++ before ++ ("\x7binclude " ++ written) ++ after := by
  have hstem : ¬ ".twig".toList <:+: "shop.v2/it's a row".toList := by
    rw [← latteExtension_eq_self_iff]
    decide
  have houtput : Path.defaultOutput "shop.v2/it's a row.twig" = "shop.v2/it's a row.latte" := by
    decide
  obtain ⟨written, -, hdenoted, hwritten⟩ := reference_denotes_output
    "shop.v2/it's a row.twig" (.inl ⟨"shop.v2/it's a row", rfl⟩)
  refine ⟨hstem, written, ?_, houtput, fun scope block out => ?_⟩
  · rw [← houtput]
    exact hdenoted.mpr ⟨"shop.v2/it's a row", rfl, hstem⟩
  · obtain ⟨before, after, -, hcode⟩ := (hwritten shopRow.template rfl scope).1
      (.inclusion shopRow) "include" rfl 1 block out
    exact ⟨before, after, hcode⟩

/-- Two templates that are stored under other names than those by which they are named. -/
theorem reference_ne_output :
    ((convert Dialect.core ⟨"\x7b% include 'page.twig.html' %\x7d", "", none⟩).result.map
        Conversion.code = .ok "\x7binclude 'page.latte.html'\x7d" ∧
      denoted? "'page.latte.html'" = some "page.latte.html" ∧
      Path.defaultOutput "page.twig.html" = "page.latte") ∧
    ((convert Dialect.core ⟨"\x7b% extends 'a.twig.d/b.twig' %\x7d", "", none⟩).result.map
        Conversion.code = .ok "\x7blayout 'a.latte.d/b.latte'\x7d" ∧
      denoted? "'a.latte.d/b.latte'" = some "a.latte.d/b.latte" ∧
      Path.defaultOutput "a.twig.d/b.twig" = "a.twig.d/b.latte") := by
  have hpage : denoted? "'page.latte.html'" = some "page.latte.html" :=
    denoted?_quotedChars "page.latte.html".toList
  have hlayout : denoted? "'a.latte.d/b.latte'" = some "a.latte.d/b.latte" :=
    denoted?_quotedChars "a.latte.d/b.latte".toList
  refine ⟨⟨?_, hpage, by decide⟩, ⟨?_, hlayout, by decide⟩⟩
  all_goals
    simp only [convert, Template.convert, Dialect.runStages, Dialect.stages_eq, Template.parse,
      Dialect.tokenize, Lexer.tokenize, Pattern.orderSymbols_eq]
    decide +kernel

end TwigToLatte.Latte
