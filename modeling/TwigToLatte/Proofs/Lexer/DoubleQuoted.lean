import TwigToLatte.Dialect.Core
import TwigToLatte.Proofs.Latte.Quoting
import TwigToLatte.Proofs.Lexer.Operators
import TwigToLatte.Proofs.Lexer.Termination

/-!
# Strings in double quotes

A string in double quotes is one token if no hash stands in it. One with a hash is entered like a
region and read part by part, as an interpolation may begin in it. Where none does, there is no
difference.

* `Unbroken` — content in which neither the string ends nor an interpolation begins.
* `quotedLength?_unbroken`, `stringRun_unbroken` — both searches read such content to its end.
* `Scan.step_eq_stepToken_of_isExpression` — a step in a tag or in an interpolation reads a token.
* `Scan.AddsString` — the string is one more token, and the regions and brackets are as before it.
* `Scan.addsString_part`, `Scan.addsString_reads` — what reading part by part leads to, and what the
  lexer reads.

Principal result: `double_quoted_paths_agree`.
-/

namespace TwigToLatte.Lexer

open List

open Text Pattern

variable {symbols : List (List Char)}

/-- The content of a string that is read from left to right to its very end, two characters at each
backslash, and meets neither a double quote nor the start of an interpolation. -/
inductive Unbroken : List Char → Prop
  | nil : Unbroken []
  | escaped (c : Char) {rest : List Char} (hrest : Unbroken rest) : Unbroken ('\\' :: c :: rest)
  | plain {c : Char} {rest : List Char} (hslash : c ≠ '\\') (hquote : c ≠ '"')
      (hhash : c = '#' → rest.head? ≠ some '{') (hrest : Unbroken rest) : Unbroken (c :: rest)

/-! ## The two searches -/

variable {content gap : List Char} {c : Char}

/-- The search for the end of the string finds it, unless a hash comes first. -/
theorem quotedLength?_unbroken (h : Unbroken content) (follow : List Char) :
    quotedLength? '"' (· == '#') (content ++ '"' :: follow) = some content.length ∨
      (content ≠ [] ∧ quotedLength? '"' (· == '#') (content ++ '"' :: follow) = none) := by
  induction h with
  | nil =>
    left
    rw [nil_append, Latte.quotedLength?_cons (by decide)]
    rfl
  | @escaped c rest _ ih =>
    simp only [cons_append]
    rw [quotedLength?.eq_def]
    simp only [if_pos]
    rcases ih with hsome | ⟨-, hnone⟩
    · exact .inl (by simp [hsome])
    · exact .inr ⟨by simp, by simp [hnone]⟩
  | @plain c rest hslash hquote _ _ ih =>
    rw [cons_append, Latte.quotedLength?_cons hslash, if_neg hquote]
    by_cases hhash : c = '#'
    · exact .inr ⟨by simp, by simp [hhash]⟩
    · rw [if_neg (by simpa using hhash)]
      rcases ih with hsome | ⟨-, hnone⟩
      · exact .inl (by simp [hsome])
      · exact .inr ⟨by simp, by simp [hnone]⟩

theorem stringRun_unbroken (h : Unbroken content) (follow : List Char) :
    Scan.stringRun (content ++ '"' :: follow) = content.length := by
  induction h with
  | nil =>
    rw [nil_append, Scan.stringRun.eq_def]
    exact if_pos rfl
  | escaped c _ ih =>
    simp only [cons_append]
    rw [Scan.stringRun.eq_def]
    simp [ih]
  | @plain c rest hslash hquote hhash _ ih =>
    have hnext : c = '#' → (rest ++ '"' :: follow).head? ≠ some '{' := by
      intro hc
      cases rest with
      | nil => simp
      | cons d rest => simpa using hhash hc
    rw [cons_append, Latte.stringRun_cons hquote hslash hnext, ih, length_cons]

theorem Unbroken.head_ne (h : Unbroken content) (hne : content ≠ []) (follow : List Char) :
    startsWith '#' '{' (content ++ '"' :: follow) = false ∧
      (content ++ '"' :: follow).head? ≠ some '"' := by
  cases h with
  | nil => exact absurd rfl hne
  | escaped c hrest => simp [startsWith]
  | @plain c rest hslash hquote hhash hrest =>
    refine ⟨?_, by simpa using hquote⟩
    cases rest with
    | nil => simp [startsWith]
    | cons d rest => simpa [startsWith] using hhash

/-- Characters in front that neither hide another one nor end anything. -/
theorem Unbroken.append_plain (h : Unbroken content) {more : List Char}
    (hmore : ∀ d ∈ more, d ≠ '\\' ∧ d ≠ '"' ∧ d ≠ '#') : Unbroken (more ++ content) := by
  induction more with
  | nil => exact h
  | cons d more ih =>
    obtain ⟨⟨hslash, hquote, hhash⟩, hmore⟩ := forall_mem_cons.mp hmore
    exact .plain hslash hquote (fun hd => absurd hd hhash) (ih hmore)

/-- What string literals write between double quotes, if no interpolation begins in the string. -/
theorem unbroken_flatMap {cs : List Char} (h : pair? '#' '{' cs = none) :
    Unbroken (cs.flatMap Latte.escapeDouble) := by
  induction cs with
  | nil => exact .nil
  | cons c cs ih =>
    rw [pair?] at h
    split at h
    · cases h
    rename_i hpair
    have htail := ih (by simpa using h)
    have hnext : c = '#' → (cs.flatMap Latte.escapeDouble).head? ≠ some '{' := by
      intro hc
      cases cs with
      | nil => simp
      | cons d cs =>
        have hd : d ≠ '{' := by
          rintro rfl
          exact hpair (by rw [hc]; rfl)
        have hwritten := Latte.escape_double d
        rw [flatMap_cons]
        generalize Latte.escapeDouble d = written at hwritten ⊢
        cases hwritten with
        | plain => simpa using hd
        | escaped => simp
    have hwritten := Latte.escape_double c
    rw [flatMap_cons]
    generalize Latte.escapeDouble c = written at hwritten ⊢
    cases hwritten with
    | plain hslash hquote => exact .plain hslash hquote hnext htail
    | escaped x more hmore _ => exact .escaped x (htail.append_plain hmore)

/-! ## Tokens in tags and interpolations -/

theorem operator?_eq_none_of_head (hblank : isBlank c = false)
    (hs : ∀ s ∈ symbols, s ≠ [] ∧ s.head? ≠ some c) (previous : Option Char) (text : List Char) :
    operator? symbols previous (c :: text) = none := by
  refine findSome?_eq_none_iff.mpr ?_
  intro symbol hmem
  obtain ⟨hne, hhead⟩ := hs symbol hmem
  rw [Option.map_eq_none_iff]
  cases hat : operatorAt? previous (c :: text) symbol with
  | none => rfl
  | some n =>
    obtain ⟨hsymbol, -⟩ := symbol?_of_operatorAt? hat
    cases symbol with
    | nil => exact absurd rfl hne
    | cons d more =>
      rw [symbol?] at hsymbol
      split at hsymbol
      · simp [blanks, hblank] at hsymbol
      · split at hsymbol
        · rename_i hd
          exact absurd (congrArg some hd.symm) hhead
        · cases hsymbol

theorem blanks_append (hgap : ∀ b ∈ gap, isBlank b = true) (hc : isBlank c = false)
    (text : List Char) : blanks (gap ++ c :: text) = gap.length := by
  rw [blanks, takeWhile_append_of_pos hgap, takeWhile_cons, hc,
    if_neg Bool.false_ne_true, append_nil]

theorem tagEnd?_eq_none {closer : Char} (hblank : isBlank c = false) (hmarker : isMarker c = false)
    (hcloser : c ≠ closer) (hgap : ∀ b ∈ gap, isBlank b = true) (text : List Char) :
    tagEnd? closer (gap ++ c :: text) = none := by
  have hmarked : marker (c :: text) = 0 := by simp [marker, hmarker]
  unfold tagEnd?
  simp only [blanks_append hgap hblank, drop_left, hmarked, drop_zero]
  rw [if_neg (by simp [startsWith, hcloser])]

namespace Scan

variable {scan : Scan} {mode : Mode} {outer : List Mode} {gap text content follow : List Char}
  {c : Char}

/-- **A step in a tag or in an interpolation skips blanks and reads a token**, if what comes then
cannot belong to the end of the region. -/
theorem step_eq_stepToken_of_isExpression (hmodes : scan.modes = mode :: outer)
    (he : mode.isExpression = true) (hrest : scan.rest = gap ++ c :: text)
    (hgap : ∀ b ∈ gap, isBlank b = true) (hblank : isBlank c = false)
    (hmarker : isMarker c = false) (hbrace : c ≠ '}') (hpercent : c ≠ '%') :
    scan.step symbols = (scan.skip gap.length).stepToken symbols c := by
  have hblanks : blanks scan.rest = gap.length := by rw [hrest, blanks_append hgap hblank]
  have hexpression : scan.stepExpression symbols = (scan.skip gap.length).stepToken symbols c := by
    unfold stepExpression
    simp only [hblanks, rest_skip]
    rw [hrest, drop_left]
  have htag : ∀ closer kind, c ≠ closer → scan.stepTag symbols closer kind =
      (scan.skip gap.length).stepToken symbols c := by
    intro closer kind hcloser
    unfold stepTag
    rw [hrest, tagEnd?_eq_none hblank hmarker hcloser hgap]
    cases scan.brackets with
    | nil => exact hexpression
    | cons bracket brackets => exact hexpression
  unfold step
  rw [hmodes]
  cases mode with
  | block => exact htag _ _ hpercent
  | «variable» => exact htag _ _ hbrace
  | string => cases he
  | interpolation =>
    simp only
    unfold stepInterpolation
    simp only [hblanks]
    split
    · rw [if_neg (by rw [hrest]; simpa using hbrace)]
      exact hexpression
    · exact hexpression

theorem not_arrow (hrest : scan.rest = c :: text) (hc : c ≠ '=') :
    ¬ startsWith '=' '>' scan.rest = true := by
  rw [hrest, startsWith, head?_cons, Bool.and_eq_true, beq_iff_eq]
  exact fun h => hc (Option.some.inj h.1)

theorem stepToken_quote (hrest : scan.rest = '"' :: text)
    (hs : ∀ s ∈ symbols, s ≠ [] ∧ s.head? ≠ some '"') :
    scan.stepToken symbols '"' = .ok scan.stepDoubleQuoted := by
  have hnone := operator?_eq_none_of_head (by decide) hs scan.cursor.previous text
  unfold stepToken
  rw [if_neg (not_arrow hrest (by decide)), hrest, hnone]
  rfl

/-! ## Strings -/

/-- The state after a string: one more token, and the regions and brackets are those before it. -/
structure AddsString (scan next : Scan) (value : String) (follow : List Char) : Prop where
  rest_eq : next.rest = follow
  modes_eq : next.modes = scan.modes
  brackets_eq : next.brackets = scan.brackets
  tagLine_eq : next.tagLine = scan.tagLine
  tokens_eq : ∃ span, next.tokens = scan.tokens.push ⟨.string value, span⟩

theorem step_string (hmodes : scan.modes = .string :: outer) :
    scan.step symbols = .ok scan.stepString := by
  rw [step, hmodes]

/-- Part by part, unbroken content is a single part, and after it the string ends. -/
theorem addsString_part (hcontent : Unbroken content) (hne : content ≠ [])
    (hrest : scan.rest = '"' :: (content ++ '"' :: follow)) :
    ∃ next, Reaches symbols scan.enterString next ∧
      scan.AddsString next (String.ofList (unescapeChars content)) follow := by
  have hinside : scan.enterString.rest = content ++ '"' :: follow :=
    (rest_skip 1 scan).trans (by rw [hrest]; rfl)
  obtain ⟨part, hpart⟩ : ∃ part, part = scan.enterString.take content.length
    (.string (String.ofList (unescapeChars content))) := ⟨_, rfl⟩
  have hpartRest : part.rest = '"' :: follow := by
    rw [hpart, rest_take, hinside, drop_left]
  have hread : scan.enterString.step symbols = .ok part := by
    obtain ⟨hhash, hquote⟩ := hcontent.head_ne hne follow
    rw [step_string rfl, stepString, hinside, if_neg (by simp [hhash]),
      if_neg (by simpa using hquote), stringRun_unbroken hcontent, hpart]
    simp only [take_left]
  have hend : part.step symbols =
      .ok { part.skip 1 with modes := scan.modes, brackets := scan.brackets } := by
    have hmodes : part.modes = .string :: scan.modes := by rw [hpart]; rfl
    rw [step_string hmodes, stepString, hpartRest, hpart]
    rfl
  refine ⟨{ part.skip 1 with modes := scan.modes, brackets := scan.brackets },
    (Reaches.single ?_ hread).trans (.single ?_ hend), ?_, rfl, rfl, ?_, ?_⟩
  · simp [hinside]
  · simp [hpartRest]
  · exact (rest_skip 1 part).trans (by rw [hpartRest]; rfl)
  · rw [hpart]
    rfl
  · rw [hpart]
    exact ⟨_, rfl⟩

/-- **The lexer reads a string without interpolations as one token.** -/
theorem addsString_reads (hs : ∀ s ∈ symbols, s ≠ [] ∧ s.head? ≠ some '"')
    (hmodes : scan.modes = mode :: outer) (he : mode.isExpression = true)
    (hgap : ∀ b ∈ gap, isBlank b = true) (hcontent : Unbroken content)
    (hrest : scan.rest = gap ++ '"' :: (content ++ '"' :: follow)) :
    ∃ next, Reaches symbols scan next ∧
      scan.AddsString next (String.ofList (unescapeChars content)) follow := by
  have hne : scan.rest ≠ [] := by simp [hrest]
  have hskip : (scan.skip gap.length).rest = '"' :: (content ++ '"' :: follow) := by
    rw [rest_skip, hrest, drop_left]
  have hstep : scan.step symbols = .ok (scan.skip gap.length).stepDoubleQuoted := by
    rw [step_eq_stepToken_of_isExpression hmodes he hrest hgap (by decide) (by decide) (by decide)
      (by decide), stepToken_quote hskip hs]
  rw [stepDoubleQuoted, hskip, tail_cons] at hstep
  rcases quotedLength?_unbroken hcontent follow with hsome | ⟨hnonempty, hnone⟩
  · -- Without a hash the string is taken at once.
    rw [hsome] at hstep
    simp only [take_left] at hstep
    refine ⟨_, .single hne hstep, ?_, rfl, rfl, rfl, ⟨_, rfl⟩⟩
    rw [rest_take, hskip]
    simp
  · -- With a hash it is entered, and holds one part.
    rw [hnone] at hstep
    obtain ⟨next, hreaches, hfollow, hmodes', hbrackets, htagLine, htokens⟩ :=
      @addsString_part symbols (scan.skip gap.length) content follow hcontent hnonempty hskip
    exact ⟨next, (Reaches.single hne hstep).trans hreaches, hfollow, hmodes', hbrackets, htagLine,
      htokens⟩

end Scan

/-- **Both ways to read a string in double quotes agree.** In a tag or in an interpolation, where no
operator begins with the quote, a literal in whose content no interpolation begins is one token, and
the regions and brackets are then those before it, whether a hash stands in the content or not. If
the content is not empty, reading it part by part leads to the same. -/
theorem double_quoted_paths_agree (hs : ∀ s ∈ symbols, s ≠ [] ∧ s.head? ≠ some '"') {scan : Scan}
    {mode : Mode} {outer : List Mode} (hmodes : scan.modes = mode :: outer)
    (he : mode.isExpression = true) {content : String} (hcontent : Unbroken content.toList)
    {follow : List Char} (hrest : scan.rest = '"' :: (content.toList ++ '"' :: follow)) :
    (∃ next, Scan.Reaches symbols scan next ∧ scan.AddsString next (unescape content) follow) ∧
      (content ≠ "" → ∃ next, Scan.Reaches symbols scan.enterString next ∧
        scan.AddsString next (unescape content) follow) := by
  constructor
  · exact Scan.addsString_reads hs hmodes he (forall_mem_nil _) hcontent hrest
  · intro hne
    exact Scan.addsString_part hcontent (by simpa using hne) hrest

/-- The start of a string inside a bracket of a tag. -/
def Scan.insideBracket (text : String) : Scan :=
  { cursor := Cursor.start text, modes := [.block], brackets := [(.paren, 1)] }

/-- Content with a hidden quote, a hidden hash before a brace, and a hash right before the quote
that ends the string. -/
theorem double_quoted_paths_agree_hashes :
    Unbroken "a\\\"\\#\x7b#".toList ∧
      (∃ next, Scan.Reaches (orderSymbols Dialect.core.operatorSymbols)
          (Scan.insideBracket "\"a\\\"\\#\x7b#\") %\x7d") next ∧
        (Scan.insideBracket "\"a\\\"\\#\x7b#\") %\x7d").AddsString next (unescape "a\\\"\\#\x7b#")
          ") %\x7d".toList) ∧
      ∃ next, Scan.Reaches (orderSymbols Dialect.core.operatorSymbols)
          (Scan.insideBracket "\"a\\\"\\#\x7b#\") %\x7d").enterString next ∧
        (Scan.insideBracket "\"a\\\"\\#\x7b#\") %\x7d").AddsString next (unescape "a\\\"\\#\x7b#")
          ") %\x7d".toList := by
  have hall : (Dialect.core.operatorSymbols.map String.toList).all
      (fun s => s.head?.any (· != '"')) = true := by decide +kernel
  have hs : ∀ s ∈ orderSymbols Dialect.core.operatorSymbols, s ≠ [] ∧ s.head? ≠ some '"' := by
    intro s hmem
    have hhead := all_eq_true.mp hall s (mem_orderSymbols.mp hmem).1
    refine ⟨(mem_orderSymbols.mp hmem).2, fun h => ?_⟩
    rw [h] at hhead
    cases hhead
  have hcontent : Unbroken "a\\\"\\#\x7b#".toList :=
    .plain (by decide) (by decide) nofun (.escaped _ (.escaped _ (.plain (by decide) (by decide)
      nofun (.plain (by decide) (by decide) nofun .nil))))
  have hrest : (Scan.insideBracket "\"a\\\"\\#\x7b#\") %\x7d").rest =
      '"' :: ("a\\\"\\#\x7b#".toList ++ '"' :: ") %\x7d".toList) := by decide +kernel
  have hmodes : (Scan.insideBracket "\"a\\\"\\#\x7b#\") %\x7d").modes = .block :: [] := rfl
  obtain ⟨hreads, hpart⟩ := double_quoted_paths_agree hs hmodes rfl hcontent hrest
  exact ⟨hcontent, hreads, hpart (by decide)⟩

end TwigToLatte.Lexer
