import TwigToLatte.Proofs.Lexer.DoubleQuoted

/-!
# Reading known text

A run is followed forwards: where the text ahead is known, the lexer takes known tokens of it.

* `Scan.step_eq_stepToken` — a step inside a print statement reads a token.
* `Reads` — **a text is read as given tokens**, if a given text comes after it.
* `Reads.word`, `Reads.number`, `Reads.quoted`, `Reads.brackets`, … — the texts of which this holds.
* `tokenize_print` — the tokens of a print statement.
-/

namespace TwigToLatte.Lexer

open List

open Text Pattern

variable {symbols : List (List Char)}

/-! ## Tokens of a tag -/

namespace Scan

/-- The lexer reads tokens up to the text `follow`, and is then in the same region and brackets. -/
structure Advances (symbols : List (List Char)) (scan next : Scan) (kinds : List Token.Kind)
    (follow : List Char) : Prop where
  reaches : Reaches symbols scan next
  rest_eq : next.rest = follow
  modes_eq : next.modes = scan.modes
  brackets_eq : next.brackets = scan.brackets
  kinds_eq : next.kinds = scan.kinds ++ kinds

variable {scan : Scan} {follow text gap : List Char} {c : Char}

theorem Advances.trans {middle last : Scan} {kinds more : List Token.Kind} {follow' : List Char}
    (h : scan.Advances symbols middle kinds follow)
    (hlast : middle.Advances symbols last more follow') :
    scan.Advances symbols last (kinds ++ more) follow' where
  reaches := h.reaches.trans hlast.reaches
  rest_eq := hlast.rest_eq
  modes_eq := hlast.modes_eq.trans h.modes_eq
  brackets_eq := hlast.brackets_eq.trans h.brackets_eq
  kinds_eq := by rw [hlast.kinds_eq, h.kinds_eq, List.append_assoc]

/-- The character starts a token in a print statement, where `text` comes after it: it neither is
blank nor begins the end of the statement. -/
structure StartsToken (c : Char) (text : List Char) : Prop where
  not_blank : isBlank c = false
  not_closer : c ≠ '}'
  not_trim : isMarker c = true → text.head? ≠ some '}'

theorem StartsToken.tagEnd? (h : StartsToken c text) (hgap : ∀ b ∈ gap, isBlank b = true) :
    Pattern.tagEnd? '}' (gap ++ c :: text) = none := by
  have hstart : startsWith '}' '}' ((c :: text).drop (marker (c :: text))) = false := by
    rw [marker, head?_cons, Option.any_some]
    cases hmarker : isMarker c with
    | false =>
      simp only [Bool.false_eq_true, if_false, drop_zero, startsWith, head?_cons]
      simp [h.not_closer]
    | true =>
      simp only [if_true, drop_succ_cons, drop_zero, startsWith]
      simp [h.not_trim hmarker]
  rw [Pattern.tagEnd?, blanks_append hgap h.not_blank, drop_left, hstart,
    if_neg Bool.false_ne_true]

/-- **A step inside a print statement skips blanks and reads a token.** -/
theorem step_eq_stepToken (hmode : scan.modes.head? = some .variable)
    (hrest : scan.rest = gap ++ c :: text) (hgap : ∀ b ∈ gap, isBlank b = true)
    (hstart : StartsToken c text) :
    scan.step symbols = (scan.skip gap.length).stepToken symbols c := by
  have hskip : (scan.skip gap.length).rest = c :: text := by
    rw [rest_skip, hrest, drop_left]
  obtain ⟨outer, hmodes⟩ : ∃ outer, scan.modes = .variable :: outer := by
    cases hmodes : scan.modes with
    | nil => rw [hmodes] at hmode; cases hmode
    | cons mode outer => rw [hmodes] at hmode; cases hmode; exact ⟨outer, rfl⟩
  have hexpression : scan.stepExpression symbols = (scan.skip gap.length).stepToken symbols c := by
    rw [stepExpression, hrest, blanks_append hgap hstart.not_blank, hskip]
  rw [step, hmodes]
  dsimp only
  rw [stepTag.eq_def, hrest, hstart.tagEnd? hgap]
  cases scan.brackets with
  | nil => exact hexpression
  | cons bracket brackets => exact hexpression

/-- A token that consists of the characters `c :: more`. -/
theorem exists_advances {more : List Char} {kind : Token.Kind}
    (hmode : scan.modes.head? = some .variable) (hrest : scan.rest = gap ++ c :: (more ++ follow))
    (hgap : ∀ b ∈ gap, isBlank b = true) (hstart : StartsToken c (more ++ follow))
    (htoken : (scan.skip gap.length).stepToken symbols c =
      .ok ((scan.skip gap.length).take (more.length + 1) kind)) :
    ∃ next, scan.Advances symbols next [kind] follow := by
  refine ⟨(scan.skip gap.length).take (more.length + 1) kind, ?_, ?_, rfl, rfl, kinds_take _ _ _⟩
  · refine .single (fun h => ?_) ((step_eq_stepToken hmode hrest hgap hstart).trans htoken)
    rw [h] at hrest
    exact absurd hrest.symm (append_ne_nil_of_right_ne_nil _ (cons_ne_nil _ _))
  · rw [rest_take, rest_skip, hrest, drop_left, drop_succ_cons, drop_left]

end Scan

/-! ## Tokens -/

/-- In a print statement the text is read as these tokens, if `follow` comes after it. -/
def Reads (symbols : List (List Char)) (text : List Char) (kinds : List Token.Kind)
    (follow : List Char) : Prop :=
  ∀ scan : Scan, scan.modes.head? = some .variable → scan.rest = text ++ follow →
    ∃ next, scan.Advances symbols next kinds follow

theorem isBlank_of_mem_gap : ∀ b ∈ [' '], isBlank b = true :=
  forall_mem_singleton.mpr (by decide)

variable {text more follow : List Char} {kinds : List Token.Kind} {c : Char}

theorem Reads.append {kinds' : List Token.Kind} (h : Reads symbols text kinds (more ++ follow))
    (hmore : Reads symbols more kinds' follow) :
    Reads symbols (text ++ more) (kinds ++ kinds') follow := by
  intro scan hmode hrest
  rw [List.append_assoc] at hrest
  obtain ⟨middle, hmiddle⟩ := h scan hmode hrest
  obtain ⟨next, hnext⟩ := hmore middle (hmiddle.modes_eq ▸ hmode) hmiddle.rest_eq
  exact ⟨next, hmiddle.trans hnext⟩

theorem Reads.token {gap : List Char} {kind : Token.Kind} (hgap : ∀ b ∈ gap, isBlank b = true)
    (hstart : Scan.StartsToken c (more ++ follow))
    (h : ∀ scan : Scan, scan.rest = c :: (more ++ follow) →
      scan.stepToken symbols c = .ok (scan.take (more.length + 1) kind)) :
    Reads symbols (gap ++ c :: more) [kind] follow := by
  intro scan hmode hrest
  rw [List.append_assoc, cons_append] at hrest
  refine Scan.exists_advances hmode hrest hgap hstart (h _ ?_)
  rw [Scan.rest_skip, hrest, drop_left]

namespace Scan

variable {scan : Scan} {c : Char} {text : List Char}

theorem stepToken_operator {symbol : List Char} {n : Nat} (hrest : scan.rest = c :: text)
    (hc : c ≠ '=') (hfound : operator? symbols scan.cursor.previous scan.rest = some (symbol, n)) :
    scan.stepToken symbols c = .ok (scan.take n (.operator (String.ofList symbol))) := by
  rw [stepToken, if_neg (not_arrow hrest hc), hfound]

theorem stepToken_name (hrest : scan.rest = c :: text) (hstart : isNameStart c = true)
    (hfound : operator? symbols scan.cursor.previous scan.rest = none) :
    scan.stepToken symbols c = .ok (scan.take (scan.rest.takeWhile isNameChar).length
      (.name (String.ofList (scan.rest.takeWhile isNameChar)))) := by
  have hc : c ≠ '=' := by rintro rfl; cases hstart
  rw [stepToken, if_neg (not_arrow hrest hc), hfound]
  exact if_pos hstart

theorem stepToken_digit (hrest : scan.rest = c :: text) (hdigit : c.isDigit = true)
    (hfound : operator? symbols scan.cursor.previous scan.rest = none) :
    scan.stepToken symbols c =
      .ok (scan.take (numeral scan.rest).1 (.number (numeral scan.rest).2)) := by
  have hc : c ≠ '=' := by rintro rfl; cases hdigit
  rw [stepToken, if_neg (not_arrow hrest hc), hfound]
  dsimp only
  rw [if_neg (by rw [not_isNameStart_of_isDigit hdigit]; exact Bool.false_ne_true), if_pos hdigit]

end Scan

theorem startsToken_of_isWordChar (h : Latte.isWordChar c = true) (text : List Char) :
    Scan.StartsToken c text where
  not_blank := not_isBlank_of_isWordChar h
  not_closer := by rintro rfl; cases h
  not_trim hmarker := by
    rw [isMarker, Bool.or_eq_true, beq_iff_eq, beq_iff_eq] at hmarker
    rcases hmarker with rfl | rfl <;> cases h

/-! ### Words and numbers -/

section

variable (hs : ∀ s ∈ symbols, isRegular s = true) {gap : List Char}
  (hgap : ∀ b ∈ gap, isBlank b = true) {follow : List Char} (hfollow : Follows follow)

include hs hfollow

variable {c : Char} {more : List Char}

/-- A word is read as a name, unless it is an operator and may end where it does. -/
theorem exists_stepToken_word (hword : ∀ d ∈ c :: more, Latte.isWordChar d = true)
    (hdigit : c.isDigit = false) {scan : Scan} (hrest : scan.rest = c :: (more ++ follow)) :
    ∃ kind, (kind = .name (String.ofList (c :: more)) ∨
        kind = .operator (String.ofList (c :: more)) ∧ c :: more ∈ symbols ∧
          endsWord follow = true) ∧
      scan.stepToken symbols c = .ok (scan.take (more.length + 1) kind) := by
  have hc := hword c mem_cons_self
  have hstart := isNameStart_of_isWordChar hc hdigit
  have hequals : c ≠ '=' := by rintro rfl; cases hc
  have hfound := operator?_word hs (cons_ne_nil _ _) hword hfollow scan.cursor.previous
  rw [cons_append, ← hrest] at hfound
  rcases hfound with hnone | ⟨hsome, hmem, hends⟩
  · refine ⟨_, .inl rfl, ?_⟩
    rw [Scan.stepToken_name hrest hstart hnone, hrest, ← cons_append,
      hfollow.takeWhile hword, length_cons]
  · exact ⟨_, .inr ⟨rfl, hmem, hends⟩, Scan.stepToken_operator hrest hequals hsome⟩

include hgap

theorem Reads.word (hword : ∀ d ∈ c :: more, Latte.isWordChar d = true)
    (hdigit : c.isDigit = false) (hname : endsWord follow = false ∨ c :: more ∉ symbols) :
    Reads symbols (gap ++ c :: more) [.name (String.ofList (c :: more))] follow := by
  refine .token hgap (startsToken_of_isWordChar (hword c mem_cons_self) _) fun scan hrest => ?_
  obtain ⟨kind, rfl | ⟨-, hmem, hends⟩, htoken⟩ :=
    exists_stepToken_word hs hfollow hword hdigit hrest
  · exact htoken
  · rcases hname with hname | hname
    · rw [hends] at hname
      cases hname
    · exact absurd hmem hname

theorem Reads.number {n : Nat} (hn : n < Decimal.signBit) :
    Reads symbols (gap ++ Nat.toDigits 10 n) [.number (.int (Int64.ofNat n))] follow := by
  have hdigits : ∀ d ∈ Nat.toDigits 10 n, d.isDigit = true :=
    fun d hd => Nat.isDigit_of_mem_toDigits (by decide) (by decide) hd
  have hnumeral : numeral (Nat.toDigits 10 n ++ follow) =
      ((Nat.toDigits 10 n).length, .int (Int64.ofNat n)) := by
    have hwhole : digits (Nat.toDigits 10 n ++ follow) = Nat.toDigits 10 n := by
      rw [digits, takeWhile_append_of_pos hdigits]
      cases hfollow <;> exact append_nil _
    have hvalue : ofDecimal (Nat.toDigits 10 n) = n := Nat.ofDigitChars_ten_toDigits
    have hfraction : fraction follow = [] := by cases hfollow <;> rfl
    have hexponent : exponent follow = (0, 0) := by cases hfollow <;> rfl
    rw [numeral, hwhole, drop_left, hfraction]
    simp only [isEmpty_nil, if_true, drop_zero, hexponent, append_nil, hvalue,
      Nat.add_zero, true_and, hn]
  cases hcases : Nat.toDigits 10 n with
  | nil => exact absurd hcases Nat.toDigits_ne_nil
  | cons c more =>
    rw [hcases] at hdigits hnumeral
    have hdigit := hdigits c mem_cons_self
    have hword : Latte.isWordChar c = true := by
      rw [Latte.isWordChar, Char.isAlphanum, hdigit, Bool.or_true, Bool.true_or]
    refine .token hgap (startsToken_of_isWordChar hword _) fun scan hrest => ?_
    have hnone : operator? symbols scan.cursor.previous scan.rest = none := by
      rw [hrest]
      refine operator?_eq_none hs ?_ ?_ ?_ _ _
      · exact (Bool.or_eq_false_iff.mp (Bool.or_eq_false_iff.mp
          (not_isNameStart_of_isDigit hdigit)).1).1
      · cases hsign : isSign c with
        | false => rfl
        | true => rw [not_isWordChar_of_isSign hsign] at hword; cases hword
      · rintro rfl
        cases hdigit
    rw [Scan.stepToken_digit hrest hdigit hnone, hrest, ← cons_append, hnumeral,
      length_cons]

end

/-! ### Signs, marks and strings -/

section

variable (hs : ∀ s ∈ symbols, isRegular s = true) {gap : List Char}
  (hgap : ∀ b ∈ gap, isBlank b = true) {follow : List Char}

include hs

theorem operator?_mark {c : Char} (hc : ['[', ']', ',', '\'', '"'].contains c = true) {scan : Scan}
    {text : List Char} (hrest : scan.rest = c :: text) :
    operator? symbols scan.cursor.previous scan.rest = none := by
  have hmarks : ['[', ']', ',', '\'', '"'].all
      (fun c => !c.isAlpha && !isSign c && c != '-') = true := by decide
  have hmark := all_eq_true.mp hmarks c (contains_iff_mem.mp hc)
  rw [Bool.and_eq_true, Bool.and_eq_true, Bool.not_eq_true', Bool.not_eq_true', bne_iff_ne] at hmark
  rw [hrest]
  exact operator?_eq_none hs hmark.1.1 hmark.1.2 hmark.2 _ _

include hgap

theorem Reads.minus (hmem : ['-'] ∈ symbols) (hfollow : follow.head? ≠ some '}') :
    Reads symbols (gap ++ ['-']) [.operator "-"] follow := by
  refine .token hgap ⟨by decide, by decide, fun _ => hfollow⟩ fun scan hrest => ?_
  refine Scan.stepToken_operator hrest (by decide) ?_
  rw [hrest]
  exact operator?_minus hs hmem _ _

theorem Reads.comma : Reads symbols (gap ++ [',']) [.punctuation ','] follow := by
  refine .token hgap ⟨by decide, by decide, fun h => absurd h (by decide)⟩ fun scan hrest => ?_
  rw [Scan.stepToken, if_neg (Scan.not_arrow hrest (by decide)), operator?_mark hs rfl hrest]
  rfl

theorem Reads.brackets {text : List Char} {kinds : List Token.Kind}
    (h : Reads symbols text kinds (']' :: follow)) :
    Reads symbols (gap ++ '[' :: (text ++ [']']))
      (.punctuation '[' :: (kinds ++ [.punctuation ']'])) follow := by
  intro scan hmode hrest
  have hrest : scan.rest = gap ++ '[' :: (text ++ ']' :: follow) := by
    rw [hrest, List.append_assoc, cons_append, List.append_assoc, singleton_append]
  have hskip : (scan.skip gap.length).rest = '[' :: (text ++ ']' :: follow) := by
    rw [Scan.rest_skip, hrest, drop_left]
  -- The opening bracket.
  have hopen : scan.step symbols = .ok ((scan.skip gap.length).openBracket '[' .square) := by
    rw [Scan.step_eq_stepToken hmode hrest hgap
      ⟨by decide, by decide, fun h => absurd h (by decide)⟩, Scan.stepToken,
      if_neg (Scan.not_arrow hskip (by decide)), operator?_mark hs rfl hskip]
    rfl
  have hopened : ((scan.skip gap.length).openBracket '[' .square).rest = text ++ ']' :: follow :=
    (Scan.rest_take 1 (.punctuation '[') _).trans (by rw [hskip]; rfl)
  obtain ⟨middle, hmiddle⟩ := h ((scan.skip gap.length).openBracket '[' .square) hmode hopened
  -- The closing bracket is the partner of the opening one.
  have hclose : middle.step symbols =
      .ok { middle.take 1 (.punctuation ']') with brackets := scan.brackets } := by
    have hmodes : middle.modes.head? = some .variable := hmiddle.modes_eq ▸ hmode
    have hrest : middle.rest = [] ++ ']' :: follow := hmiddle.rest_eq
    rw [Scan.step_eq_stepToken hmodes hrest (forall_mem_nil _)
      ⟨by decide, by decide, fun h => absurd h (by decide)⟩, length_nil, Scan.skip_zero,
      Scan.stepToken, if_neg (Scan.not_arrow hmiddle.rest_eq (by decide)),
      operator?_mark hs rfl hmiddle.rest_eq]
    change middle.closeBracket ']' .square = _
    rw [Scan.closeBracket, hmiddle.brackets_eq]
    rfl
  refine ⟨_, (Scan.Reaches.single ?_ hopen).trans
    (hmiddle.reaches.trans (.single ?_ hclose)), ?_, hmiddle.modes_eq, rfl, ?_⟩
  · rw [hrest]
    exact append_ne_nil_of_right_ne_nil _ (cons_ne_nil _ _)
  · rw [hmiddle.rest_eq]
    exact cons_ne_nil _ _
  · change (middle.take 1 (.punctuation ']')).rest = follow
    rw [Scan.rest_take, hmiddle.rest_eq]
    rfl
  · change (middle.take 1 (.punctuation ']')).kinds = _
    rw [Scan.kinds_take, hmiddle.kinds_eq]
    change (((scan.skip gap.length).take 1 (.punctuation '[')).kinds ++ kinds) ++ _ = _
    rw [Scan.kinds_take, List.append_assoc, List.append_assoc]
    rfl

theorem Reads.quoted_single (cs : List Char) :
    Reads symbols (gap ++ '\'' :: (cs.flatMap Latte.escapeSingle ++ ['\'']))
      [.string (String.ofList cs)] follow := by
  refine .token hgap ⟨by decide, by decide, fun h => absurd h (by decide)⟩ fun scan hrest => ?_
  have hlength : quotedLength? '\'' (fun _ => false)
      (cs.flatMap Latte.escapeSingle ++ '\'' :: follow) =
        some (cs.flatMap Latte.escapeSingle).length :=
    Latte.quotedLength?_flatMap Latte.escape_single (fun _ _ => rfl) (fun _ _ => rfl)
      ⟨by decide, by decide⟩ follow
  rw [Scan.stepToken, if_neg (Scan.not_arrow hrest (by decide)), operator?_mark hs rfl hrest]
  change scan.stepSingleQuoted = _
  rw [Scan.stepSingleQuoted, hrest, tail_cons, List.append_assoc, singleton_append,
    hlength]
  dsimp only
  rw [take_left, Latte.unescapeChars_flatMap Latte.escape_single, length_append]
  rfl

variable {cs : List Char}

/-- A string between double quotes in which no interpolation begins. -/
theorem Reads.quoted_double (hcs : Pattern.pair? '#' '{' cs = none) :
    Reads symbols (gap ++ '"' :: (cs.flatMap Latte.escapeDouble ++ ['"']))
      [.string (String.ofList cs)] follow := by
  intro scan hmode hrest
  have hquote : ∀ s ∈ symbols, s ≠ [] ∧ s.head? ≠ some '"' := by
    intro s hmem
    have hregular := hs s hmem
    cases s with
    | nil => cases hregular
    | cons c more =>
      refine ⟨cons_ne_nil _ _, fun hhead => ?_⟩
      cases hhead
      cases hregular
  obtain ⟨outer, hmodes⟩ := head?_eq_some_iff.mp hmode
  obtain ⟨next, hreaches, hfollow, hnextModes, hbrackets, -, span, htokens⟩ :=
    Scan.addsString_reads hquote hmodes rfl hgap (unbroken_flatMap hcs)
      (by rw [hrest, List.append_assoc, cons_append, List.append_assoc, singleton_append])
  refine ⟨next, hreaches, hfollow, hnextModes, hbrackets, ?_⟩
  rw [Latte.unescapeChars_flatMap Latte.escape_double] at htokens
  simp [Scan.kinds, htokens]

/-- **A string in quotes is read as that string**, if it is no string with an interpolation. -/
theorem Reads.quoted (hcs : cs.any Latte.isControl = true → Pattern.pair? '#' '{' cs = none) :
    Reads symbols (gap ++ Latte.quotedChars cs) [.string (String.ofList cs)] follow := by
  rw [Latte.quotedChars]
  split
  · rename_i hcontrol
    exact quoted_double hs hgap (hcs hcontrol)
  · exact quoted_single hs hgap cs

end

/-! ## Print statements -/

/-- The state at the start of a template that begins with a print statement. -/
def Scan.beforePrint (content : List Char) : Scan :=
  { cursor := Cursor.start (String.ofList ('{' :: '{' :: content)) }

/-- The state inside that print statement. -/
def Scan.insidePrint (content : List Char) : Scan :=
  (Scan.beforePrint content).openTag .varStart .variable

theorem Scan.rest_beforePrint (content : List Char) :
    (Scan.beforePrint content).rest = '{' :: '{' :: content := String.toList_ofList

theorem Scan.rest_insidePrint (text : List Char) :
    (Scan.insidePrint (' ' :: text)).rest = ' ' :: text := by
  have hmarker : marker ((Scan.beforePrint (' ' :: text)).rest.drop 2) = 0 := by
    rw [Scan.rest_beforePrint]
    rfl
  refine (Scan.rest_take _ .varStart (Scan.beforePrint (' ' :: text))).trans ?_
  rw [hmarker, Scan.rest_beforePrint]
  rfl

theorem Scan.step_beforePrint (text : List Char) :
    (Scan.beforePrint (' ' :: text)).step symbols = .ok (Scan.insidePrint (' ' :: text)) := by
  change (Scan.beforePrint (' ' :: text)).stepText = _
  rw [Scan.stepText, Scan.rest_beforePrint]
  rfl

theorem Scan.step_closePrint {scan : Scan} (hmodes : scan.modes = [.variable])
    (hbrackets : scan.brackets = []) (hrest : scan.rest = [' ', '}', '}']) :
    scan.step symbols = .ok { scan.take 3 .varEnd with modes := [] } := by
  rw [Scan.step, hmodes]
  dsimp only
  rw [Scan.stepTag.eq_def, hbrackets, hrest, hmodes]
  rfl

/-- **The tokens of a template that is a print statement.** -/
theorem tokenize_print {symbols : List String} {next : Scan}
    (h : (Scan.insidePrint (' ' :: text)).Advances (orderSymbols symbols) next kinds
      [' ', '}', '}']) :
    ∃ tokens, tokenize (String.ofList ('{' :: '{' :: ' ' :: text)) symbols = .ok tokens ∧
      tokens.toList.map (·.kind) = .varStart :: (kinds ++ [.varEnd, .eof]) := by
  have hopen : (Scan.beforePrint (' ' :: text)).rest ≠ [] := by
    rw [Scan.rest_beforePrint]
    exact cons_ne_nil _ _
  have hclose : next.rest ≠ [] := by
    rw [h.rest_eq]
    exact cons_ne_nil _ _
  have hreaches : Scan.Reaches (orderSymbols symbols) (Scan.beforePrint (' ' :: text))
      { next.take 3 .varEnd with modes := [] } :=
    (Scan.Reaches.single hopen (Scan.step_beforePrint text)).trans
      (h.reaches.trans (.single hclose (Scan.step_closePrint h.modes_eq h.brackets_eq h.rest_eq)))
  have hlast : ({ next.take 3 .varEnd with modes := [] } : Scan).rest = [] :=
    (Scan.rest_take 3 .varEnd next).trans (by rw [h.rest_eq]; rfl)
  have hlength : (Scan.beforePrint (' ' :: text)).rest.length ≤
      (String.ofList ('{' :: '{' :: ' ' :: text)).length :=
    Nat.le_of_eq (by rw [Scan.rest_beforePrint, String.length_ofList])
  have hrun := Scan.run_eq_of_reaches (orderSymbols_ne_nil symbols) hreaches hlast hlength
  rw [tokenize, ← Scan.beforePrint, hrun]
  refine ⟨_, rfl, ?_⟩
  calc ((next.take 3 .varEnd).take 0 .eof).kinds
      = (next.kinds ++ [.varEnd]) ++ [.eof] := by rw [Scan.kinds_take, Scan.kinds_take]
    _ = ((Scan.insidePrint (' ' :: text)).kinds ++ kinds) ++ [.varEnd, .eof] := by
      rw [h.kinds_eq, List.append_assoc _ [_]]
      rfl
    _ = .varStart :: (kinds ++ [.varEnd, .eof]) := rfl

end TwigToLatte.Lexer
