import TwigToLatte.Token.Lexer

/-!
# What one step of the lexer does

Everything later proved about whole runs goes through one inversion of `Scan.step`: a step that
succeeds changes the stacks of regions and brackets as `Turn` says, and the position and the tokens
as `Scan.Moves` says.

* `Delimits`, `Bracket.Marks` — the tokens that open and close tags, brackets and interpolations.
* `Turn` — the changes of the two stacks, each with the kind of token that goes with it.
* `Scan.Moves` — characters are skipped and then at most one token is made.
* `Scan.step_effect` — **every successful step is a turn and a move**.
* `Scan.run_preserves` — what steps preserve, runs preserve.
* `ordinary_tokenize` — what stops the lexer is a fault of the text.
-/

namespace TwigToLatte.Lexer

open List

open TwigToLatte.Text TwigToLatte.Pattern

/-! ## Kinds of tokens -/

/-- The tokens that open and close the tags of a region. -/
inductive Delimits : Mode → Token.Kind → Token.Kind → Prop
  | block : Delimits .block .blockStart .blockEnd
  | variable : Delimits .variable .varStart .varEnd

/-- The tokens that open and close a bracket. A quote is no token. -/
inductive Bracket.Marks : Bracket → Token.Kind → Token.Kind → Prop
  | paren : Marks .paren (.punctuation '(') (.punctuation ')')
  | square : Marks .square (.punctuation '[') (.punctuation ']')
  | curly : Marks .curly (.punctuation '{') (.punctuation '}')
  | interpolation : Marks .interpolation .interpolationStart .interpolationEnd

variable {mode : Mode} {opener closer opener' closer' : Token.Kind} {bracket : Bracket} {α : Type}

theorem Delimits.unique (h : Delimits mode opener closer) (h' : Delimits mode opener' closer') :
    opener = opener' ∧ closer = closer' := by
  cases h <;> cases h' <;> exact ⟨rfl, rfl⟩

theorem Bracket.Marks.unique (h : bracket.Marks opener closer) (h' : bracket.Marks opener' closer') :
    opener = opener' ∧ closer = closer' := by
  cases h <;> cases h' <;> exact ⟨rfl, rfl⟩

/-- Tokens outside tags. -/
def isLiteral : Token.Kind → Bool
  | .text _ | .comment _ | .verbatim _ => true
  | _ => false

/-- Tokens of expressions that neither open nor close anything. -/
def isPlain : Token.Kind → Bool
  | .name _ | .number _ | .string _ | .operator _ | .arrow => true
  | .punctuation mark => Scan.isSeparator mark
  | _ => false

/-- The tokens that expressions are made of. -/
def isExpressionToken : Token.Kind → Bool
  | .name _ | .number _ | .string _ | .operator _ | .arrow | .punctuation _
  | .interpolationStart | .interpolationEnd => true
  | _ => false

theorem isExpressionToken_of_isPlain {kind : Token.Kind} (h : isPlain kind = true) :
    isExpressionToken kind = true := by
  cases kind <;> first | rfl | cases h

theorem Bracket.Marks.isExpressionToken (h : bracket.Marks opener closer) :
    isExpressionToken opener = true ∧ isExpressionToken closer = true := by
  cases h <;> exact ⟨rfl, rfl⟩

/-- Whether a region holds the tokens of an expression. -/
def Mode.isExpression : Mode → Bool
  | .string => false
  | _ => true

theorem Delimits.isExpression (h : Delimits mode opener closer) : mode.isExpression = true := by
  cases h <;> rfl

/-! ## Turns of the stacks -/

/-- The changes of the stacks of regions and brackets that a step can make, and the kind of the
token that it makes, if any. -/
inductive Turn : List Mode → List Bracket → Option Token.Kind → List Mode → List Bracket → Prop
  | literal {brackets kind} (h : isLiteral kind = true) : Turn [] brackets (some kind) [] brackets
  | openTag {brackets mode opener closer} (h : Delimits mode opener closer) :
      Turn [] brackets (some opener) [mode] brackets
  | closeTag {mode outer opener closer} (h : Delimits mode opener closer) :
      Turn (mode :: outer) [] (some closer) outer []
  | blank {mode outer brackets} (hm : mode.isExpression = true) :
      Turn (mode :: outer) brackets none (mode :: outer) brackets
  | plain {mode outer brackets kind} (hm : mode.isExpression = true) (h : isPlain kind = true) :
      Turn (mode :: outer) brackets (some kind) (mode :: outer) brackets
  | openBracket {mode outer brackets bracket opener closer} (hm : mode.isExpression = true)
      (h : Bracket.Marks bracket opener closer) (hb : bracket ≠ .interpolation) :
      Turn (mode :: outer) brackets (some opener) (mode :: outer) (bracket :: brackets)
  | closeBracket {mode outer brackets bracket opener closer} (hm : mode.isExpression = true)
      (h : Bracket.Marks bracket opener closer) (hb : bracket ≠ .interpolation) :
      Turn (mode :: outer) (bracket :: brackets) (some closer) (mode :: outer) brackets
  | openQuote {mode outer brackets} (hm : mode.isExpression = true) :
      Turn (mode :: outer) brackets none (.string :: mode :: outer) (.quote :: brackets)
  | closeQuote {outer brackets} : Turn (.string :: outer) brackets none outer brackets.tail
  | part {outer brackets value} :
      Turn (.string :: outer) brackets (some (.string value)) (.string :: outer) brackets
  | openInterpolation {outer brackets} :
      Turn (.string :: outer) brackets (some .interpolationStart)
        (.interpolation :: .string :: outer) (.interpolation :: brackets)
  | closeInterpolation {outer brackets} :
      Turn (.interpolation :: outer) (.interpolation :: brackets) (some .interpolationEnd) outer
        brackets

/-! ## Moves of the position -/

/-- Characters that an expression may skip. -/
def isGap (c : Char) : Bool := isBlank c || c == '"'

namespace Scan

/-- The open brackets without their lines. -/
def bracketStack (scan : Scan) : List Bracket := scan.brackets.map (·.1)

/-- What a step does to the position and to the tokens, given the kind of the token that it
makes: it skips characters, inside a tag only, and then reads that token. -/
inductive Moves (scan : Scan) : Option Token.Kind → Scan → Prop
  | skip {n : Nat} {next : Scan} (hm : scan.modes ≠ []) (hn : 0 < n)
      (gap : ∀ c ∈ scan.rest.take n, isGap c = true)
      (cursor : next.cursor = (scan.skip n).cursor) (tokens : next.tokens = scan.tokens) :
      Moves scan none next
  | take {k n : Nat} {kind : Token.Kind} {next : Scan}
      (hm : k = 0 ∨ scan.modes ≠ []) (hn : 0 < n) (hrest : (scan.skip k).rest ≠ [])
      (gap : ∀ c ∈ scan.rest.take k, isGap c = true)
      (text : ∀ value, kind = .text value →
        k = 0 ∧ n = textLength scan.rest ∧ value = String.ofList (scan.rest.take n))
      (cursor : next.cursor = ((scan.skip k).take n kind).cursor)
      (tokens : next.tokens = ((scan.skip k).take n kind).tokens) :
      Moves scan (some kind) next

/-- The effect of a step, for some kind of token. -/
def Effect (scan next : Scan) : Prop :=
  ∃ made, Turn scan.modes scan.bracketStack made next.modes next.bracketStack ∧
    Moves scan made next

@[simp] theorem rest_skip (n : Nat) (scan : Scan) : (scan.skip n).rest = scan.rest.drop n := by
  simp [rest, skip]

@[simp] theorem brackets_skip (n : Nat) (scan : Scan) : (scan.skip n).brackets = scan.brackets :=
  rfl

@[simp] theorem skip_zero (scan : Scan) : scan.skip 0 = scan := rfl

variable {scan next : Scan} {n : Nat} {kind opener closer : Token.Kind}
  {symbol text tail : List Char} {symbols : List (List Char)} {c : Char} {mode : Mode}
  {outer : List Mode} {bracket : Bracket}

theorem Moves.here (hn : 0 < n) (hrest : scan.rest ≠ []) (text : ∀ value, kind = .text value →
      n = textLength scan.rest ∧ value = String.ofList (scan.rest.take n))
    (cursor : next.cursor = (scan.take n kind).cursor)
    (tokens : next.tokens = (scan.take n kind).tokens) : Moves scan (some kind) next :=
  .take (k := 0) (.inl rfl) hn hrest (by simp) (fun value h => ⟨rfl, text value h⟩) cursor
    tokens

/-! ## Lengths of patterns -/

theorem isGap_of_mem_blanks (text : List Char) : ∀ c ∈ text.take (blanks text), isGap c = true := by
  intro c hc
  rw [blanks, ← prefix_iff_eq_take.mp ( takeWhile_prefix _)] at hc
  have hblank : isBlank c = true := all_eq_true.mp all_takeWhile c hc
  simp [isGap, hblank]

theorem symbol?_pos (hs : symbol ≠ []) (h : symbol? symbol text = some n) : 0 < n := by
  cases symbol with
  | nil => exact absurd rfl hs
  | cons c symbol =>
    rw [symbol?] at h
    split at h
    · simp only at h
      split at h
      · cases h
      · obtain ⟨m, _, rfl⟩ := Option.map_eq_some_iff.mp h
        omega
    · split at h
      · obtain ⟨m, _, rfl⟩ := Option.map_eq_some_iff.mp h
        omega
      · cases h

theorem operator?_pos (hs : ∀ s ∈ symbols, s ≠ []) {previous : Option Char}
    (h : operator? symbols previous text = some (symbol, n)) : 0 < n := by
  obtain ⟨s, hmem, hfound⟩ := exists_of_findSome?_eq_some h
  obtain ⟨m, hat, heq⟩ := Option.map_eq_some_iff.mp hfound
  obtain ⟨rfl, rfl⟩ := Prod.mk.inj heq
  unfold operatorAt? at hat
  split at hat
  · cases hat
  · split at hat
    · cases hat
    · rename_i length hlen
      split at hat
      · cases hat
      · cases hat
        exact symbol?_pos (hs s hmem) hlen

theorem isNameChar_of_isNameStart (h : isNameStart c = true) : isNameChar c = true := by
  simp only [isNameStart, isNameChar, Bool.or_eq_true, Char.isAlphanum] at h ⊢
  rcases h with (h | h) | h
  · exact .inl (.inl (.inl h))
  · exact .inl (.inr h)
  · exact .inr h

theorem numeral_pos {rest : List Char} (h : c.isDigit = true) : 0 < (numeral (c :: rest)).1 := by
  have hd : 0 < (digits (c :: rest)).length := by simp [digits, h]
  simp only [numeral]
  omega

/-! ## Steps outside tags -/

theorem openTag_effect (h : Delimits mode opener closer) (hm : scan.modes = [])
    (hrest : scan.rest ≠ []) : Effect scan (scan.openTag opener mode) := by
  refine ⟨some opener, ?_, .here (n := 2 + marker (scan.rest.drop 2)) (by omega) hrest ?_ rfl rfl⟩
  · have ht : Turn [] scan.bracketStack (some opener) [mode] scan.bracketStack := .openTag h
    simpa [openTag, take, bracketStack, hm] using ht
  · intro value hv
    cases h <;> cases hv

theorem literal_effect (hk : isLiteral kind = true) (hm : scan.modes = []) (hrest : scan.rest ≠ [])
    (hn : 0 < n) (text : ∀ value, kind = .text value →
      n = textLength scan.rest ∧ value = String.ofList (scan.rest.take n)) :
    Effect scan (scan.take n kind) := by
  refine ⟨some kind, ?_, .here hn hrest text rfl rfl⟩
  have ht : Turn [] scan.bracketStack (some kind) [] scan.bracketStack := .literal hk
  simpa [take, bracketStack, hm] using ht

theorem stepComment_effect (hm : scan.modes = []) (hrest : scan.rest ≠ [])
    (h : scan.stepComment = .ok next) : Effect scan next := by
  unfold stepComment at h
  split at h
  · cases h
  · cases h
    exact literal_effect rfl hm hrest (by omega) (fun _ hv => by cases hv)

theorem namedTag?_pos {name : List Char} (h : namedTag? name text = some n) : 0 < n := by
  unfold namedTag? at h
  split at h
  · obtain ⟨m, -, rfl⟩ := Option.map_eq_some_iff.mp h
    omega
  · cases h

theorem stepVerbatim_effect {opened : Nat} (ho : 0 < opened) (hm : scan.modes = [])
    (hrest : scan.rest ≠ []) (h : scan.stepVerbatim opened = .ok next) : Effect scan next := by
  unfold stepVerbatim at h
  simp only at h
  split at h
  · cases h
  · cases h
    exact literal_effect rfl hm hrest (by omega) (fun _ hv => by cases hv)

theorem stepText_effect (hm : scan.modes = []) (hrest : scan.rest ≠ [])
    (h : scan.stepText = .ok next) : Effect scan next := by
  unfold stepText at h
  simp only at h
  split at h
  · rename_i hn
    cases h
    refine literal_effect rfl hm hrest hn ?_
    intro value hv
    cases hv
    exact ⟨rfl, rfl⟩
  · split at h
    · exact stepComment_effect hm hrest h
    · split at h
      · split at h
        · rename_i opened ho
          exact stepVerbatim_effect (namedTag?_pos ho) hm hrest h
        · cases h
          exact openTag_effect .block hm hrest
      · cases h
        exact openTag_effect .variable hm hrest

/-! ## Steps in expressions -/

theorem Moves.afterBlanks (hm : scan.modes ≠ []) (hn : 0 < n)
    (hrest : scan.rest.drop (blanks scan.rest) ≠ []) (text : ∀ value, kind ≠ .text value)
    (cursor : next.cursor = ((scan.skip (blanks scan.rest)).take n kind).cursor)
    (tokens : next.tokens = ((scan.skip (blanks scan.rest)).take n kind).tokens) :
    Moves scan (some kind) next :=
  .take (.inr hm) hn (by simpa using hrest) (isGap_of_mem_blanks _)
    (fun value h => absurd h (text value)) cursor tokens

/-- A token of an expression after blanks that moves neither stack. -/
theorem plain_effect (hk : isPlain kind = true) (hm : scan.modes = mode :: outer)
    (he : mode.isExpression = true) (hrest : scan.rest.drop (blanks scan.rest) ≠ []) (hn : 0 < n) :
    Effect scan ((scan.skip (blanks scan.rest)).take n kind) := by
  refine ⟨some kind, ?_, .afterBlanks (by simp [hm]) hn hrest ?_ rfl rfl⟩
  · have ht : Turn (mode :: outer) scan.bracketStack (some kind) (mode :: outer)
        scan.bracketStack := .plain he hk
    simpa [take, skip, bracketStack, hm] using ht
  · intro value hv
    subst hv
    cases hk

theorem marks_of_ofOpener? (h : Bracket.ofOpener? c = some bracket) :
    ∃ closer, bracket.Marks (.punctuation c) closer ∧ bracket ≠ .interpolation := by
  unfold Bracket.ofOpener? at h
  split at h <;> cases h
  · exact ⟨_, .paren, nofun⟩
  · exact ⟨_, .square, nofun⟩
  · exact ⟨_, .curly, nofun⟩

theorem marks_of_ofCloser? (h : Bracket.ofCloser? c = some bracket) :
    ∃ opener, bracket.Marks opener (.punctuation c) ∧ bracket ≠ .interpolation := by
  unfold Bracket.ofCloser? at h
  split at h <;> cases h
  · exact ⟨_, .paren, nofun⟩
  · exact ⟨_, .square, nofun⟩
  · exact ⟨_, .curly, nofun⟩

theorem openBracket_effect (hb : Bracket.ofOpener? c = some bracket)
    (hm : scan.modes = mode :: outer) (he : mode.isExpression = true)
    (hrest : scan.rest.drop (blanks scan.rest) ≠ []) :
    Effect scan ((scan.skip (blanks scan.rest)).openBracket c bracket) := by
  obtain ⟨closer, hmarks, hne⟩ := marks_of_ofOpener? hb
  refine ⟨some (.punctuation c), ?_, .afterBlanks (by simp [hm]) Nat.one_pos hrest nofun rfl rfl⟩
  have ht : Turn (mode :: outer) scan.bracketStack (some (.punctuation c)) (mode :: outer)
      (bracket :: scan.bracketStack) := .openBracket he hmarks hne
  simpa [openBracket, take, skip, bracketStack, hm] using ht

theorem closeBracket_effect (hb : Bracket.ofCloser? c = some bracket)
    (hm : scan.modes = mode :: outer) (he : mode.isExpression = true)
    (hrest : scan.rest.drop (blanks scan.rest) ≠ [])
    (h : (scan.skip (blanks scan.rest)).closeBracket c bracket = .ok next) : Effect scan next := by
  obtain ⟨opener, hmarks, hne⟩ := marks_of_ofCloser? hb
  unfold closeBracket at h
  simp only [brackets_skip] at h
  split at h
  · cases h
  · rename_i opened line brackets hopen
    split at h
    · rename_i heq
      cases h
      subst heq
      refine ⟨some (.punctuation c), ?_,
        .afterBlanks (by simp [hm]) Nat.one_pos hrest nofun rfl rfl⟩
      have ht : Turn (mode :: outer) (opened :: brackets.map (·.1)) (some (.punctuation c))
          (mode :: outer) (brackets.map (·.1)) := .closeBracket he hmarks hne
      simpa [take, skip, bracketStack, hm, hopen] using ht
    · cases h

theorem stepDoubleQuoted_effect (hm : scan.modes = mode :: outer) (he : mode.isExpression = true)
    (hrest : scan.rest.drop (blanks scan.rest) = '"' :: tail) :
    Effect scan (scan.skip (blanks scan.rest)).stepDoubleQuoted := by
  unfold stepDoubleQuoted enterString
  split
  · exact plain_effect rfl hm he (by simp [hrest]) (by omega)
  · -- The blanks and the quote are skipped together.
    refine ⟨none, ?_, .skip (n := blanks scan.rest + 1) (by simp [hm]) (by omega) ?_ ?_ rfl⟩
    · have ht : Turn (mode :: outer) scan.bracketStack none (.string :: mode :: outer)
          (.quote :: scan.bracketStack) := .openQuote he
      simpa [skip, bracketStack, hm] using ht
    · intro c hc
      rw [take_add, mem_append, hrest] at hc
      rcases hc with hc | hc
      · exact isGap_of_mem_blanks _ c hc
      · simp only [take_succ_cons, take_zero, mem_singleton] at hc
        subst hc
        rfl
    · simp only [skip, Cursor.advance_add]

theorem stepToken_effect (hs : ∀ s ∈ symbols, s ≠ []) (hm : scan.modes = mode :: outer)
    (he : mode.isExpression = true) (hrest : scan.rest.drop (blanks scan.rest) = c :: tail)
    (h : (scan.skip (blanks scan.rest)).stepToken symbols c = .ok next) : Effect scan next := by
  have hne : scan.rest.drop (blanks scan.rest) ≠ [] := by simp [hrest]
  unfold stepToken at h
  simp only [rest_skip, hrest] at h
  split at h
  · cases h
    exact plain_effect rfl hm he hne (by omega)
  · split at h
    · rename_i symbol length hop
      cases h
      exact plain_effect rfl hm he hne (operator?_pos hs hop)
    · split at h
      · rename_i hname
        cases h
        refine plain_effect rfl hm he hne ?_
        simp [isNameChar_of_isNameStart hname]
      · split at h
        · rename_i hdigit
          cases h
          exact plain_effect rfl hm he hne (numeral_pos hdigit)
        · split at h
          · rename_i bracket _ hopen
            cases h
            exact openBracket_effect hopen hm he hne
          · rename_i bracket hclose
            exact closeBracket_effect hclose hm he hne h
          · split at h
            · rename_i hsep
              cases h
              exact plain_effect hsep hm he hne Nat.one_pos
            · split at h
              · unfold stepSingleQuoted at h
                split at h
                · cases h
                · cases h
                  exact plain_effect rfl hm he hne (by omega)
              · split at h
                · rename_i hquote
                  cases h
                  exact stepDoubleQuoted_effect hm he (hquote ▸ hrest)
                · cases h

theorem stepExpression_effect (hs : ∀ s ∈ symbols, s ≠ []) (hm : scan.modes = mode :: outer)
    (he : mode.isExpression = true) (hrest : scan.rest ≠ [])
    (h : scan.stepExpression symbols = .ok next) : Effect scan next := by
  unfold stepExpression at h
  simp only [rest_skip] at h
  split at h
  · -- Only blanks are left, and as there is text left, at least one.
    rename_i hnil
    cases h
    have hlen := drop_eq_nil_iff.mp hnil
    have hpos := length_pos_iff.mpr hrest
    refine ⟨none, ?_, .skip (by simp [hm]) (by omega) (isGap_of_mem_blanks _) rfl rfl⟩
    have ht : Turn (mode :: outer) scan.bracketStack none (mode :: outer) scan.bracketStack :=
      .blank he
    simpa [skip, bracketStack, hm] using ht
  · rename_i c tail hcons
    exact stepToken_effect hs hm he hcons h

theorem stepTag_effect (hs : ∀ s ∈ symbols, s ≠ []) {mark : Char}
    (hd : Delimits mode opener closer) (hm : scan.modes = mode :: outer) (hrest : scan.rest ≠ [])
    (h : scan.stepTag symbols mark closer = .ok next) : Effect scan next := by
  unfold stepTag at h
  split at h
  · rename_i length hnone hend
    cases h
    have hpos : 0 < length := by
      unfold tagEnd? at hend
      simp only at hend
      split at hend
      · cases hend; omega
      · cases hend
    refine ⟨some closer, ?_, .here hpos hrest (fun _ hv => by cases hd <;> cases hv) rfl rfl⟩
    have ht : Turn (mode :: outer) [] (some closer) outer [] := .closeTag hd
    simpa [take, bracketStack, hm, hnone] using ht
  · exact stepExpression_effect hs hm hd.isExpression hrest h

/-! ## Steps in strings -/

theorem stringRun_pos (hq : c ≠ '"') (hi : startsWith '#' '{' (c :: text) = false) :
    0 < stringRun (c :: text) := by
  unfold stringRun
  rw [if_neg hq]
  split
  · split <;> omega
  · split
    · rename_i hhash
      simp only [Bool.and_eq_true, beq_iff_eq] at hhash
      simp [startsWith, hhash.1, hhash.2] at hi
    · omega

theorem stepString_effect (hm : scan.modes = .string :: outer) (hrest : scan.rest ≠ []) :
    Effect scan scan.stepString := by
  obtain ⟨c, tail, hcons⟩ := exists_cons_of_ne_nil hrest
  unfold stepString
  split
  · refine ⟨some .interpolationStart, ?_, .here (n := 2 + blanks (scan.rest.drop 2)) (by omega)
      hrest (fun _ hv => by cases hv) rfl rfl⟩
    have ht : Turn (.string :: outer) scan.bracketStack (some .interpolationStart)
        (.interpolation :: .string :: outer) (.interpolation :: scan.bracketStack) :=
      .openInterpolation
    simpa [take, bracketStack, hm] using ht
  · rename_i hhash
    split
    · rename_i hquote
      refine ⟨none, ?_, .skip (n := 1) (by simp [hm]) Nat.one_pos ?_ rfl rfl⟩
      · have ht : Turn (.string :: outer) scan.bracketStack none outer scan.bracketStack.tail :=
          .closeQuote
        simpa [skip, bracketStack, hm, map_tail] using ht
      · intro d hd
        simp only [hcons, head?_cons, beq_iff_eq, Option.some.injEq] at hquote
        simp only [hcons, take_succ_cons, take_zero, mem_singleton] at hd
        rw [hd, hquote]
        rfl
    · rename_i hquote
      have hpos : 0 < stringRun scan.rest := by
        rw [hcons] at hhash hquote ⊢
        exact stringRun_pos (by simpa using hquote) (by simpa using hhash)
      refine ⟨some (.string _), ?_, .here hpos hrest (fun _ hv => by cases hv) rfl rfl⟩
      simp only [take, bracketStack, hm]
      exact .part

theorem stepInterpolation_effect (hs : ∀ s ∈ symbols, s ≠ [])
    (hm : scan.modes = .interpolation :: outer) (hrest : scan.rest ≠ [])
    (h : scan.stepInterpolation symbols = .ok next) : Effect scan next := by
  unfold stepInterpolation at h
  simp only at h
  split at h
  · rename_i line brackets hopen
    split at h
    · rename_i hbrace
      cases h
      have hne : scan.rest.drop (blanks scan.rest) ≠ [] := by
        intro hnil
        simp [hnil] at hbrace
      refine ⟨some .interpolationEnd, ?_,
        .afterBlanks (by simp [hm]) Nat.one_pos hne nofun rfl rfl⟩
      have ht : Turn (.interpolation :: outer) (.interpolation :: brackets.map (·.1))
          (some .interpolationEnd) outer (brackets.map (·.1)) := .closeInterpolation
      simpa [take, skip, bracketStack, hm, hopen] using ht
    · exact stepExpression_effect hs hm rfl hrest h
  · exact stepExpression_effect hs hm rfl hrest h

/-! ## Steps and runs -/

/-- **Every successful step is a turn of the stacks and a move of the position.** -/
theorem step_effect (hs : ∀ s ∈ symbols, s ≠ []) (hrest : scan.rest ≠ [])
    (h : scan.step symbols = .ok next) : Effect scan next := by
  unfold step at h
  split at h
  · rename_i hm
    exact stepText_effect hm hrest h
  · rename_i outer hm
    exact stepTag_effect hs .block hm hrest h
  · rename_i outer hm
    exact stepTag_effect hs .variable hm hrest h
  · rename_i outer hm
    cases h
    exact stepString_effect hm hrest
  · rename_i outer hm
    exact stepInterpolation_effect hs hm hrest h

/-- What every effect of a step preserves, every run preserves. -/
theorem run_preserves (hs : ∀ s ∈ symbols, s ≠ []) {P : Scan → Prop}
    (hstep : ∀ scan next, P scan → Effect scan next → P next) :
    ∀ {limit : Nat} {scan last : Scan}, P scan → scan.run symbols limit = .ok last → P last
  | 0, scan, last, hP, h => by
    cases h
    exact hP
  | limit + 1, scan, last, hP, h => by
    unfold run at h
    split at h
    · cases h
      exact hP
    · rename_i hrest
      split at h
      · cases h
      · rename_i next hnext
        have heffect := step_effect hs (by simpa using hrest) hnext
        exact run_preserves hs hstep (hstep scan next hP heffect) h

theorem Moves.length_lt {made : Option Token.Kind} (hrest : scan.rest ≠ [])
    (h : Moves scan made next) : next.rest.length < scan.rest.length := by
  have hpos := length_pos_iff.mpr hrest
  cases h with
  | skip hm hn gap cursor tokens =>
    rw [rest, cursor]
    simp only [Scan.skip, Cursor.rest_advance, length_drop, rest] at hpos ⊢
    omega
  | take hm hn hrest gap text cursor tokens =>
    rw [rest, cursor]
    simp only [Scan.take, Scan.skip, Cursor.rest_advance, length_drop, rest] at hpos ⊢
    omega

/-- A run with as many steps as there are characters reads the whole text. -/
theorem rest_run (hs : ∀ s ∈ symbols, s ≠ []) :
    ∀ {limit : Nat} {scan last : Scan}, scan.rest.length ≤ limit →
      scan.run symbols limit = .ok last → last.rest = []
  | 0, scan, last, hlen, h => by
    cases h
    exact length_eq_zero_iff.mp (by omega)
  | limit + 1, scan, last, hlen, h => by
    unfold run at h
    split at h
    · rename_i hnil
      cases h
      exact List.isEmpty_iff.mp hnil
    · rename_i hrest
      have hne : scan.rest ≠ [] := by simpa using hrest
      split at h
      · cases h
      · rename_i next hnext
        obtain ⟨made, _, hmove⟩ := step_effect hs hne hnext
        have hlt := hmove.length_lt hne
        exact rest_run hs (by omega) h

end Scan

theorem orderSymbols_ne_nil (symbols : List String) : ∀ s ∈ orderSymbols symbols, s ≠ [] := by
  intro s hs hnil
  have hmem := (mem_mergeSort).mp hs
  simp [hnil] at hmem

/-- A successful tokenization is a run that ends outside tags, at the end of the text. -/
theorem tokenize_eq_ok {text : String} {symbols : List String} {tokens : Array Token}
    (h : tokenize text symbols = .ok tokens) :
    ∃ last : Scan, ({ cursor := Cursor.start text } : Scan).run (orderSymbols symbols) text.length
        = .ok last ∧ last.rest = [] ∧ last.modes = [] ∧ tokens = (last.take 0 .eof).tokens := by
  unfold tokenize at h
  simp only at h
  split at h
  · cases h
  · rename_i last hrun
    refine ⟨last, hrun, ?_, ?_⟩
    · have hlen : text.toList.length ≤ text.length := Nat.le_of_eq String.length_toList
      exact Scan.rest_run (orderSymbols_ne_nil symbols) hlen hrun
    · unfold Scan.finish at h
      split at h <;> cases h
      rename_i hm
      exact ⟨hm, rfl⟩

/-! ## Faults -/

/-- The outcome is no broken invariant. -/
def Ordinary {α : Type} (outcome : Except Fault α) : Prop :=
  ∀ fault, outcome = .error fault → fault.cause.kind ≠ .internal

theorem Ordinary.ok (a : α) : Ordinary (.ok a : Except Fault α) := nofun

theorem Ordinary.error {cause : Cause} {line : Nat} (h : cause.kind ≠ .internal) :
    Ordinary (.error ⟨cause, line⟩ : Except Fault α) := by
  rintro _ ⟨⟩
  exact h

namespace Scan

theorem ordinary_stepText (scan : Scan) : Ordinary scan.stepText := by
  unfold stepText stepComment stepVerbatim
  dsimp only
  split
  · exact .ok _
  split
  · split
    · exact .error nofun
    · exact .ok _
  split
  · split
    · split
      · exact .error nofun
      · exact .ok _
    · exact .ok _
  · exact .ok _

theorem ordinary_closeBracket (mark : Char) (bracket : Bracket) (scan : Scan) :
    Ordinary (scan.closeBracket mark bracket) := by
  unfold closeBracket
  split
  · exact .error nofun
  · split
    · exact .ok _
    · exact .error nofun

theorem ordinary_stepSingleQuoted (scan : Scan) : Ordinary scan.stepSingleQuoted := by
  unfold stepSingleQuoted
  split
  · exact .error nofun
  · exact .ok _

theorem ordinary_stepToken (symbols : List (List Char)) (c : Char) (scan : Scan) :
    Ordinary (scan.stepToken symbols c) := by
  unfold stepToken
  split
  · exact .ok _
  split
  · exact .ok _
  split
  · exact .ok _
  split
  · exact .ok _
  split
  · exact .ok _
  · exact ordinary_closeBracket _ _ scan
  · split
    · exact .ok _
    split
    · exact ordinary_stepSingleQuoted scan
    split
    · exact .ok _
    · exact .error nofun

theorem ordinary_stepExpression (symbols : List (List Char)) (scan : Scan) :
    Ordinary (scan.stepExpression symbols) := by
  unfold stepExpression
  dsimp only
  split
  · exact .ok _
  · exact ordinary_stepToken _ _ _

theorem ordinary_step (symbols : List (List Char)) (scan : Scan) :
    Ordinary (scan.step symbols) := by
  have htag : ∀ closer kind, Ordinary (scan.stepTag symbols closer kind) := by
    intro closer kind
    unfold stepTag
    split
    · exact .ok _
    · exact ordinary_stepExpression symbols scan
  unfold step
  split
  · exact ordinary_stepText scan
  · exact htag _ _
  · exact htag _ _
  · exact .ok _
  · unfold stepInterpolation
    dsimp only
    split
    · split
      · exact .ok _
      · exact ordinary_stepExpression symbols scan
    · exact ordinary_stepExpression symbols scan

theorem ordinary_run (symbols : List (List Char)) (limit : Nat) (scan : Scan) :
    Ordinary (scan.run symbols limit) := by
  induction limit generalizing scan with
  | zero => exact .ok _
  | succ limit ih =>
    unfold run
    split
    · exact .ok _
    split
    · rename_i fault hfault
      rintro _ ⟨⟩
      exact ordinary_step symbols scan fault hfault
    · exact ih _

theorem ordinary_finish (scan : Scan) : Ordinary scan.finish := by
  unfold finish
  split
  · exact .ok _
  · exact .error nofun
  · exact .error nofun
  · exact .error nofun
  · exact .error nofun

end Scan

theorem ordinary_tokenize (text : String) (symbols : List String) :
    Ordinary (tokenize text symbols) := by
  unfold tokenize
  dsimp only
  split
  · rename_i fault hfault
    rintro _ ⟨⟩
    exact Scan.ordinary_run _ _ _ fault hfault
  · exact Scan.ordinary_finish _

end TwigToLatte.Lexer
