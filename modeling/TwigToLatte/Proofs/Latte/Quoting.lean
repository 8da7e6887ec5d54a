import TwigToLatte.Latte.Literal
import TwigToLatte.Token.Lexer

/-!
# Quoted strings

A string literal in quotes holds escapes, and the lexer resolves them.

* `Escape` — the ways to write a character between quotes.
* `escape_single`, `escape_double` — string literals use them.
* `unescapeChars_flatMap` — **resolving the escapes gives the string back**.
* `quotedLength?_flatMap` — the lexer finds the end of a string.
* `string_reads_back` — a string literal in quotes is resolved to its string, and ends at its quote.
-/

namespace TwigToLatte.Latte

open List

open Text

/-- The ways to write a character between quotes: as it is, or with a backslash and more characters
that end no string and are resolved to it. -/
inductive Escape (quote c : Char) : List Char → Prop
  | plain (hslash : c ≠ '\\') (hquote : c ≠ quote) : Escape quote c [c]
  | escaped (x : Char) (more : List Char)
      (hmore : ∀ d ∈ more, d ≠ '\\' ∧ d ≠ quote ∧ d ≠ '#')
      (hresolves : ∀ rest, escapeAt x (more ++ rest) = (c, more.length + 1)) :
      Escape quote c ('\\' :: x :: more)

variable {c : Char}

theorem Escape.short {quote x : Char} (h : ∀ rest, escapeAt x rest = (c, 1)) :
    Escape quote c ['\\', x] :=
  .escaped x [] (forall_mem_nil _) h

/-! ## The escapes of string literals -/

theorem escape_single (c : Char) : Escape '\'' c (escapeSingle c) := by
  unfold escapeSingle
  split
  · rename_i hc
    rcases Bool.or_eq_true_iff.mp hc with hslash | hquote
    · rw [beq_iff_eq.mp hslash]
      exact .short fun _ => rfl
    · rw [beq_iff_eq.mp hquote]
      exact .short fun _ => rfl
  · rename_i hc
    rw [Bool.or_eq_true, beq_iff_eq, beq_iff_eq, not_or] at hc
    exact .plain hc.1 hc.2

theorem octalDigit?_digitChar : ∀ d < 8, octalDigit? (Nat.digitChar d) = some d := by decide

theorem digitChar_ne : ∀ d < 8, controlEscape? (Nat.digitChar d) = none ∧ Nat.digitChar d ≠ 'x' ∧
    Nat.digitChar d ≠ '\\' ∧ Nat.digitChar d ≠ '"' ∧ Nat.digitChar d ≠ '#' := by decide

theorem escapeAt_octal (h : isControl c = true) (rest : List Char) :
    escapeAt (Nat.digitChar (c.toNat / 64 % 8))
      (Nat.digitChar (c.toNat / 8 % 8) :: Nat.digitChar (c.toNat % 8) :: rest) = (c, 3) := by
  have hc : c.toNat < 32 := of_decide_eq_true h
  have hfirst := digitChar_ne (c.toNat / 64 % 8) (by omega)
  have hdigits : leadingDigits octalDigit? 3 (Nat.digitChar (c.toNat / 64 % 8) ::
      Nat.digitChar (c.toNat / 8 % 8) :: Nat.digitChar (c.toNat % 8) :: rest) =
        [c.toNat / 64 % 8, c.toNat / 8 % 8, c.toNat % 8] := by
    simp only [leadingDigits, octalDigit?_digitChar _ (Nat.mod_lt _ (by decide : 0 < 8))]
  have hvalue : ofDigits 8 [c.toNat / 64 % 8, c.toNat / 8 % 8, c.toNat % 8] % 256 = c.toNat := by
    simp only [ofDigits, foldl_cons, foldl_nil]
    omega
  rw [escapeAt, hfirst.1]
  dsimp only
  rw [if_neg (fun hx => hfirst.2.1 hx.1), hdigits, if_pos (cons_ne_nil _ _), hvalue,
    Char.ofNat_toNat]
  rfl

theorem escape_double (c : Char) : Escape '"' c (escapeDouble c) := by
  unfold escapeDouble
  split
  case h_10 hslash hquote _ _ _ _ _ _ _ =>
    split
    · rename_i hcontrol
      refine .escaped _ [Nat.digitChar (c.toNat / 8 % 8), Nat.digitChar (c.toNat % 8)] ?_
        (escapeAt_octal hcontrol)
      have hdigit : ∀ n, Nat.digitChar (n % 8) ≠ '\\' ∧ Nat.digitChar (n % 8) ≠ '"' ∧
          Nat.digitChar (n % 8) ≠ '#' := fun n => (digitChar_ne _ (Nat.mod_lt _ (by decide))).2.2
      exact forall_mem_cons.mpr ⟨hdigit _, forall_mem_singleton.mpr (hdigit _)⟩
    · exact .plain hslash hquote
  all_goals exact .short fun _ => rfl

/-! ## Reading escapes -/

section

variable {quote : Char} {write : Char → List Char} (hwrite : ∀ c, Escape quote c (write c))
  {c : Char} {written : List Char} {stop : Char → Bool}

theorem Escape.unescape (h : Escape quote c written) (rest : List Char) :
    unescapeChars (written ++ rest) = c :: unescapeChars rest := by
  cases h with
  | plain hslash =>
    rw [singleton_append, unescapeChars.eq_def]
    exact if_neg hslash
  | escaped x more _ hresolves =>
    rw [cons_append, cons_append, unescapeChars.eq_def]
    dsimp only
    rw [if_pos rfl, hresolves rest]
    dsimp only
    rw [Nat.add_sub_cancel, drop_left]

theorem quotedLength?_cons (h : c ≠ '\\') (stop : Char → Bool) (rest : List Char) :
    quotedLength? quote stop (c :: rest) =
      if stop c then none else if c = quote then some 0
      else (quotedLength? quote stop rest).map (· + 1) := by
  rw [quotedLength?.eq_def]
  exact if_neg h

/-- Characters that neither hide another one nor end the string. -/
theorem quotedLength?_append {plain : List Char}
    (h : ∀ d ∈ plain, d ≠ '\\' ∧ stop d = false ∧ d ≠ quote) (rest : List Char) :
    quotedLength? quote stop (plain ++ rest) =
      (quotedLength? quote stop rest).map (· + plain.length) := by
  induction plain with
  | nil => exact (congrFun Option.map_id _).symm
  | cons d plain ih =>
    obtain ⟨⟨hslash, hstop, hquote⟩, h⟩ := forall_mem_cons.mp h
    rw [cons_append, quotedLength?_cons hslash, hstop, if_neg Bool.false_ne_true,
      if_neg hquote, ih h, Option.map_map]
    rfl

theorem Escape.quotedLength? (h : Escape quote c written) (hc : stop c = false)
    (hstop : ∀ d, d ≠ '#' → stop d = false) (rest : List Char) :
    Text.quotedLength? quote stop (written ++ rest) =
      (Text.quotedLength? quote stop rest).map (· + written.length) := by
  cases h with
  | plain hslash hquote =>
    exact quotedLength?_append (forall_mem_singleton.mpr ⟨hslash, hc, hquote⟩) rest
  | escaped x more hmore _ =>
    have htail : Text.quotedLength? quote stop (more ++ rest) =
        (Text.quotedLength? quote stop rest).map (· + more.length) :=
      quotedLength?_append (fun d hd =>
        ⟨(hmore d hd).1, hstop d (hmore d hd).2.2, (hmore d hd).2.1⟩) rest
    rw [cons_append, cons_append, Text.quotedLength?.eq_def]
    dsimp only
    rw [if_pos rfl, htail, Option.map_map]
    rfl

theorem stringRun_cons (hquote : c ≠ '"') (hslash : c ≠ '\\') {rest : List Char}
    (hrest : c = '#' → rest.head? ≠ some '{') :
    Lexer.Scan.stringRun (c :: rest) = Lexer.Scan.stringRun rest + 1 := by
  have hpair : ¬ (c == '#' && rest.head? == some '{') = true := by
    rw [Bool.and_eq_true, beq_iff_eq, beq_iff_eq]
    exact fun h => hrest h.1 h.2
  rw [Lexer.Scan.stringRun.eq_def]
  dsimp only
  rw [if_neg hquote, if_neg hslash, if_neg hpair]

/-! ## Whole strings -/

include hwrite

/-- **Resolving the escapes gives the string back.** -/
theorem unescapeChars_flatMap (cs : List Char) : unescapeChars (cs.flatMap write) = cs := by
  induction cs with
  | nil => rw [flatMap_nil, unescapeChars]
  | cons c cs ih => rw [flatMap_cons, (hwrite c).unescape, ih]

theorem quotedLength?_flatMap {cs : List Char} (hcs : ∀ c ∈ cs, stop c = false)
    (hstop : ∀ d, d ≠ '#' → stop d = false) (hquote : quote ≠ '\\' ∧ quote ≠ '#')
    (rest : List Char) :
    quotedLength? quote stop (cs.flatMap write ++ quote :: rest) =
      some (cs.flatMap write).length := by
  induction cs with
  | nil =>
    rw [flatMap_nil, nil_append, quotedLength?_cons hquote.1, hstop quote hquote.2,
      if_neg Bool.false_ne_true, if_pos rfl]
    rfl
  | cons c cs ih =>
    obtain ⟨hc, hcs⟩ := forall_mem_cons.mp hcs
    rw [flatMap_cons, List.append_assoc, (hwrite c).quotedLength? hc hstop, ih hcs,
      Option.map_some, length_append, Nat.add_comm]

end

/-! ## Literals in quotes -/

/-- The characters of a literal that is not bare, for the quote and the escapes that it uses. -/
theorem quotedChars_cases (cs : List Char) :
    (cs.any isControl = true ∧ quotedChars cs = '"' :: (cs.flatMap escapeDouble ++ ['"'])) ∨
      (cs.any isControl = false ∧ quotedChars cs = '\'' :: (cs.flatMap escapeSingle ++ ['\''])) := by
  unfold quotedChars
  cases cs.any isControl with
  | true => exact .inl ⟨rfl, rfl⟩
  | false => exact .inr ⟨rfl, rfl⟩

theorem toList_string_of_ne {text : String} (h : string text ≠ text) :
    (string text).toList = quotedChars text.toList := by
  unfold string at h ⊢
  split
  · rename_i hsymbol
    rw [if_pos hsymbol] at h
    exact absurd rfl h
  · exact String.toList_ofList

/-- **A literal that is not bare reads back.** It is a body between two quotes, double ones just if
the string has a control character; resolving the escapes of the body gives the string; and whatever
follows the literal, the search for the end of the string that starts after the first quote stops at
the last one. -/
theorem string_reads_back {text : String} (h : string text ≠ text) :
    ∃ quote body,
      quote = (if text.toList.any isControl then '"' else '\'') ∧
      (string text).toList = quote :: (body ++ [quote]) ∧
      unescape (String.ofList body) = text ∧
      ∀ follow, quotedLength? quote (fun _ => false) (body ++ quote :: follow) =
        some body.length := by
  rw [toList_string_of_ne h]
  rcases quotedChars_cases text.toList with ⟨hcontrol, hquoted⟩ | ⟨hcontrol, hquoted⟩
  · refine ⟨'"', text.toList.flatMap escapeDouble, by rw [hcontrol]; rfl, hquoted, ?_, ?_⟩
    · simp [unescape, unescapeChars_flatMap escape_double]
    · intro follow
      exact quotedLength?_flatMap escape_double (fun _ _ => rfl) (fun _ _ => rfl)
        ⟨by decide, by decide⟩ follow
  · refine ⟨'\'', text.toList.flatMap escapeSingle, by rw [hcontrol]; rfl, hquoted, ?_, ?_⟩
    · simp [unescape, unescapeChars_flatMap escape_single]
    · intro follow
      exact quotedLength?_flatMap escape_single (fun _ _ => rfl) (fun _ _ => rfl)
        ⟨by decide, by decide⟩ follow

/-- An octal escape right before a digit, a quote after a backslash, and the other quote. -/
theorem string_reads_back_octal :
    string "\x017 \\\" it's" = "\"\\0017 \\\\\\\" it's\"" ∧
    ∃ quote body,
      quote = (if "\x017 \\\" it's".toList.any isControl then '"' else '\'') ∧
      (string "\x017 \\\" it's").toList = quote :: (body ++ [quote]) ∧
      unescape (String.ofList body) = "\x017 \\\" it's" ∧
      ∀ follow, quotedLength? quote (fun _ => false) (body ++ quote :: follow) =
        some body.length :=
  ⟨by decide +kernel, string_reads_back (by decide +kernel)⟩

end TwigToLatte.Latte
