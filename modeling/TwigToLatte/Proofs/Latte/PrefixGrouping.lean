import TwigToLatte.Proofs.Latte.Spelling

/-!
# Grouping by prefix operators and accesses

A prefix operator is written before its operand and an access after its object, both without
parentheses. So the text of an expression tells the operators, the name and the accesses, each in
order, but not which of an operator and an access applies first.

* `Expr.Chained` — expressions of names, prefix operators and accesses.
* `Expr.chain` — the operators, the name and the accesses of such an expression.
* `chainText_injective` — **the text determines the chain**.
* `Expr.isAccessOfPrefix` — an access whose object is a prefix operator with its operand.
* `Chain.expr` — the expression in which all operators are outside of the accesses.
* `chained_unique` — **without accesses of prefix operators, expressions with the same text are
  equal but for lines and call styles; with one, another expression has the same text**.
-/

namespace TwigToLatte

open List

/-! ## Expressions -/

/-- A constant that names a property or an index. -/
inductive Value.PlainKey : Value → Prop
  | property {name : String} (hname : Latte.isIdentifier name = true) : PlainKey (.string name)
  | index {value : Int64} (hvalue : 0 ≤ value) : PlainKey (.int value)

/-- Expressions of names, prefix operators, and accesses without arguments. -/
inductive Expr.Chained : Expr → Prop
  | name {name : String} {line : Nat} (hname : Latte.PlainName name) :
      Chained ⟨.name name false, line, false⟩
  | unary {op : UnaryOp} {e : Expr} {line : Nat} (he : Chained e) :
      Chained ⟨.unary op e, line, false⟩
  | access {object : Expr} {key : Value} {call : CallStyle} {keyLine line : Nat}
      (hobject : Chained object) (hkey : key.PlainKey) :
      Chained ⟨.access object ⟨.constant key, keyLine, false⟩ [] call false, line, false⟩

/-- The form without the call style of an access. -/
def Expr.Kind.uncalled : Expr.Kind → Expr.Kind
  | .access object key list _ defined => .access object key list .any defined
  | kind => kind

/-- A pass that forgets the lines of expressions and the call styles of accesses. -/
def forgetCalls : Pass Unit where
  name := "forget calls"
  leaveExpr e := pure ⟨e.kind.uncalled, 0, e.topmost⟩

/-- The expression without the numbers of its lines and the call styles of its accesses. -/
def Expr.uncalled (e : Expr) : Expr := forgetCalls.onExpr e

def Expr.isUnary (e : Expr) : Bool :=
  match e.kind with
  | .unary .. => true
  | _ => false

/-- An access whose object is a prefix operator with its operand. -/
def Expr.isAccessOfPrefix (e : Expr) : Bool :=
  match e.kind with
  | .access object .. => object.isUnary
  | _ => false

/-! ## Chains -/

/-- An access: the constant that it names, and whether it is a call. -/
structure Suffix where
  key : Value
  called : Bool

/-- Prefix operators, a name and accesses. The outermost ones come first. -/
structure Chain where
  operators : List UnaryOp := []
  name : String
  suffixes : List Suffix := []

namespace Chain

def addOperator (op : UnaryOp) (c : Chain) : Chain := { c with operators := op :: c.operators }

def addSuffix (s : Suffix) (c : Chain) : Chain := { c with suffixes := s :: c.suffixes }

end Chain

mutual

/-- The chain of an expression of names, prefix operators and accesses. -/
def Expr.chain : Expr → Chain
  | ⟨kind, _, _⟩ => kind.chain

def Expr.Kind.chain : Expr.Kind → Chain
  | .name name _ => { name }
  | .unary op e => e.chain.addOperator op
  | .access object key _ call _ =>
    object.chain.addSuffix ⟨key.constant?.getD .null, call == .method⟩
  | _ => { name := "" }

end

def Suffix.access (s : Suffix) (object : Expr) : Expr :=
  ⟨.access object (.constant s.key 0) [] (if s.called then .method else .any) false, 0, false⟩

/-- The expression in which the operators are applied after the accesses. -/
def Chain.expr (c : Chain) : Expr :=
  c.operators.foldr (fun op e => ⟨.unary op e, 0, false⟩)
    (c.suffixes.foldr Suffix.access (.name c.name 0))

namespace Latte

/-! ## Text of a chain -/

def operatorChar : UnaryOp → Char
  | .not => '!'
  | .neg => '-'
  | .pos => '+'

def keyText : Value → List Char
  | .string name => '-' :: '>' :: name.toList
  | .int value => '[' :: (toString value.toInt).toList ++ [']']
  | _ => []

def suffixText (s : Suffix) : List Char := keyText s.key ++ if s.called then ['(', ')'] else []

/-- The text of accesses, the innermost first. -/
def suffixesText (suffixes : List Suffix) : List Char := suffixes.reverse.flatMap suffixText

def chainText (c : Chain) : List Char :=
  c.operators.map operatorChar ++ '$' :: (c.name.toList ++ suffixesText c.suffixes)

end Latte

/-- The name and the keys are plain. -/
structure Chain.Plain (c : Chain) : Prop where
  name : Latte.PlainName c.name
  keys : ∀ s ∈ c.suffixes, s.key.PlainKey

variable {c : Chain} {e : Expr}

theorem Chain.Plain.reverse (h : c.Plain) : ∀ s ∈ c.suffixes.reverse, s.key.PlainKey :=
  fun s hs => h.keys s (mem_reverse.mp hs)

theorem Expr.Chained.plain (h : e.Chained) : e.chain.Plain := by
  induction h with
  | name hname => exact ⟨hname, fun _ hs => nomatch hs⟩
  | unary _ ih => exact ⟨ih.name, ih.keys⟩
  | access _ hkey ih =>
    refine ⟨ih.name, fun s hs => ?_⟩
    rcases mem_cons.mp hs with rfl | hs
    · exact hkey
    · exact ih.keys s hs

theorem Suffix.chain_access (s : Suffix) (object : Expr) :
    (s.access object).chain = object.chain.addSuffix s := by
  obtain ⟨key, called⟩ := s
  cases called <;> rfl

namespace Chain

theorem chain_accesses (name : String) (suffixes : List Suffix) :
    (suffixes.foldr Suffix.access (.name name 0)).chain = { name, suffixes } := by
  induction suffixes with
  | nil => rfl
  | cons s rest ih => rw [foldr_cons, Suffix.chain_access, ih, addSuffix]

theorem chain_expr (c : Chain) : c.expr.chain = c := by
  obtain ⟨operators, name, suffixes⟩ := c
  induction operators with
  | nil => exact chain_accesses name suffixes
  | cons op rest ih =>
    show (Chain.expr ⟨rest, name, suffixes⟩).chain.addOperator op = _
    rw [ih, addOperator]

theorem chained_accesses {name : String} (hname : Latte.PlainName name) {suffixes : List Suffix}
    (h : ∀ s ∈ suffixes, s.key.PlainKey) :
    (suffixes.foldr Suffix.access (.name name 0)).Chained := by
  induction suffixes with
  | nil => exact .name hname
  | cons s rest ih =>
    rw [forall_mem_cons] at h
    exact .access (ih h.2) h.1

theorem Plain.chained_expr {c : Chain} (h : c.Plain) : c.expr.Chained := by
  obtain ⟨operators, name, suffixes⟩ := c
  induction operators with
  | nil => exact chained_accesses h.name h.keys
  | cons op rest ih => exact .unary (ih ⟨h.name, h.keys⟩)

end Chain

theorem Expr.Chained.needsParentheses (h : e.Chained) : Latte.needsParentheses e.kind = false := by
  cases h <;> rfl

namespace Latte

/-! ## The text of a chain -/

variable {scope : Scope}

theorem chainText_addSuffix (s : Suffix) (c : Chain) :
    chainText (c.addSuffix s) = chainText c ++ suffixText s := by
  simp [chainText, Chain.addSuffix, suffixesText]

variable {key : Value} {rest : List Char} {s : Suffix} {suffixes : List Suffix} {c : Chain}

theorem plainKey?_spells (h : key.PlainKey) (line : Nat) :
    ∃ way, plainKey? ⟨.constant key, line, false⟩ = some way ∧ way.toList = keyText key := by
  cases h with
  | @property name hname =>
    refine ⟨"->" ++ name, ?_, ?_⟩
    · show (if isIdentifier name = true then _ else _) = _
      rw [if_pos hname]
    · simp [keyText]
  | @index value hvalue =>
    refine ⟨"[" ++ toString value.toInt ++ "]", ?_, ?_⟩
    · show (if 0 ≤ value then _ else _) = _
      rw [if_pos hvalue]
    · simp [keyText]

theorem spells_access {object key : Expr} {way : String} {chars : List Char} (call : CallStyle)
    (line : Nat) (hkey : plainKey? key = some way) (h : (operand scope object).Spells chars) :
    (expression scope ⟨.access object key [] call false, line, false⟩).Spells
      (chars ++ way.toList ++ if call == .method then ['(', ')'] else []) := by
  rw [expression, expressionKind, hkey, expressions]
  have hpath := h.append (.text way)
  cases call with
  | method => exact hpath.append (Rendered.Spells.text "").parenthesize
  | any | array => exact hpath.append (.text "")

theorem spells_chain {e : Expr} (h : e.Chained) :
    (expression scope e).Spells (chainText e.chain) := by
  induction h with
  | @name name line hname =>
    show Rendered.Spells _ ('$' :: (name.toList ++ []))
    rw [append_nil]
    exact hname.spells scope line
  | @unary op e line he ih =>
    have hop : (unarySymbol op).toList = [operatorChar op] := by cases op <;> rfl
    have happend := (Rendered.Spells.text (unarySymbol op)).append ih
    rw [hop] at happend
    rw [expression, expressionKind, operand_eq_expression he.needsParentheses]
    exact happend
  | @access object key call keyLine line hobject hkey ih =>
    obtain ⟨way, hway, htext⟩ := plainKey?_spells hkey keyLine
    rw [← operand_eq_expression hobject.needsParentheses] at ih
    show Rendered.Spells _ (chainText (object.chain.addSuffix ⟨key, call == .method⟩))
    rw [chainText_addSuffix, suffixText, ← htext, ← List.append_assoc]
    exact spells_access call line hway ih

/-! ### Reading accesses -/

/-- What follows an access: another one, or nothing. -/
def StartsSuffix (rest : List Char) : Prop := ∀ c ∈ rest.head?, c = '-' ∨ c = '['

def readKey : List Char → Option (Value × List Char)
  | '-' :: '>' :: text =>
    some (.string (String.ofList (text.takeWhile Pattern.isNameChar)),
      text.dropWhile Pattern.isNameChar)
  | '[' :: text =>
    (takeText? "]" (text.dropWhile Char.isDigit)).map fun rest =>
      (.int (number (text.takeWhile Char.isDigit)), rest)
  | _ => none

def readSuffix (text : List Char) : Option (Suffix × List Char) := do
  let (key, text) ← readKey text
  match takeText? "()" text with
  | some text => return (⟨key, true⟩, text)
  | none => return (⟨key, false⟩, text)

theorem isNameChar_of_isIdentifier {name : String} (h : isIdentifier name = true) :
    ∀ c ∈ name.toList, Pattern.isNameChar c = true := by
  have hword : ∀ c, isWordChar c = true → Pattern.isNameChar c = true := fun c hc => by
    rw [Pattern.isNameChar, ← isWordChar, hc]
    rfl
  unfold isIdentifier at h
  split at h
  · cases h
  · rename_i first rest htext
    rw [Bool.and_eq_true, all_eq_true] at h
    rw [htext]
    intro c hc
    rcases mem_cons.mp hc with rfl | hc
    · apply hword
      have hfirst := h.1
      simp only [isWordChar, Char.isAlphanum, Bool.or_eq_true] at hfirst ⊢
      exact hfirst.imp_left .inl
    · exact hword c (h.2 c hc)

theorem StartsSuffix.endsWord (h : StartsSuffix rest) : EndsWord rest := by
  intro c hc
  rcases h c hc with rfl | rfl <;> rfl

theorem readKey_eq (h : key.PlainKey) (hrest : EndsWord rest) :
    readKey (keyText key ++ rest) = some (key, rest) := by
  cases h with
  | @property name hname =>
    obtain ⟨htake, hdrop⟩ := takeWhile_word (isNameChar_of_isIdentifier hname) hrest
    show readKey ('-' :: '>' :: (name.toList ++ rest)) = _
    rw [readKey, htake, hdrop, String.ofList_toList]
  | @index value hvalue =>
    obtain ⟨first, more, htext, hdigits, hnumber⟩ := exists_digits hvalue
    have hclose : ∀ c ∈ (']' :: rest).head?, c.isDigit = false := by
      intro c hc
      cases hc
      rfl
    obtain ⟨htake, hdrop⟩ := takeWhile_word hdigits hclose
    have hchars : keyText (.int value) ++ rest = '[' :: (first :: more ++ ']' :: rest) := by
      rw [keyText, htext]
      simp
    have hbracket : takeText? "]" (']' :: rest) = some rest := takeText?_append "]" rest
    rw [hchars, readKey, htake, hdrop, hbracket, hnumber]
    rfl

theorem readSuffix_eq (h : s.key.PlainKey) (hrest : StartsSuffix rest) :
    readSuffix (suffixText s ++ rest) = some (s, rest) := by
  obtain ⟨key, called⟩ := s
  cases called with
  | true =>
    have hkey : readKey (keyText key ++ ("()".toList ++ rest)) = some (key, "()".toList ++ rest) :=
      readKey_eq h (endsWord_cons (by decide) _)
    have hchars : suffixText ⟨key, true⟩ ++ rest = keyText key ++ ("()".toList ++ rest) := by
      simp [suffixText]
    rw [hchars]
    simp only [readSuffix, hkey, takeText?_append, Option.bind_eq_bind, Option.bind_some, pure]
  | false =>
    have hkey := readKey_eq h hrest.endsWord
    have hnone : takeText? "()" rest = none := by
      cases rest with
      | nil => rfl
      | cons c more =>
        rcases hrest c rfl with rfl | rfl <;> rfl
    have hchars : suffixText ⟨key, false⟩ ++ rest = keyText key ++ rest := by
      simp [suffixText]
    rw [hchars]
    simp only [readSuffix, hkey, hnone, Option.bind_eq_bind, Option.bind_some, pure]

theorem startsSuffix_flatMap (h : ∀ s ∈ suffixes, s.key.PlainKey) :
    StartsSuffix (suffixes.flatMap suffixText) := by
  cases suffixes with
  | nil => exact fun c hc => nomatch hc
  | cons s rest =>
    obtain ⟨key, called⟩ := s
    intro c hc
    cases h _ mem_cons_self with
    | property => cases hc; exact .inl rfl
    | index => cases hc; exact .inr rfl

theorem readSuffix_flatMap {rest : List Suffix} (h : ∀ x ∈ s :: rest, x.key.PlainKey) :
    readSuffix ((s :: rest).flatMap suffixText) = some (s, rest.flatMap suffixText) := by
  rw [forall_mem_cons] at h
  rw [flatMap_cons, readSuffix_eq h.1 (startsSuffix_flatMap h.2)]

/-- The text of accesses tells them one after the other. -/
theorem suffixes_unique {suffixes' : List Suffix} (h : ∀ s ∈ suffixes, s.key.PlainKey)
    (h' : ∀ s ∈ suffixes', s.key.PlainKey)
    (heq : suffixes.flatMap suffixText = suffixes'.flatMap suffixText) : suffixes = suffixes' := by
  induction suffixes generalizing suffixes' with
  | nil =>
    cases suffixes' with
    | nil => rfl
    | cons s' rest' =>
      have hread := readSuffix_flatMap h'
      rw [← heq] at hread
      cases hread
  | cons s rest ih =>
    have hread := readSuffix_flatMap h
    cases suffixes' with
    | nil =>
      rw [heq] at hread
      cases hread
    | cons s' rest' =>
      rw [heq, readSuffix_flatMap h'] at hread
      obtain ⟨rfl, hrest⟩ := Prod.mk.inj (Option.some.inj hread)
      rw [ih (fun x hx => h x (mem_cons_of_mem _ hx))
        (fun x hx => h' x (mem_cons_of_mem _ hx)) hrest.symm]

/-! ### Reading chains -/

theorem operatorChar_injective {op op' : UnaryOp} (h : operatorChar op = operatorChar op') :
    op = op' := by
  cases op <;> cases op' <;> simp_all [operatorChar]

theorem takeWhile_operators (c : Chain) :
    (chainText c).takeWhile (· != '$') = c.operators.map operatorChar ∧
      (chainText c).dropWhile (· != '$') = '$' :: (c.name.toList ++ suffixesText c.suffixes) := by
  apply takeWhile_word
  · intro ch hch
    obtain ⟨op, -, rfl⟩ := mem_map.mp hch
    cases op <;> rfl
  · intro ch hch
    cases hch
    rfl

theorem takeWhile_chainName (h : c.Plain) :
    (c.name.toList ++ suffixesText c.suffixes).takeWhile Pattern.isNameChar = c.name.toList ∧
      (c.name.toList ++ suffixesText c.suffixes).dropWhile Pattern.isNameChar =
        suffixesText c.suffixes :=
  h.name.takeWhile (startsSuffix_flatMap h.reverse).endsWord

/-- **The text determines the chain.** -/
theorem chainText_injective {c' : Chain} (h : c.Plain) (h' : c'.Plain)
    (heq : chainText c = chainText c') : c = c' := by
  obtain ⟨hoperators, hrest⟩ := takeWhile_operators c
  obtain ⟨hoperators', hrest'⟩ := takeWhile_operators c'
  have hops : c.operators = c'.operators := by
    rw [heq, hoperators'] at hoperators
    exact (map_injective_iff.mpr (fun _ _ => operatorChar_injective) hoperators).symm
  have hafter : c.name.toList ++ suffixesText c.suffixes =
      c'.name.toList ++ suffixesText c'.suffixes := by
    rw [heq, hrest'] at hrest
    exact (List.cons.inj hrest).2.symm
  obtain ⟨hname, hsuffixes⟩ := takeWhile_chainName h
  obtain ⟨hname', hsuffixes'⟩ := takeWhile_chainName h'
  have hnames : c.name = c'.name := by
    rw [hafter, hname'] at hname
    exact (String.toList_inj.mp hname).symm
  have hkeys : c.suffixes = c'.suffixes := by
    rw [hafter, hsuffixes'] at hsuffixes
    exact (reverse_inj.mp (suffixes_unique h'.reverse h.reverse hsuffixes)).symm
  cases c
  cases c'
  cases hops
  cases hnames
  cases hkeys
  rfl

end Latte

/-! ## Grouping -/

theorem Suffix.uncalled_access (s : Suffix) (object : Expr) :
    (s.access object).uncalled =
      ⟨.access object.uncalled (.constant s.key 0) [] .any false, 0, false⟩ := rfl

theorem Chain.expr_addSuffix (h : c.operators = []) (s : Suffix) :
    (c.addSuffix s).expr = s.access c.expr := by
  obtain ⟨operators, name, suffixes⟩ := c
  cases h
  rfl

theorem Chain.isUnary_expr (h : c.operators ≠ []) : c.expr.uncalled.isUnary = true := by
  obtain ⟨operators, name, suffixes⟩ := c
  cases operators with
  | nil => exact absurd rfl h
  | cons => rfl

namespace Expr

/-- No access has a prefix operator with its operand for an object. -/
def Grouped (e : Expr) : Prop := ∀ x ∈ e.parts, x.isAccessOfPrefix = false

theorem grouped_name (name : String) (line : Nat) : Grouped ⟨.name name false, line, false⟩ := by
  intro x hx
  cases mem_singleton.mp hx
  rfl

variable {e : Expr} {line : Nat}

theorem grouped_unary {op : UnaryOp} : Grouped ⟨.unary op e, line, false⟩ ↔ e.Grouped := by
  refine forall_mem_cons.trans ⟨fun h => h.2, fun h => ⟨rfl, h⟩⟩

theorem grouped_access {object : Expr} {key : Value} {call : CallStyle} {keyLine : Nat} :
    Grouped ⟨.access object ⟨.constant key, keyLine, false⟩ [] call false, line, false⟩ ↔
      object.isUnary = false ∧ object.Grouped := by
  have hkey : ∀ x ∈ [(⟨.constant key, keyLine, false⟩ : Expr)], x.isAccessOfPrefix = false := by
    intro x hx
    cases mem_singleton.mp hx
    rfl
  constructor
  · intro h
    obtain ⟨hunary, hparts⟩ := forall_mem_cons.mp h
    exact ⟨hunary, fun x hx => hparts x (mem_append_left _ (mem_append_left _ hx))⟩
  · rintro ⟨hunary, hobject⟩
    refine forall_mem_cons.mpr ⟨hunary, fun x hx => ?_⟩
    rcases mem_append.mp hx with hx | hx
    · rcases mem_append.mp hx with hx | hx
      · exact hobject x hx
      · exact hkey x hx
    · cases hx

/-- An object without operators outside has none at all. -/
theorem Chained.operators_eq_nil (h : e.Chained) (hgrouped : e.Grouped)
    (hunary : e.isUnary = false) : e.chain.operators = [] := by
  induction h with
  | name => rfl
  | unary => cases hunary
  | access _ _ ih =>
    obtain ⟨hobject, hrest⟩ := grouped_access.mp hgrouped
    exact ih hrest hobject

theorem Chained.isUnary_eq_false (h : e.Chained) (hnil : e.chain.operators = []) :
    e.isUnary = false := by
  cases h with
  | name | access => rfl
  | unary => cases hnil

/-- A grouped expression is the one of its chain, and no other expression is. -/
theorem Chained.grouped_iff (h : e.Chained) : e.Grouped ↔ e.uncalled = e.chain.expr.uncalled := by
  induction h with
  | name => exact ⟨fun _ => rfl, fun _ => grouped_name _ _⟩
  | @unary op e line _ ih =>
    have hexpr : (⟨.unary op e, line, false⟩ : Expr).chain.expr.uncalled =
        ⟨.unary op e.chain.expr.uncalled, 0, false⟩ := rfl
    have huncalled : (⟨.unary op e, line, false⟩ : Expr).uncalled =
        ⟨.unary op e.uncalled, 0, false⟩ := rfl
    rw [grouped_unary, ih, hexpr, huncalled]
    constructor
    · intro heq
      rw [heq]
    · intro heq
      obtain ⟨hkind, -⟩ := Expr.mk.inj heq
      exact (Expr.Kind.unary.inj hkind).2
  | @access object key call keyLine line hobject hkey ih =>
    show _ ↔ (⟨.access object.uncalled (.constant key 0) [] .any false, 0, false⟩ : Expr) =
      (object.chain.addSuffix ⟨key, call == .method⟩).expr.uncalled
    rw [grouped_access]
    by_cases hnil : object.chain.operators = []
    · rw [Chain.expr_addSuffix hnil, Suffix.uncalled_access, ih]
      constructor
      · rintro ⟨-, heq⟩
        rw [heq]
      · intro heq
        obtain ⟨hkind, -⟩ := Expr.mk.inj heq
        exact ⟨hobject.isUnary_eq_false hnil, (Expr.Kind.access.inj hkind).1⟩
    · -- An operator of the object stays inside of the access here, and is outermost there.
      constructor
      · rintro ⟨hunary, hgrouped⟩
        exact absurd (hobject.operators_eq_nil hgrouped hunary) hnil
      · intro heq
        have hunary :
            (object.chain.addSuffix ⟨key, call == .method⟩).expr.uncalled.isUnary = true :=
          Chain.isUnary_expr hnil
        rw [← heq] at hunary
        cases hunary

end Expr

namespace Latte

/-- **Without accesses of prefix operators, expressions with the same text are equal but for lines
and call styles.** An expression with such an access has the text of another one, in which the
operator applies to the access. -/
theorem chained_unique {scope : Scope} {e : Expr} (he : e.Chained) :
    (e.Grouped → ∀ e' : Expr, e'.Chained → e'.Grouped →
      (expression scope e).text = (expression scope e').text → e.uncalled = e'.uncalled) ∧
    (¬ e.Grouped → ∃ e' : Expr, e'.Chained ∧
      (expression scope e).text = (expression scope e').text ∧ e.uncalled ≠ e'.uncalled) := by
  constructor
  · intro hgrouped e' he' hgrouped' htext
    have hchars := (spells_chain he).unique (spells_chain he') htext
    have hchain : e.chain = e'.chain := chainText_injective he.plain he'.plain hchars
    rw [he.grouped_iff.mp hgrouped, he'.grouped_iff.mp hgrouped', hchain]
  · intro hgrouped
    have hexpr := he.plain.chained_expr
    have hspells : (expression scope e.chain.expr).Spells (chainText e.chain.expr.chain) :=
      spells_chain hexpr
    rw [Chain.chain_expr] at hspells
    exact ⟨e.chain.expr, hexpr,
      String.toList_inj.mp ((spells_chain he).toList.trans hspells.toList.symm),
      fun heq => hgrouped (he.grouped_iff.mpr heq)⟩

/-- `-a.b`, on a line and with a call style. -/
def negatedAccess (line : Nat) (call : CallStyle) : Expr :=
  ⟨.unary .neg ⟨.access ⟨.name "a" false, line, false⟩ ⟨.constant (.string "b"), line, false⟩ []
    call false, line, false⟩, line, false⟩

/-- `(-a).b` -/
def accessOfNegated : Expr :=
  ⟨.access ⟨.unary .neg ⟨.name "a" false, 1, false⟩, 1, false⟩
    ⟨.constant (.string "b"), 1, false⟩ [] .any false, 1, false⟩

theorem chained_negatedAccess (line : Nat) (call : CallStyle) : (negatedAccess line call).Chained :=
  .unary (.access (.name ⟨by decide, by decide, by decide⟩) (.property (by decide)))

theorem chained_accessOfNegated : accessOfNegated.Chained :=
  .access (.unary (.name ⟨by decide, by decide, by decide⟩)) (.property (by decide))

/-- `-a.b` and `-a['b']` on two lines; and `(-a).b`, which is not told from them. -/
theorem chained_unique_negated :
    (negatedAccess 1 .any).Chained ∧ (negatedAccess 2 .array).Chained ∧
      (expression ⟨{}, "", []⟩ (negatedAccess 1 .any)).text = "-$a->b" ∧
      (expression ⟨{}, "", []⟩ (negatedAccess 2 .array)).text = "-$a->b" ∧
      (negatedAccess 1 .any).uncalled = (negatedAccess 2 .array).uncalled ∧
      accessOfNegated.Chained ∧ ¬ accessOfNegated.Grouped ∧ ∃ e : Expr, e.Chained ∧
        (expression ⟨{}, "", []⟩ accessOfNegated).text = (expression ⟨{}, "", []⟩ e).text ∧
        accessOfNegated.uncalled ≠ e.uncalled := by
  have hgrouped : ∀ line call, (negatedAccess line call).Grouped := fun _ _ =>
    Expr.grouped_unary.mpr (Expr.grouped_access.mpr ⟨rfl, Expr.grouped_name _ _⟩)
  have htext : (expression ⟨{}, "", []⟩ (negatedAccess 1 .any)).text = "-$a->b" := by
    decide +kernel
  have htext' : (expression ⟨{}, "", []⟩ (negatedAccess 2 .array)).text = "-$a->b" := by
    decide +kernel
  have haccess : ¬ accessOfNegated.Grouped := fun h => by cases h _ mem_cons_self
  have hunique := (chained_unique (chained_negatedAccess 1 .any)).1 (hgrouped 1 .any) _
    (chained_negatedAccess 2 .array) (hgrouped 2 .array) (htext.trans htext'.symm)
  exact ⟨chained_negatedAccess 1 .any, chained_negatedAccess 2 .array, htext, htext', hunique,
    chained_accessOfNegated, haccess, (chained_unique chained_accessOfNegated).2 haccess⟩

/-- An operator before an access and an access of an operator have the same text. -/
theorem accessOfNegated_text :
    accessOfNegated.Chained ∧ (negatedAccess 1 .any).Chained ∧
      (expression ⟨{}, "", []⟩ accessOfNegated).text =
        (expression ⟨{}, "", []⟩ (negatedAccess 1 .any)).text ∧
      accessOfNegated.uncalled ≠ (negatedAccess 1 .any).uncalled := by
  refine ⟨chained_accessOfNegated, chained_negatedAccess 1 .any, by decide +kernel, fun heq => ?_⟩
  have hunary : accessOfNegated.uncalled.isUnary = (negatedAccess 1 .any).uncalled.isUnary := by
    rw [heq]
  cases hunary

end Latte

end TwigToLatte
