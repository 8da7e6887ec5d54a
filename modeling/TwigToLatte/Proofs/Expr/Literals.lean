import TwigToLatte.Proofs.Expr.InfixChain
import TwigToLatte.Proofs.Latte.LiteralTokens

/-!
# Reading the tokens of constants

* `Expr.fold?` — the constant that an expression stands for, a name standing for itself.
* `keyword?_eq_none` — a symbol is no keyword.
* `operand_tokens` — **the tokens of a constant are read as an expression that stands for it**.
* `operand_word` — a word among the operators is read as a name too, in the place of an operand.
-/

namespace TwigToLatte

open List

mutual

/-- The constant that an expression stands for: a constant, a name for itself, a negated integer, or
an array of such expressions. -/
def Expr.fold? : Expr → Option Value
  | ⟨kind, _, _⟩ => foldKind? kind

def foldKind? : Expr.Kind → Option Value
  | .constant value => some value
  | .name name _ => some (.string name)
  | .array items => (foldItems? items).map .array
  | .unary .neg operand =>
    match operand.fold? with
    | some (.int value) => some (.int (-value))
    | _ => none
  | _ => none

def foldItems? : List (Expr × Expr) → Option (List (Value × Value))
  | [] => some []
  | (key, value) :: rest =>
    match key.fold?, value.fold?, foldItems? rest with
    | some key, some value, some rest => some ((key, value) :: rest)
    | _, _, _ => none

end

theorem Expr.fold?_constant (value : Value) (line : Nat) :
    (Expr.constant value line).fold? = some value := rfl

theorem Expr.fold?_name (name : String) (line : Nat) :
    (Expr.name name line).fold? = some (.string name) := rfl

theorem foldItems?_nil : foldItems? [] = some [] := rfl

theorem foldItems?_cons {item : Expr × Expr} {items : List (Expr × Expr)} {key value : Value}
    {rest : List (Value × Value)} (hkey : item.1.fold? = some key)
    (hvalue : item.2.fold? = some value) (hitems : foldItems? items = some rest) :
    foldItems? (item :: items) = some ((key, value) :: rest) := by
  rw [foldItems?, hkey, hvalue, hitems]

namespace Grammar

open Parse

/-! ## Keywords -/

theorem toList_toLower (name : String) : name.toLower.toList = name.toList.map Char.toLower :=
  String.toList_map

variable {name : String}

theorem toLower_eq (lower : String) (h : name.toList.map Char.toLower = lower.toList) :
    name.toLower = lower := by
  rw [← String.toList_inj, toList_toLower, h]

theorem keyword?_eq_none (h : Latte.isSymbol name = true) : keyword? name = none := by
  have hname : ∀ keyword ∈ Latte.keywords, name.toLower ≠ keyword := by
    intro keyword hmem heq
    rw [Latte.isSymbol, Latte.isSymbolChars, Bool.and_eq_true, Bool.not_eq_true',
      any_eq_false] at h
    refine h.2 keyword hmem (beq_iff_eq.mpr ?_)
    rw [← heq, toList_toLower]
  rw [keyword?]
  split
  case h_5 => rfl
  all_goals
    rename_i heq
    exact absurd heq (hname _ (by decide))

theorem keyword?_null : keyword? "null" = some .null := by
  rw [keyword?, toLower_eq "null" (by decide)]
  rfl

theorem keyword?_bool (value : Bool) :
    keyword? (if value then "true" else "false") = some (.bool value) := by
  cases value with
  | false => rw [keyword?, toLower_eq "false" (by decide)]; rfl
  | true => rw [keyword?, toLower_eq "true" (by decide)]; rfl

/-! ## Operands -/

section

variable {context : Context} {state after : State} {token : Token} {rest : List Token}
  {depth : Nat} {e : Expr}

/-- The tokens that come after a constant: they continue no expression. -/
inductive AfterConstant : Token → Prop
  | comma (span : Span) : AfterConstant ⟨.punctuation ',', span⟩
  | bracket (span : Span) : AfterConstant ⟨.punctuation ']', span⟩
  | closing (span : Span) : AfterConstant ⟨.varEnd, span⟩

theorem AfterConstant.ends (h : AfterConstant token) : Ends token := by
  intro mark hmark
  cases h with
  | closing => rfl
  | comma | bracket =>
    rw [Token.isPunctuation, beq_eq_false_iff_ne]
    rintro ⟨⟩
    exact absurd hmark (by decide)

theorem AfterConstant.below (h : AfterConstant token) (least : Precedence) :
    Below context.dialect least token := by
  intro symbol operator hkind
  cases h <;> cases hkind

/-- An operand that no operator follows is a whole expression. -/
theorem expressionUpTo_operand (h : operand (Rules.upTo depth) context state = .ok e after)
    (hafter : ahead context after = token :: rest) (hcloses : AfterConstant token)
    (least : Precedence) :
    expressionUpTo (depth + 1) least false context state = .ok e after := by
  have hchain : infixChain (Rules.upTo depth) least e context after = .ok e after :=
    loop_inr (infixStep_eq_inr e hafter (hcloses.below least))
  change expressionRule (Rules.upTo depth) least false context state = _
  rw [expressionRule_false, bind_eq_of_ok h, bind_eq_of_ok hchain]
  by_cases hleast : least = 0
  · rw [if_pos hleast]
    exact conditionals_eq e hafter hcloses.ends
  · rw [if_neg hleast]
    rfl

/-- An operand that starts with no prefix operator and no parenthesis. -/
theorem operand_atom {r : Rules} {first : Token} {more : List Token}
    (h : ahead context state = first :: more)
    (hsign : prefixOperator? context state = .ok none state)
    (hparen : first.isPunctuation '(' = false) (hatom : atom r context state = .ok e after)
    (hafter : ahead context after = token :: rest) (hcloses : AfterConstant token) :
    operand r context state = .ok e after := by
  rw [operand, bind_eq_of_ok (current_eq h), bind_eq_of_ok hsign]
  simp only [hparen, Bool.false_eq_true, if_false]
  rw [primaryRule, bind_eq_of_ok hatom]
  exact suffixes_eq e hafter hcloses.ends

variable {r : Rules} {span : Span} {word : String}

theorem atom_string {value : String}
    (h : ahead context state = ⟨.string value, span⟩ :: token :: rest)
    (hcloses : AfterConstant token) :
    atom r context state = .ok (Expr.string value span.line) (state.skip 1) := by
  have hparts : stringParts r context state =
      .ok [Expr.string value span.line] (state.skip 1) := by
    rw [stringParts, loop_eq, h]
    refine Eq.trans (b := iterate _ _ ([Expr.string value span.line], false) context
      (state.skip 1)) (iterate_inl ?_ _) (iterate_inr ?_ _)
    · rw [stringRound, bind_eq_of_ok (current_eq h)]
      dsimp only
      rw [bind_eq_of_ok (next_eq h rfl)]
      rfl
    · rw [stringRound, bind_eq_of_ok (current_eq (ahead_skip_one h))]
      obtain ⟨kind, span⟩ := token
      cases hcloses <;> rfl
  rw [atom, bind_eq_of_ok (current_eq h)]
  dsimp only
  rw [stringLiteral, bind_eq_of_ok (currentLine_eq h), bind_eq_of_ok hparts]
  rfl

theorem operand_negative (hcore : context.dialect = Dialect.core) {value : Number}
    {sign digits : Span} (h : ahead context state =
      ⟨.operator "-", sign⟩ :: ⟨.number value, digits⟩ :: token :: rest)
    (hcloses : AfterConstant token) :
    operand (Rules.upTo (depth + 1)) context state =
      .ok ⟨.unary .neg (Expr.constant (.ofNumber value) digits.line), sign.line, false⟩
        (state.skip 2) := by
  have hsign : prefixOperator? context state = .ok (some ⟨500, .neg⟩) state := by
    rw [prefixOperator?, bind_eq_of_ok (current_eq h)]
    dsimp only
    rw [bind_eq_of_ok read_eq, hcore]
    rfl
  have hdigits : ahead context (state.skip 1) =
      ⟨(Leaf.number value).kind, digits⟩ :: token :: rest := ahead_skip_one h
  have hafter := ahead_skip_one hdigits
  have hnumber : (Rules.upTo (depth + 1)).expression 500 false context (state.skip 1) =
      .ok (Expr.constant (.ofNumber value) digits.line) ((state.skip 1).skip 1) :=
    expressionUpTo_operand (operand_leaf hdigits hcloses.ends) hafter hcloses 500
  rw [operand, bind_eq_of_ok (current_eq h), bind_eq_of_ok hsign]
  dsimp only
  rw [bind_eq_of_ok (next_eq h rfl), bind_eq_of_ok hnumber]
  exact suffixes_eq _ hafter hcloses.ends

theorem unary_get?_symbol (hword : Latte.isSymbol word = true) (hnot : word ≠ "not") :
    Dialect.core.unary.get? word = none := by
  have hminus : word ≠ "-" := by rintro rfl; cases hword
  have hplus : word ≠ "+" := by rintro rfl; cases hword
  change Dialect.coreUnary.lookup word = none
  rw [Dialect.coreUnary, lookup_cons, beq_false_of_ne hnot, lookup_cons,
    beq_false_of_ne hminus, lookup_cons, beq_false_of_ne hplus]
  rfl

/-- In the place of an operand, a word among the operators is a name. -/
theorem operand_word (hcore : context.dialect = Dialect.core) (hword : Latte.isSymbol word = true)
    (hhyphen : word.toList.contains '-' = false) (hnot : word ≠ "not")
    (h : ahead context state = ⟨.operator word, span⟩ :: token :: rest)
    (hcloses : AfterConstant token) :
    operand r context state = .ok (Expr.name word span.line) (state.skip 1) := by
  have hsign : prefixOperator? context state = .ok none state := by
    rw [prefixOperator?, bind_eq_of_ok (current_eq h)]
    dsimp only
    rw [bind_eq_of_ok read_eq, hcore, unary_get?_symbol hword hnot]
    rfl
  have hname : isName word = true := by
    obtain ⟨c, more, htext, hchars, hdigit⟩ := exists_word_of_isSymbol hword hhyphen
    obtain ⟨hc, hmore⟩ := forall_mem_cons.mp hchars
    rw [isName, htext]
    dsimp only
    rw [Pattern.isNameStart_of_isWordChar hc hdigit, Bool.true_and, all_eq_true]
    exact fun d hd => Pattern.isNameChar_of_isWordChar (hmore d hd)
  have hatom : atom r context state = .ok (Expr.name word span.line) (state.skip 1) := by
    rw [atom, bind_eq_of_ok (current_eq h)]
    dsimp only
    rw [operatorPrimary, if_pos hname, bind_eq_of_ok (next_eq h rfl)]
    rfl
  exact operand_atom h hsign rfl hatom (ahead_skip_one h) hcloses

end

/-! ## Constants -/

section

variable {context : Context}

/-- Every constant has a token, and the first one closes no array. -/
theorem exists_tokens (value : Value) :
    ∃ kind more, value.tokens = kind :: more ∧ kind ≠ .punctuation ']' := by
  cases value with
  | int | string =>
    rw [Value.tokens]
    split
    · exact ⟨_, _, rfl, by rintro ⟨⟩⟩
    · exact ⟨_, _, rfl, by rintro ⟨⟩⟩
  | array items => rw [Value.tokens]; exact ⟨_, _, rfl, by decide⟩
  | null | bool | float => rw [Value.tokens]; exact ⟨_, _, rfl, by rintro ⟨⟩⟩

variable {value key : Value} {taken rest : List Token} {depth : Nat} {state : State}
  {token : Token} {items : List (Value × Value)}

theorem exists_start (h : taken.map (·.kind) = value.tokens) :
    ∃ token more, taken = token :: more ∧ token.isPunctuation ']' = false := by
  obtain ⟨kind, kinds, htokens, hkind⟩ := exists_tokens value
  rw [htokens] at h
  obtain ⟨token, more, rfl, rfl, -⟩ := map_eq_cons_iff.mp h
  exact ⟨token, more, rfl, beq_eq_false_iff_ne.mpr hkind⟩

theorem exists_span {kind : Token.Kind} {kinds : List Token.Kind}
    (h : taken.map (·.kind) = kind :: kinds) :
    ∃ span more, taken = ⟨kind, span⟩ :: more ∧ more.map (·.kind) = kinds := by
  obtain ⟨⟨_, span⟩, more, rfl, rfl, hmore⟩ := map_eq_cons_iff.mp h
  exact ⟨span, more, rfl, hmore⟩

/-- The rules read a constant from its tokens. -/
def ReadsBack (context : Context) (value : Value) : Prop :=
  ∀ ⦃depth : Nat⦄ ⦃state : State⦄ ⦃taken rest : List Token⦄ ⦃token : Token⦄,
    ahead context state = taken ++ token :: rest → taken.map (·.kind) = value.tokens →
    taken.length ≤ depth + 1 → AfterConstant token →
    ∃ e, operand (Rules.upTo depth) context state = .ok e (state.skip taken.length) ∧
      e.fold? = some value

/-- As an element of an array, the constant is an expression of its own. -/
theorem ReadsBack.full (h : ReadsBack context value)
    (hahead : ahead context state = taken ++ token :: rest)
    (htaken : taken.map (·.kind) = value.tokens) (hdepth : taken.length ≤ depth)
    (hcloses : AfterConstant token) :
    ∃ e, (Rules.upTo depth).full context state = .ok e (state.skip taken.length) ∧
      e.fold? = some value := by
  cases depth with
  | zero =>
    obtain ⟨kind, more, htokens, -⟩ := exists_tokens value
    rw [length_eq_zero_iff.mp (Nat.le_zero.mp hdepth), htokens] at htaken
    cases htaken
  | succ depth =>
    obtain ⟨e, hrun, hfold⟩ := h hahead htaken hdepth hcloses
    exact ⟨e, expressionUpTo_operand hrun (ahead_skip hahead) hcloses 0, hfold⟩

theorem readsBack_of_leaf (leaf : Leaf) (htokens : value.tokens = [leaf.kind])
    (hfold : ∀ line, (leaf.toExpr line).fold? = some value) : ReadsBack context value := by
  intro depth state taken rest token hahead htaken hdepth hcloses
  rw [htokens] at htaken
  obtain ⟨span, more, rfl, hmore⟩ := exists_span htaken
  rw [map_eq_nil_iff.mp hmore] at hahead ⊢
  exact ⟨_, operand_leaf hahead hcloses.ends, hfold span.line⟩

theorem readsBack_int (hcore : context.dialect = Dialect.core) (value : Int64) :
    ReadsBack context (.int value) := by
  have htokens : (Value.int value).tokens = if value < 0 then
    [.operator "-", .number (.int (-value))] else [.number (.int value)] := by rw [Value.tokens]
  by_cases hsign : value < 0
  · rw [if_pos hsign] at htokens
    intro depth state taken rest token hahead htaken hdepth hcloses
    rw [htokens] at htaken
    obtain ⟨sign, more, rfl, hmore⟩ := exists_span htaken
    obtain ⟨digits, more, rfl, hnil⟩ := exists_span hmore
    rw [map_eq_nil_iff.mp hnil] at hahead hdepth ⊢
    cases depth with
    | zero => exact absurd hdepth (Nat.not_succ_le_self 1)
    | succ depth =>
      refine ⟨_, operand_negative hcore hahead hcloses, ?_⟩
      exact congrArg (fun n => some (Value.int n)) Int64.neg_neg
  · rw [if_neg hsign] at htokens
    exact readsBack_of_leaf (.number (.int value)) htokens fun line => by
      rw [Leaf.toExpr, Value.ofNumber, Expr.fold?_constant]

theorem readsBack_string (value : String) : ReadsBack context (.string value) := by
  have htokens : (Value.string value).tokens =
      [if Latte.isSymbol value then .name value else .string value] := by rw [Value.tokens]
  by_cases hsymbol : Latte.isSymbol value = true
  · rw [if_pos hsymbol] at htokens
    exact readsBack_of_leaf (.name value) htokens fun line => by
      rw [Leaf.toExpr, keyword?_eq_none hsymbol, Expr.fold?_name]
  · rw [if_neg hsymbol] at htokens
    intro depth state taken rest token hahead htaken hdepth hcloses
    rw [htokens] at htaken
    obtain ⟨span, more, rfl, hmore⟩ := exists_span htaken
    rw [map_eq_nil_iff.mp hmore] at hahead ⊢
    refine ⟨_, operand_atom hahead (prefixOperator?_eq_none hahead (by rintro _ ⟨⟩)) rfl
      (atom_string hahead hcloses) (ahead_skip_one hahead) hcloses, ?_⟩
    exact Expr.fold?_constant _ _

/-! ### Arrays -/

theorem atom_array {r : Rules} {state : State} {opening closing : Span} {inner rest : List Token}
    (hahead : ahead context state =
      ⟨.punctuation '[', opening⟩ :: (inner ++ ⟨.punctuation ']', closing⟩ :: rest))
    {elements : List (Expr × Expr)}
    (helements : separated ']' "An array element must be followed by a comma" (arrayElement r) []
      context (state.skip 1) = .ok elements ((state.skip 1).skip inner.length)) :
    ∃ line, atom r context state =
      .ok { kind := .array elements, line } (state.skip (inner.length + 1 + 1)) := by
  have hinner := ahead_skip_one hahead
  have hclose := ahead_skip hinner
  obtain ⟨first, follow, hfirst⟩ : ∃ first follow,
      ahead context (state.skip 1) = first :: follow := by
    refine exists_cons_of_ne_nil ?_
    rw [hinner]
    exact append_ne_nil_of_right_ne_nil _ (cons_ne_nil _ _)
  refine ⟨first.line, ?_⟩
  rw [atom, bind_eq_of_ok (current_eq hahead)]
  change arrayLiteral r context state = _
  rw [arrayLiteral, bind_eq_of_ok (expectPunctuation_eq hahead),
    bind_eq_of_ok (currentLine_eq hfirst), bind_eq_of_ok helements,
    bind_eq_of_ok (expectPunctuation_eq hclose), State.skip_skip, State.skip_skip,
    Nat.add_comm 1]
  rfl

theorem eq_of_isInt {position : Nat} (h : key.isInt position = true) :
    key = .int (Int64.ofNat position) := by
  cases key with
  | int value =>
    rw [Value.isInt, beq_iff_eq] at h
    rw [← Int64.ofInt_eq_ofNat, ← h, Int64.ofInt_toInt]
  | _ => cases h

theorem exists_arrayElement (h : ReadsBack context value)
    (hahead : ahead context state = taken ++ token :: rest)
    (htaken : taken.map (·.kind) = value.tokens) (hdepth : taken.length ≤ depth)
    (hcloses : AfterConstant token) {items : List (Expr × Expr)}
    (hkey : key.isInt items.length = true) :
    ∃ item : Expr × Expr, arrayElement (Rules.upTo depth) items context state =
        .ok (items ++ [item]) (state.skip taken.length) ∧
      item.1.fold? = some key ∧ item.2.fold? = some value := by
  obtain ⟨e, hrun, hfold⟩ := h.full hahead htaken hdepth hcloses
  refine ⟨(Expr.constant (.int (Int64.ofNat items.length)) e.line, e), ?_, ?_, hfold⟩
  · rw [arrayElement, bind_eq_of_ok hrun]
    rfl
  · rw [eq_of_isInt hkey, Expr.fold?_constant]

/-- What follows an element is a comma or the closing bracket. -/
theorem afterConstant_more (h : taken.map (·.kind) = moreTokens items) (closing : Span)
    (rest : List Token) :
    ∃ token more, taken ++ ⟨.punctuation ']', closing⟩ :: rest = token :: more ∧
      AfterConstant token := by
  cases items with
  | nil =>
    rw [moreTokens, map_eq_nil_iff] at h
    rw [h]
    exact ⟨_, rest, rfl, .bracket closing⟩
  | cons item items =>
    rw [moreTokens] at h
    obtain ⟨span, more, rfl, -⟩ := exists_span h
    exact ⟨_, _, rfl, .comma span⟩

/-- The further elements of an array, up to its closing bracket. -/
theorem exists_iterate_more (comma : String) (hvalues : ∀ item ∈ items, ReadsBack context item.2) :
    ∀ {depth limit : Nat} {state : State} {taken rest : List Token} {closing : Span}
      {before : List (Expr × Expr)}, areReadable before.length items = true →
      ahead context state = taken ++ ⟨.punctuation ']', closing⟩ :: rest →
      taken.map (·.kind) = moreTokens items → taken.length ≤ depth → taken.length < limit →
      ∃ more, iterate (separatedRound ']' comma (arrayElement (Rules.upTo depth))) limit
          (before, false) context state = .ok (before ++ more) (state.skip taken.length) ∧
        foldItems? more = some items := by
  induction items with
  | nil =>
    intro depth limit state taken rest closing before _ hahead htaken _ hlimit
    rw [moreTokens, map_eq_nil_iff] at htaken
    rw [htaken] at hahead hlimit ⊢
    obtain ⟨limit, rfl⟩ := Nat.exists_eq_succ_of_ne_zero (Nat.ne_of_gt hlimit)
    refine ⟨[], ?_, foldItems?_nil⟩
    rw [iterate_inr (separatedRound_close hahead rfl false), append_nil]
    rfl
  | cons item items ih =>
    intro depth limit state taken rest closing before hreadable hahead htaken hdepth hlimit
    obtain ⟨key, value⟩ := item
    rw [areReadable, Bool.and_eq_true, Bool.and_eq_true] at hreadable
    obtain ⟨⟨hkey, -⟩, hreadable⟩ := hreadable
    obtain ⟨hvalue, hvalues⟩ := forall_mem_cons.mp hvalues
    rw [moreTokens] at htaken
    obtain ⟨span, tail, rfl, htail⟩ := exists_span htaken
    obtain ⟨first, others, rfl, hfirst, hothers⟩ := map_eq_append_iff.mp htail
    rw [length_cons, length_append] at hdepth hlimit
    rw [cons_append, List.append_assoc] at hahead
    obtain ⟨limit, rfl⟩ := Nat.exists_eq_succ_of_ne_zero (Nat.ne_zero_of_lt hlimit)
    -- The comma and the next element,
    obtain ⟨token, follow, hfollow, hcloses⟩ := afterConstant_more hothers closing rest
    have helement := ahead_skip_one hahead
    rw [hfollow] at helement
    have hshorter : first.length ≤ depth ∧ others.length ≤ depth ∧ others.length < limit := by omega
    obtain ⟨element, hrun, hkey, hvalue⟩ :=
      exists_arrayElement hvalue helement hfirst hshorter.1 hcloses hkey
    obtain ⟨start, others', rfl, hstart⟩ := exists_start hfirst
    -- and then the others.
    have hafter := ahead_skip helement
    rw [← hfollow] at hafter
    have hreadable : areReadable (before ++ [element]).length items = true := by
      rw [length_append]
      exact hreadable
    obtain ⟨more, hmore, hfold⟩ := ih hvalues hreadable hafter hothers hshorter.2.1 hshorter.2.2
    refine ⟨element :: more, ?_, foldItems?_cons hkey hvalue hfold⟩
    rw [iterate_inl (separatedRound_comma (by decide) hahead hstart hrun), hmore,
      List.append_assoc, singleton_append, State.skip_skip, State.skip_skip]
    congr 2
    simp only [length_cons, length_append]
    omega

/-- The elements of an array, up to its closing bracket. -/
theorem exists_elements (comma : String) (hreadable : areReadable 0 items = true)
    (hvalues : ∀ item ∈ items, ReadsBack context item.2) {closing : Span}
    (hahead : ahead context state = taken ++ ⟨.punctuation ']', closing⟩ :: rest)
    (htaken : taken.map (·.kind) = elementTokens items) (hdepth : taken.length ≤ depth) :
    ∃ elements, separated ']' comma (arrayElement (Rules.upTo depth)) [] context state =
        .ok elements (state.skip taken.length) ∧ foldItems? elements = some items := by
  rw [separated]
  cases items with
  | nil =>
    rw [elementTokens, map_eq_nil_iff] at htaken
    rw [htaken] at hahead ⊢
    exact ⟨[], loop_inr (separatedRound_close hahead rfl true), foldItems?_nil⟩
  | cons item items =>
    obtain ⟨key, value⟩ := item
    rw [areReadable, Bool.and_eq_true, Bool.and_eq_true] at hreadable
    obtain ⟨⟨hkey, -⟩, hreadable⟩ := hreadable
    obtain ⟨hvalue, hvalues⟩ := forall_mem_cons.mp hvalues
    rw [elementTokens] at htaken
    obtain ⟨first, others, rfl, hfirst, hothers⟩ := map_eq_append_iff.mp htaken
    rw [length_append] at hdepth
    rw [List.append_assoc] at hahead
    obtain ⟨token, follow, hfollow, hcloses⟩ := afterConstant_more hothers closing rest
    have helement := hahead
    rw [hfollow] at helement
    have hkey : key.isInt ([] : List (Expr × Expr)).length = true := hkey
    obtain ⟨element, hrun, hkey, hvalue⟩ := exists_arrayElement hvalue helement hfirst
      (Nat.le_of_add_right_le hdepth) hcloses hkey
    obtain ⟨start, others', rfl, hstart⟩ := exists_start hfirst
    have hafter := ahead_skip helement
    rw [← hfollow] at hafter
    have hlimit : others.length < (ahead context state).length := by
      rw [hahead]
      simp only [length_append, length_cons]
      omega
    have hreadable : areReadable [element].length items = true := hreadable
    obtain ⟨more, hmore, hfold⟩ := exists_iterate_more comma hvalues hreadable hafter hothers
      (Nat.le_of_add_left_le hdepth) hlimit
    refine ⟨element :: more, ?_, foldItems?_cons hkey hvalue hfold⟩
    rw [loop_eq, iterate_inl (separatedRound_first hahead hstart hrun), nil_append, hmore,
      State.skip_skip, length_append]
    rfl

theorem readsBack_array (hreadable : areReadable 0 items = true)
    (hvalues : ∀ item ∈ items, ReadsBack context item.2) : ReadsBack context (.array items) := by
  intro depth state taken rest token hahead htaken hdepth hcloses
  rw [Value.tokens] at htaken
  obtain ⟨opening, tail, rfl, htail⟩ := exists_span htaken
  obtain ⟨inner, last, rfl, hinner, hlast⟩ := map_eq_append_iff.mp htail
  obtain ⟨closing, more, rfl, hmore⟩ := exists_span hlast
  rw [map_eq_nil_iff.mp hmore] at hahead hdepth ⊢
  have hafter := ahead_skip hahead
  rw [cons_append, List.append_assoc, singleton_append] at hahead
  rw [length_cons, length_append, length_singleton] at hdepth hafter ⊢
  have hshorter : inner.length ≤ depth := by omega
  obtain ⟨elements, helements, hfold⟩ := exists_elements _ hreadable hvalues
    (ahead_skip_one hahead) hinner hshorter
  obtain ⟨line, hatom⟩ := atom_array hahead helements
  refine ⟨_, operand_atom hahead (prefixOperator?_eq_none hahead (by rintro _ ⟨⟩)) rfl hatom hafter
    hcloses, ?_⟩
  exact congrArg (Option.map Value.array) hfold

mutual

/-- **The tokens of a constant are read as an expression that stands for it.** -/
theorem operand_tokens (hcore : context.dialect = Dialect.core) :
    ∀ value : Value, value.isReadable = true → ReadsBack context value
  | .null, _ => readsBack_of_leaf (.name "null") (by rw [Value.tokens]; rfl) fun line => by
    rw [Leaf.toExpr, keyword?_null, Expr.fold?_constant]
  | .bool value, _ => readsBack_of_leaf (.name (if value then "true" else "false"))
      (by rw [Value.tokens]; rfl) fun line => by
    rw [Leaf.toExpr, keyword?_bool, Expr.fold?_constant]
  | .int value, _ => readsBack_int hcore value
  | .float _, hvalue => by
    rw [Value.isReadable] at hvalue
    cases hvalue
  | .string value, _ => readsBack_string value
  | .array items, hvalue => by
    rw [Value.isReadable] at hvalue
    exact readsBack_array hvalue (operand_tokens_items hcore 0 items hvalue)

theorem operand_tokens_items (hcore : context.dialect = Dialect.core) (position : Nat) :
    ∀ items : List (Value × Value), areReadable position items = true →
      ∀ item ∈ items, ReadsBack context item.2
  | [], _ => forall_mem_nil _
  | (key, value) :: rest, hitems => by
    rw [areReadable, Bool.and_eq_true, Bool.and_eq_true] at hitems
    exact forall_mem_cons.mpr ⟨operand_tokens hcore value hitems.1.2,
      operand_tokens_items hcore (position + 1) rest hitems.2⟩

end

end

end Grammar

end TwigToLatte
