import TwigToLatte.Proofs.Latte.Spelling

/-!
# Grouping by infix operators

An infix operator is written in parentheses, a function or a cast around its operands, and a
conditional is in parentheses where it is an operand. That is enough to tell from the text how an
expression is grouped: the text can be read back.

* `Expr.Infixed` — expressions of names, numbers, binary operators and conditionals.
* `readOperand`, `readExpression` — read such an expression from its text, up to a depth of nesting.
* `readsBack_of_infixed` — **what is written is read back**, whatever follows it.
* `infixed_unique` — **expressions with the same text are equal but for their lines**.
-/

namespace TwigToLatte

open List

/-- Expressions of names, numbers, binary operators and conditionals, without the operator that has
no form. -/
inductive Expr.Infixed : Expr → Prop
  | name {name : String} {line : Nat} (hname : Latte.PlainName name) :
      Infixed ⟨.name name false, line, false⟩
  | number {value : Int64} {line : Nat} (hvalue : 0 ≤ value) :
      Infixed ⟨.constant (.int value), line, false⟩
  | binary {op : BinaryOp} {left right : Expr} {line : Nat} (hop : op ≠ .bitOr)
      (hleft : Infixed left) (hright : Infixed right) : Infixed ⟨.binary op left right, line, false⟩
  | conditional {test yes no : Expr} {line : Nat} (htest : Infixed test) (hyes : Infixed yes)
      (hno : Infixed no) : Infixed ⟨.conditional test yes no, line, false⟩

/-- None of them is the constant that an alternative is left out for. -/
theorem Expr.Infixed.isNull {e : Expr} (h : e.Infixed) : e.isNull = false := by
  cases h <;> rfl

/-- The binary operators. -/
def BinaryOp.all : List BinaryOp :=
  [.or, .and, .bitOr, .bitXor, .bitAnd, .equal, .notEqual, .spaceship, .less, .greater,
   .greaterEqual, .lessEqual, .notIn, .isIn, .matchesPattern, .startsWith, .endsWith, .range, .add,
   .sub, .concat, .mul, .div, .floorDiv, .mod, .power, .nullCoalesce]

namespace Latte

/-! ## Forms of operators -/

/-- The operator that is written in the form. -/
def binaryOp? (form : BinaryForm) : Option BinaryOp :=
  BinaryOp.all.find? fun op => binaryForm op = form

theorem binaryOp?_binaryForm (op : BinaryOp) : binaryOp? (binaryForm op) = some op := by
  cases op <;> rfl

theorem eq_of_binaryForm_eq {op' : BinaryOp} (h : binaryForm op = binaryForm op') : op = op' := by
  have hop := binaryOp?_binaryForm op
  rw [h, binaryOp?_binaryForm] at hop
  exact (Option.some.inj hop).symm

/-- A symbol is a word up to the next blank, and no question mark. -/
theorem symbol_of_infixed {symbol : String} (h : binaryForm op = .infixed symbol) :
    (symbol.toList.all (· != ' ')) = true ∧ symbol.toList ≠ ['?'] := by
  cases op <;> cases h <;> decide

/-- The operators that are written as calls. -/
def IsCall (op : BinaryOp) (function : String) : Prop :=
  binaryForm op = .call function ∨ binaryForm op = .callSwapped function

theorem IsCall.word {function : String} (h : IsCall op function) :
    function.toList.all Pattern.isNameChar = true := by
  rcases h with h | h <;> cases op <;> cases h <;> decide

/-! ## Reading -/

/-- Reads an expression at the beginning of a text, and gives what follows it. -/
abbrev Reader := List Char → Option (Expr × List Char)

/-- Two expressions with a text between them. -/
def readTwo (read : Reader) (between : String) (text : List Char) :
    Option ((Expr × Expr) × List Char) := do
  let (first, text) ← read text
  let text ← takeText? between text
  let (second, text) ← read text
  return ((first, second), text)

def readName (text : List Char) : Option (Expr × List Char) :=
  some (.name (String.ofList (text.takeWhile Pattern.isNameChar)) 0,
    text.dropWhile Pattern.isNameChar)

def readNumber (text : List Char) : Option (Expr × List Char) :=
  some (.constant (.int (number (text.takeWhile Char.isDigit))) 0, text.dropWhile Char.isDigit)

/-- What an operand is the beginning of: a conditional after a question mark, or an infix operator.
Without a blank, the operand is all. -/
def readRest (read : Reader) (first : Expr) : Reader
  | ' ' :: text => do
    let symbol := text.takeWhile (· != ' ')
    let text ← takeText? " " (text.dropWhile (· != ' '))
    if symbol = ['?'] then
      let ((yes, no), text) ← readTwo read " : " text
      return (⟨.conditional first yes no, 0, false⟩, text)
    else
      let op ← binaryOp? (.infixed (String.ofList symbol))
      let (second, text) ← read text
      return (.binary op first second 0, text)
  | text => some (first, text)

/-- An expression outside of parentheses. -/
def readExpression (read : Reader) : Reader := fun text => do
  let (first, text) ← read text
  readRest read first text

/-- An expression in parentheses, the first one being taken. -/
def readGroup (read : Reader) : Reader := fun text => do
  let (e, text) ← readExpression read text
  let text ← takeText? ")" text
  return (e, text)

/-- A quotient that is rounded down, after the first parenthesis. -/
def readFloor (read : Reader) : Reader := fun text => do
  let text ← takeText? "int) floor(" text
  let ((left, right), text) ← readTwo read " / " text
  let text ← takeText? ")" text
  return (.binary .floorDiv left right 0, text)

/-- A negated membership, after the exclamation mark. -/
def readNotContained (read : Reader) : Reader := fun text => do
  let text ← takeText? "in_array(" text
  let ((left, right), text) ← readTwo (readExpression read) ", " text
  let text ← takeText? ", true)" text
  return (.binary .notIn left right 0, text)

/-- A call of two arguments. -/
def readCall (read : Reader) : Reader := fun text => do
  let function := String.ofList (text.takeWhile Pattern.isNameChar)
  let text ← takeText? "(" (text.dropWhile Pattern.isNameChar)
  let ((first, second), text) ← readTwo (readExpression read) ", " text
  let text ← takeText? ")" text
  match binaryOp? (.call function) with
  | some op => return (.binary op first second 0, text)
  | none =>
    let op ← binaryOp? (.callSwapped function)
    return (.binary op second first 0, text)

/-- An operand that nests at most `depth` deep. -/
def readOperand : Nat → Reader
  | 0, _ => none
  | _ + 1, [] => none
  | _ + 1, '$' :: text => readName text
  | depth + 1, '(' :: text =>
    (readGroup (readOperand depth) text).or (readFloor (readOperand depth) text)
  | depth + 1, '!' :: text => readNotContained (readOperand depth) text
  | depth + 1, c :: text =>
    if c.isDigit then readNumber (c :: text) else readCall (readOperand depth) (c :: text)

/-- An expression outside of parentheses whose operands nest at most `depth` deep. -/
def readAlone (depth : Nat) : Reader := readExpression (readOperand depth)

/-! ### What is read -/

section

variable {read : Reader} {first second a b : Expr} {left right rest : List Char}

theorem readTwo_eq {between : String} (ha : read (left ++ (between.toList ++ (right ++ rest))) =
      some (a, between.toList ++ (right ++ rest))) (hb : read (right ++ rest) = some (b, rest)) :
    readTwo read between (left ++ (between.toList ++ (right ++ rest))) = some ((a, b), rest) := by
  simp only [readTwo, ha, hb, takeText?_append, Option.bind_eq_bind, Option.bind_some, pure]

variable {symbol : String}

/-- After a symbol between blanks, the rest is read by what the symbol is. -/
theorem readRest_symbol (h : ∀ c ∈ symbol.toList, (c != ' ') = true) (text : List Char) :
    readRest read first ((" " ++ symbol ++ " ").toList ++ text) =
      if symbol.toList = ['?'] then
        (readTwo read " : " text).map fun p => (⟨.conditional first p.1.1 p.1.2, 0, false⟩, p.2)
      else
        (binaryOp? (.infixed symbol)).bind fun op =>
          (read text).map fun p => (.binary op first p.1 0, p.2) := by
  have hchars : (" " ++ symbol ++ " ").toList ++ text = ' ' :: (symbol.toList ++ ' ' :: text) := by
    simp
  have hend : ∀ c ∈ (' ' :: text).head?, (c != ' ') = false := by
    intro c hc
    cases hc
    rfl
  obtain ⟨htake, hdrop⟩ := takeWhile_word h hend
  have hblank : takeText? " " (' ' :: text) = some text := takeText?_append " " text
  rw [hchars]
  simp only [readRest, htake, hdrop, hblank, String.ofList_toList, Option.bind_eq_bind,
    Option.bind_some, Option.map_eq_bind, Function.comp_def]
  rfl

theorem readRest_conditional
    (ha : read (left ++ (" : ".toList ++ (right ++ rest))) =
      some (a, " : ".toList ++ (right ++ rest))) (hb : read (right ++ rest) = some (b, rest)) :
    readRest read first (" ? ".toList ++ (left ++ (" : ".toList ++ (right ++ rest)))) =
      some (⟨.conditional first a b, 0, false⟩, rest) := by
  have hword : ∀ c ∈ "?".toList, (c != ' ') = true := by
    intro c hc
    cases mem_singleton.mp hc
    rfl
  have hquestion : "?".toList = ['?'] := rfl
  show readRest read first ((" " ++ "?" ++ " ").toList ++ _) = _
  rw [readRest_symbol hword, if_pos hquestion, readTwo_eq ha hb]
  rfl

theorem readRest_infixed (hform : binaryForm op = .infixed symbol)
    (hb : read (right ++ rest) = some (b, rest)) :
    readRest read first ((" " ++ symbol ++ " ").toList ++ (right ++ rest)) =
      some (.binary op first b 0, rest) := by
  obtain ⟨hblank, hquestion⟩ := symbol_of_infixed hform
  have hop : binaryOp? (.infixed symbol) = some op := by rw [← hform, binaryOp?_binaryForm]
  rw [readRest_symbol (all_eq_true.mp hblank), if_neg hquestion, hop, hb]
  rfl

theorem readRest_end (h : rest.head? ≠ some ' ') :
    readRest read first rest = some (first, rest) := by
  unfold readRest
  split
  · exact absurd rfl h
  · rfl

theorem readOperand_digit {c : Char} (h : c.isDigit = true) (depth : Nat) :
    readOperand (depth + 1) (c :: rest) = readNumber (c :: rest) := by
  rw [readOperand, if_pos h]
  all_goals
    rintro rfl
    exact absurd h (by decide)

theorem readOperand_call {function : String} (h : IsCall op function) (depth : Nat) :
    readOperand (depth + 1) (function.toList ++ rest) =
      readCall (readOperand depth) (function.toList ++ rest) := by
  rcases h with h | h <;> cases op <;> cases h <;> rfl

/-- A quotient is no group: what follows the parenthesis is no operand. -/
theorem readOperand_int (depth : Nat) :
    readOperand depth ("int) floor(".toList ++ rest) = none := by
  cases depth <;> rfl

theorem readExpression_eq (hread : read left = some (first, rest)) :
    readExpression read left = readRest read first rest := by
  simp only [readExpression, hread, Option.bind_eq_bind, Option.bind_some]

/-- The name of the called function, and its arguments. -/
theorem readCall_eq {op : BinaryOp} {function : String} (h : IsCall op function)
    (hread : readTwo (readExpression read) ", " left = some ((a, b), ')' :: rest)) :
    readCall read (function.toList ++ '(' :: left) =
      if binaryForm op = .call function then some (.binary op a b 0, rest)
      else some (.binary op b a 0, rest) := by
  have hends : EndsWord ('(' :: left) := endsWord_cons (by decide) left
  obtain ⟨htake, hdrop⟩ := takeWhile_word (all_eq_true.mp h.word) hends
  have hopen : takeText? "(" ('(' :: left) = some left := takeText?_append "(" left
  have hclose : takeText? ")" (')' :: rest) = some rest := takeText?_append ")" rest
  simp only [readCall, htake, hdrop, hopen, hread, hclose, String.ofList_toList,
    Option.bind_eq_bind, Option.bind_some, pure]
  rcases h with h | h
  · have hop : binaryOp? (.call function) = some op := by rw [← h, binaryOp?_binaryForm]
    rw [if_pos h, hop]
  · have hop : binaryOp? (.callSwapped function) = some op := by rw [← h, binaryOp?_binaryForm]
    have hnone : binaryOp? (.call function) = none := by
      cases op <;> cases h
      rfl
    have hswapped : binaryForm op ≠ .call function := by
      rw [h]
      intro heq
      cases heq
    rw [if_neg hswapped, hnone, hop]
    rfl

/-- What does not read as a group is read as a quotient. -/
theorem readFloor_eq {depth : Nat}
    (hread : readTwo (readOperand depth) " / " left = some ((a, b), ')' :: rest)) :
    (readGroup (readOperand depth) ("int) floor(".toList ++ left)).or
      (readFloor (readOperand depth) ("int) floor(".toList ++ left)) =
        some (.binary .floorDiv a b 0, rest) := by
  have hclose : takeText? ")" (')' :: rest) = some rest := takeText?_append ")" rest
  simp only [readGroup, readExpression, readFloor, readOperand_int, takeText?_append, hread, hclose,
    Option.bind_eq_bind, Option.bind_some, Option.bind_none, Option.none_or, pure]

theorem readNotContained_eq
    (hread : readTwo (readExpression read) ", " left = some ((a, b), ", true)".toList ++ rest)) :
    readNotContained read ("in_array(".toList ++ left) = some (.binary .notIn a b 0, rest) := by
  simp only [readNotContained, takeText?_append, hread, Option.bind_eq_bind, Option.bind_some, pure]

theorem readGroup_eq (hread : readExpression read left = some (a, ')' :: rest)) :
    readGroup read left = some (a, rest) := by
  have hclose : takeText? ")" (')' :: rest) = some rest := takeText?_append ")" rest
  simp only [readGroup, hread, hclose, Option.bind_eq_bind, Option.bind_some, pure]

end

/-! ## Reading back -/

/-- The text goes on after an expression that stands outside of parentheses. -/
def EndsExpression (rest : List Char) : Prop := EndsWord rest ∧ rest.head? ≠ some ' '

theorem endsExpression_comma (rest : List Char) : EndsExpression (", ".toList ++ rest) :=
  ⟨endsWord_text (by decide) rest, by simp⟩

theorem endsExpression_close (rest : List Char) : EndsExpression (')' :: rest) :=
  ⟨endsWord_cons (by decide) rest, by simp⟩

/-- From some depth on, the text is read as the expression, whatever comes after it. -/
def Readable (read : Nat → Reader) (Ends : List Char → Prop) (r : Rendered) (e : Expr) : Prop :=
  ∃ chars depth, r.Spells chars ∧
    ∀ n ≥ depth, ∀ rest, Ends rest → read n (chars ++ rest) = some (e.unlined, rest)

variable {e : Expr}

/-- An operand is one level of nesting around what it holds. -/
theorem Readable.of_succ {r : Rendered} {chars : List Char} (depth : Nat) (hspells : r.Spells chars)
    (hread : ∀ n ≥ depth, ∀ rest, EndsWord rest →
      readOperand (n + 1) (chars ++ rest) = some (e.unlined, rest)) :
    Readable readOperand EndsWord r e := by
  refine ⟨chars, depth + 1, hspells, fun n hn rest hrest => ?_⟩
  obtain ⟨m, rfl⟩ : ∃ m, n = m + 1 := ⟨n - 1, by omega⟩
  exact hread m (by omega) rest hrest

/-- The expression is read back where it is an operand, and outside of parentheses. -/
structure ReadsBack (scope : Scope) (e : Expr) : Prop where
  operand : Readable readOperand EndsWord (operand scope e) e
  expression : Readable readAlone EndsExpression (expression scope e) e

theorem ReadsBack.of_operand (h : needsParentheses e.kind = false)
    (hread : Readable readOperand EndsWord (Latte.expression scope e) e) : ReadsBack scope e := by
  refine ⟨by rw [operand_eq_expression h]; exact hread, ?_⟩
  obtain ⟨chars, depth, hspells, hread⟩ := hread
  refine ⟨chars, depth, hspells, fun n hn rest hrest => ?_⟩
  rw [readAlone, readExpression_eq (hread n hn rest hrest.1), readRest_end hrest.2]

/-! ### Operands side by side -/

section

variable {r s : Rendered} {a b c : Expr} {op : BinaryOp} {line : Nat}

/-- Two expressions with a text between them are read one after the other. -/
theorem Readable.two {read : Nat → Reader} {Ends : List Char → Prop} (hr : Readable read Ends r a)
    (hs : Readable read Ends s b) {between : String}
    (hbetween : ∀ rest, Ends (between.toList ++ rest)) :
    ∃ left right depth, r.Spells left ∧ s.Spells right ∧ ∀ n ≥ depth, ∀ rest, Ends rest →
      readTwo (read n) between (left ++ (between.toList ++ (right ++ rest))) =
        some ((a.unlined, b.unlined), rest) := by
  obtain ⟨left, depth, hleft, hreadLeft⟩ := hr
  obtain ⟨right, depth', hright, hreadRight⟩ := hs
  refine ⟨left, right, max depth depth', hleft, hright, fun n hn rest hrest => ?_⟩
  exact readTwo_eq (hreadLeft n (by omega) _ (hbetween _)) (hreadRight n (by omega) rest hrest)

theorem Readable.infixed (hr : Readable readOperand EndsWord r a)
    (hs : Readable readOperand EndsWord s b) {symbol : String}
    (hform : binaryForm op = .infixed symbol) :
    Readable readAlone EndsExpression (r ++ ((" " ++ symbol ++ " " : String) : Rendered) ++ s)
      ⟨.binary op a b, line, false⟩ := by
  obtain ⟨left, depth, hleft, hreadLeft⟩ := hr
  obtain ⟨right, depth', hright, hreadRight⟩ := hs
  refine ⟨_, max depth depth', (hleft.append (.text _)).append hright, ?_⟩
  intro n hn rest hrest
  have hblank : ∀ text, EndsWord ((" " ++ symbol ++ " ").toList ++ text) := by
    intro text
    simp only [String.toList_append, List.append_assoc]
    exact endsWord_cons (by decide) _
  rw [List.append_assoc, List.append_assoc, readAlone,
    readExpression_eq (hreadLeft n (by omega) _ (hblank _)),
    readRest_infixed hform (hreadRight n (by omega) rest hrest.1)]
  rfl

theorem Readable.conditional {t : Rendered} (hr : Readable readOperand EndsWord r a)
    (hs : Readable readOperand EndsWord s b) (ht : Readable readOperand EndsWord t c) :
    Readable readAlone EndsExpression (r ++ (" ? " : Rendered) ++ s ++ ((" : " : Rendered) ++ t))
      ⟨.conditional a b c, line, false⟩ := by
  obtain ⟨test, depth, htest, hreadTest⟩ := hr
  obtain ⟨yes, depthYes, hyes, hreadYes⟩ := hs
  obtain ⟨no, depthNo, hno, hreadNo⟩ := ht
  refine ⟨_, max depth (max depthYes depthNo),
    ((htest.append (.text _)).append hyes).append ((Rendered.Spells.text _).append hno), ?_⟩
  intro n hn rest hrest
  have hquestion : ∀ text, EndsWord (" ? ".toList ++ text) := endsWord_text (by decide)
  have hcolon : ∀ text, EndsWord (" : ".toList ++ text) := endsWord_text (by decide)
  simp only [List.append_assoc]
  rw [readAlone, readExpression_eq (hreadTest n (by omega) _ (hquestion _)),
    readRest_conditional (hreadYes n (by omega) _ (hcolon _)) (hreadNo n (by omega) rest hrest.1)]
  rfl

/-- What is read outside of parentheses is an operand in parentheses. -/
theorem Readable.parenthesize (hr : Readable readAlone EndsExpression r a) :
    Readable readOperand EndsWord r.parenthesize a := by
  obtain ⟨chars, depth, hspells, hread⟩ := hr
  refine .of_succ depth hspells.parenthesize fun n hn rest _ => ?_
  have hgroup := readGroup_eq (hread n hn _ (endsExpression_close rest))
  rw [List.append_assoc, cons_append, singleton_append, readOperand, hgroup]
  rfl

theorem Readable.call (hr : Readable readAlone EndsExpression r a)
    (hs : Readable readAlone EndsExpression s b) {function : String} (h : IsCall op function)
    {first second : Expr}
    (horder : (if binaryForm op = .call function then (a, b) else (b, a)) = (first, second)) :
    Readable readOperand EndsWord
      ((function : Rendered) ++ (r ++ (", " : Rendered) ++ s).parenthesize)
      ⟨.binary op first second, line, false⟩ := by
  obtain ⟨left, right, depth, hleft, hright, hread⟩ := hr.two hs endsExpression_comma
  refine .of_succ depth ((Rendered.Spells.text function).append
    ((hleft.append (.text ", ")).append hright).parenthesize) fun n hn rest _ => ?_
  have hcall := readCall_eq h (hread n hn _ (endsExpression_close rest))
  simp only [List.append_assoc, cons_append, nil_append]
  rw [readOperand_call h]
  refine hcall.trans ?_
  split at horder <;> cases horder
  · rename_i hform
    rw [if_pos hform]
    rfl
  · rename_i hform
    rw [if_neg hform]
    rfl

theorem Readable.floor (hr : Readable readOperand EndsWord r a)
    (hs : Readable readOperand EndsWord s b) :
    Readable readOperand EndsWord
      (("(int) floor" : Rendered) ++ (r ++ (" / " : Rendered) ++ s).parenthesize)
      ⟨.binary .floorDiv a b, line, false⟩ := by
  have hslash : ∀ rest, EndsWord (" / ".toList ++ rest) := endsWord_text (by decide)
  obtain ⟨left, right, depth, hleft, hright, hread⟩ := hr.two hs hslash
  refine .of_succ depth ((Rendered.Spells.text _).append
    ((hleft.append (.text " / ")).append hright).parenthesize) fun n hn rest _ => ?_
  have hchars : "(int) floor".toList ++ ('(' :: (left ++ " / ".toList ++ right) ++ [')']) ++ rest =
      '(' :: ("int) floor(".toList ++ (left ++ (" / ".toList ++ (right ++ ')' :: rest)))) := by
    simp
  rw [hchars, readOperand]
  exact readFloor_eq (hread n hn _ (endsExpression_close rest).1)

theorem Readable.notContained (hr : Readable readAlone EndsExpression r a)
    (hs : Readable readAlone EndsExpression s b) :
    Readable readOperand EndsWord
      (("!in_array(" : Rendered) ++ r ++ (", " : Rendered) ++ s ++ (", true)" : Rendered))
      ⟨.binary .notIn a b, line, false⟩ := by
  obtain ⟨left, right, depth, hleft, hright, hread⟩ := hr.two hs endsExpression_comma
  refine .of_succ depth (((((Rendered.Spells.text _).append hleft).append (.text _)).append
    hright).append (.text _)) fun n hn rest _ => ?_
  have hchars : "!in_array(".toList ++ left ++ ", ".toList ++ right ++ ", true)".toList ++ rest =
      '!' :: ("in_array(".toList ++
        (left ++ (", ".toList ++ (right ++ (", true)".toList ++ rest))))) := by
    simp
  have hends : EndsExpression (", true)".toList ++ rest) :=
    ⟨endsWord_text (by decide) rest, by simp⟩
  rw [hchars, readOperand]
  exact readNotContained_eq (hread n hn _ hends)

end

/-! ### Every form -/

variable {scope : Scope} {left right : Expr} {op : BinaryOp} {line : Nat}

theorem readsBack_name {name : String} (hname : PlainName name) :
    ReadsBack scope ⟨.name name false, line, false⟩ := by
  refine .of_operand rfl (.of_succ 0 (hname.spells scope line) fun n _ rest hrest => ?_)
  obtain ⟨htake, hdrop⟩ := hname.takeWhile hrest
  show readName (name.toList ++ rest) = _
  rw [readName, htake, hdrop, String.ofList_toList]
  rfl

theorem readsBack_number {value : Int64} (hvalue : 0 ≤ value) :
    ReadsBack scope ⟨.constant (.int value), line, false⟩ := by
  obtain ⟨first, more, htext, hdigits, hnumber⟩ := exists_digits hvalue
  have hspells : (expression scope ⟨.constant (.int value), line, false⟩).Spells
      (first :: more) := by
    rw [expression, expressionKind, literal]
    exact ⟨rfl, htext⟩
  refine .of_operand rfl (.of_succ 0 hspells fun n _ rest hrest => ?_)
  obtain ⟨htake, hdrop⟩ := takeWhile_word hdigits hrest.isDigit
  have hdigit : first.isDigit = true := hdigits first mem_cons_self
  rw [cons_append, readOperand_digit hdigit, ← cons_append, readNumber, htake, hdrop,
    hnumber]
  rfl

theorem readsBack_binary (hop : op ≠ .bitOr) (hleft : ReadsBack scope left)
    (hright : ReadsBack scope right) : ReadsBack scope ⟨.binary op left right, line, false⟩ := by
  refine .of_operand rfl ?_
  rw [expression, expressionKind]
  cases hform : binaryForm op with
  | infixed symbol => exact (hleft.operand.infixed hright.operand hform).parenthesize
  | call function =>
    exact hleft.expression.call hright.expression (.inl hform) (if_pos hform)
  | callSwapped function =>
    have hswapped : binaryForm op ≠ .call function := by
      rw [hform]
      intro heq
      cases heq
    exact hright.expression.call hleft.expression (.inr hform) (if_neg hswapped)
  | notContained =>
    have hnotIn : op = .notIn := eq_of_binaryForm_eq hform
    rw [hnotIn]
    exact hleft.expression.notContained hright.expression
  | floor =>
    have hfloorDiv : op = .floorDiv := eq_of_binaryForm_eq hform
    rw [hfloorDiv]
    exact hleft.operand.floor hright.operand
  | unsupported => exact absurd (eq_of_binaryForm_eq hform) hop

theorem readsBack_conditional {test yes no : Expr} (hnull : no.isNull = false)
    (htest : ReadsBack scope test) (hyes : ReadsBack scope yes) (hno : ReadsBack scope no) :
    ReadsBack scope ⟨.conditional test yes no, line, false⟩ := by
  have hread : Readable readAlone EndsExpression _ ⟨.conditional test yes no, line, false⟩ :=
    htest.operand.conditional hyes.operand hno.operand
  have hparentheses : needsParentheses (.conditional test yes no) = true := rfl
  constructor
  · rw [Latte.operand, if_pos hparentheses, expressionKind, hnull]
    exact hread.parenthesize
  · rw [Latte.expression, expressionKind, hnull]
    exact hread

/-- **What is written is read back.** -/
theorem readsBack_of_infixed (scope : Scope) (h : e.Infixed) : ReadsBack scope e := by
  induction h with
  | name hname => exact readsBack_name hname
  | number hvalue => exact readsBack_number hvalue
  | binary hop _ _ hleft hright => exact readsBack_binary hop hleft hright
  | conditional _ _ hno htest hyes ih => exact readsBack_conditional hno.isNull htest hyes ih

/-- **Expressions with the same text are equal but for their lines**, in every scope. -/
theorem infixed_unique {scope : Scope} {e e' : Expr} (he : e.Infixed) (he' : e'.Infixed)
    (h : (expression scope e).text = (expression scope e').text) : e.unlined = e'.unlined := by
  obtain ⟨chars, depth, hspells, hread⟩ := (readsBack_of_infixed scope he).expression
  obtain ⟨chars', depth', hspells', hread'⟩ := (readsBack_of_infixed scope he').expression
  have hchars : chars = chars' := hspells.unique hspells' h
  have hends : EndsExpression [] := ⟨endsWord_nil, by simp⟩
  have hfirst := hread (max depth depth') (Nat.le_max_left _ _) [] hends
  have hsecond := hread' (max depth depth') (Nat.le_max_right _ _) [] hends
  rw [hchars, hsecond] at hfirst
  exact (congrArg Prod.fst (Option.some.inj hfirst)).symm

/-- Two quotients of conditionals, on two lines. -/
theorem infixed_unique_quotient :
    let a (line : Nat) : Expr := ⟨.name "a" false, line, false⟩
    let member (line : Nat) : Expr :=
      ⟨.binary .notIn (a line) ⟨.constant (.int 10), line, false⟩, line, false⟩
    let quotient (line : Nat) : Expr :=
      ⟨.binary .floorDiv ⟨.conditional (a line) (member line) (a line), line, false⟩ (a line), line,
        false⟩
    (quotient 1).Infixed ∧ (quotient 2).Infixed ∧
      (expression ⟨{}, "", []⟩ (quotient 1)).text =
        "(int) floor(($a ? !in_array($a, 10, true) : $a) / $a)" ∧
      (expression ⟨{}, "", []⟩ (quotient 2)).text =
        "(int) floor(($a ? !in_array($a, 10, true) : $a) / $a)" ∧
      (quotient 1).unlined = (quotient 2).unlined := by
  intro a member quotient
  have ha : ∀ line, (a line).Infixed := fun _ => .name ⟨by decide, by decide, by decide⟩
  have hquotient : ∀ line, (quotient line).Infixed := fun line =>
    .binary (by decide)
      (.conditional (ha line) (.binary (by decide) (ha line) (.number (by decide))) (ha line))
      (ha line)
  have htext : (expression ⟨{}, "", []⟩ (quotient 1)).text =
      "(int) floor(($a ? !in_array($a, 10, true) : $a) / $a)" := by decide +kernel
  have htext' : (expression ⟨{}, "", []⟩ (quotient 2)).text =
      "(int) floor(($a ? !in_array($a, 10, true) : $a) / $a)" := by decide +kernel
  exact ⟨hquotient 1, hquotient 2, htext, htext',
    infixed_unique (hquotient 1) (hquotient 2) (htext.trans htext'.symm)⟩

end Latte

end TwigToLatte
