import TwigToLatte.Parse
import TwigToLatte.Token.Pattern

/-!
# The grammar of expressions

Expressions nest, so the rules below are written for given rules `r` of the expressions inside
them. A rule asks `r` only after it has taken a token. `Rules.upTo n` are the rules for expressions
that nest at most `n` deep, and as no expression nests deeper than it has tokens, `nested`
takes the number of tokens that are left.

* `expressionRule` — operators by precedence, then a trailing conditional.
* `primaryRule` — constants, names, calls, strings, arrays and hashes.
* `suffixes` — attributes, elements, slices and filters after an operand.
* `arguments`, `macroParams` — parenthesised lists of calls and of macro definitions.
-/

namespace TwigToLatte.Grammar

open Parse

/-- Whether a text is a name as a whole. -/
def isName (text : String) : Bool :=
  match text.toList with
  | [] => false
  | c :: rest => Pattern.isNameStart c && rest.all Pattern.isNameChar

/-- Whether a text starts like a name. -/
def startsLikeName (text : String) : Bool := text.toList.head?.any Pattern.isNameStart

/-- The constant that a name spells, in any case. -/
def keyword? (name : String) : Option Value :=
  match name.toLower with
  | "true" => some (.bool true)
  | "false" => some (.bool false)
  | "none" | "null" => some .null
  | _ => none

mutual

/-- Constants, arrays of constants and signed constants. -/
def isConstant : Expr → Bool
  | ⟨kind, _, _⟩ => isConstantKind kind

def isConstantKind : Expr.Kind → Bool
  | .constant _ => true
  | .array items => areConstant items
  | .unary .neg operand | .unary .pos operand => isConstant operand
  | _ => false

def areConstant : List (Expr × Expr) → Bool
  | [] => true
  | (key, value) :: rest => isConstant key && isConstant value && areConstant rest

end

/-- The rules of the expressions inside an expression. -/
structure Rules where
  /-- An expression whose operators bind at least as tightly as given; the flag allows an
  anonymous function. -/
  expression : Precedence → Bool → Parse Expr
  primary : Parse Expr

def Rules.full (r : Rules) : Parse Expr := r.expression 0 false

/-! ## Calls -/

/-- One argument of a call. Where `named` allows it, a name before an equals sign names it. -/
def argument (r : Rules) (named allowArrow : Bool) : Parse (Argument Expr) := do
  let value ← r.expression 0 allowArrow
  if !named then return .positional value
  match ← nextIfOperator "=" with
  | none => return .positional value
  | some equals =>
    match value.kind with
    | .name name _ => return ⟨some name, ← r.expression 0 allowArrow⟩
    | _ => fail .parameterName equals.line

def beginArguments : String := "A list of arguments must begin with an opening parenthesis"

def separateArguments : String := "Arguments must be separated by a comma"

def closeArguments : String := "A list of arguments must be closed by a parenthesis"

/-- The arguments of a call, in parentheses. -/
def arguments (r : Rules) (named allowArrow : Bool) : Parse (List (Argument Expr)) := do
  let _ ← expectPunctuation '(' (some beginArguments)
  let list ← separated ')' separateArguments
    (fun list => do return list ++ [← argument r named allowArrow]) []
  let _ ← expectPunctuation ')' (some closeArguments)
  return list

/-- The values of positional arguments, in parentheses. -/
def argumentValues (r : Rules) : Parse (List Expr) := do
  return (← arguments r false false).map (·.value)

/-- A parameter of a macro with its default, which must be a constant. Of two parameters of one
name the later default counts. -/
def macroParam (r : Rules) (params : List (String × Expr)) : Parse (List (String × Expr)) := do
  let token ← expectNameToken (some "An argument must be a name")
  let name := token.name?.getD ""
  let value ←
    match ← nextIfOperator "=" with
    | none => pure (Expr.constant .null (← currentLine))
    | some equals => do
      let value ← r.primary
      if isConstant value then pure value else fail .defaultNotConstant equals.line
  return Registry.insertEntry name value params

/-- The parameters of a macro, in parentheses. -/
def macroParams (r : Rules) : Parse (List (String × Expr)) := do
  let _ ← expectPunctuation '(' (some beginArguments)
  let params ← separated ')' separateArguments (macroParam r) []
  let _ ← expectPunctuation ')' (some closeArguments)
  return params

/-- Records that a deprecated callable is used. -/
def warnDeprecated (label name : String) (deprecation : Option Deprecation) (line : Nat) :
    Parse Unit := do
  match deprecation with
  | none => return
  | some deprecation =>
    let since := deprecation.since.elim "" (" since version " ++ ·)
    let instead := deprecation.alternative.elim "" fun name => ". Use \"" ++ name ++ "\" instead"
    record
      { level := .warn
        message := "Twig " ++ label ++ " \"" ++ name ++ "\" is deprecated" ++ since ++ instead
        fields := [("template", (← read).template), ("line", toString line)] }

/-- Whether a missing value of the expression can be replaced. -/
def isReplaceable (e : Expr) : Bool :=
  match e.kind with
  | .name .. | .access .. => true
  | _ => false

/-- Applies a filter of the dialect. The filter that supplies a missing value becomes an operator
where the operand can be missing. -/
def buildFilter (operand : Expr) (name : String) (list : List (Argument Expr)) (line : Nat) :
    Parse Expr := do
  let dialect := (← read).dialect
  match dialect.filter? name with
  | none => fail (.unknownFilter name dialect.filters.keys) line
  | some filter =>
    warnDeprecated "Filter" name filter.deprecation line
    let list ← check (Signature.bind ⟨.filter, name⟩ filter.signature list line)
    if filter.kind = .fallback ∧ isReplaceable operand then
      let other := (list.head?.map (·.value)).getD (Expr.string "" operand.line)
      return Expr.binary .nullCoalesce operand other line
    else return { kind := .filter operand name list, line }

/-- Filters with their arguments, bars between them. -/
def filterChain (r : Rules) (operand : Expr) : Parse Expr :=
  loop operand fun operand => do
    let token ← expectNameToken
    let list ← if (← current).isPunctuation '(' then arguments r true true else pure []
    let filtered ← buildFilter operand (token.name?.getD "") list token.line
    if (← nextIfPunctuation '|').isSome then return .inl filtered else return .inr filtered

/-- The content that the parent gives to the block around the position. -/
def parentCall (r : Rules) (line : Nat) : Parse Expr := do
  let _ ← arguments r false false
  match ← enclosingBlock with
  | none => fail .parentOutsideBlock line
  | some block =>
    let scope ← getScope
    if scope.parent.isNone && !scope.usesBlocks then fail .parentWithoutParent line
    else return { kind := .parent block false, line }

/-- The content of a block, of this template or of another one. -/
def blockCall (r : Rules) (line : Nat) : Parse Expr := do
  match ← argumentValues r with
  | [] => fail .blockFunctionArity line
  | block :: more => return { kind := .blockCall block more.head? false false, line }

/-- An attribute whose name is computed. The third argument holds the arguments of a method. -/
def attributeCall (r : Rules) (line : Nat) : Parse Expr := do
  match ← argumentValues r with
  | object :: key :: more =>
    let list :=
      match more.head? with
      | some ⟨.array items, _, _⟩ => items.map (·.2)
      | some other => [other]
      | none => []
    return { kind := .access object key list .any false, line }
  | _ => fail .attributeFunctionArity line

def dialectCall (r : Rules) (name : String) (line : Nat) : Parse Expr := do
  let list ← arguments r true false
  let dialect := (← read).dialect
  match dialect.function? name with
  | none => fail (.unknownFunction name dialect.functions.keys) line
  | some function =>
    warnDeprecated "Function" name function.deprecation line
    let list ← check (Signature.bind ⟨.function, name⟩ function.signature list line)
    return { kind := .function name function.kind list false, line }

/-- A call, the position being before its arguments. An imported macro hides a function. -/
def functionCall (r : Rules) (name : String) (line : Nat) : Parse Expr := do
  match name with
  | "parent" => parentCall r line
  | "block" => blockCall r line
  | "attribute" => attributeCall r line
  | _ =>
    match ← symbol? .function name with
    | some imported =>
      let list ← arguments r false false
      let object := imported.object.getD (Expr.name name line)
      return { kind := .macroCall object imported.name list false, line }
    | none => dialectCall r name line

/-! ## Suffixes -/

/-- What stands after a dot: a name, a number, or an operator that reads like a name. -/
def attributeName (token : Token) (line : Nat) : Parse Value := do
  match token.kind with
  | .name name => return .string name
  | .number number => return .ofNumber number
  | .operator symbol =>
    if startsLikeName symbol then return .string symbol else fail .attributeName line
  | _ => fail .attributeName line

/-- The macro that an attribute of an imported template names. -/
def macroName : Value → String
  | .string name => name
  | .int n => (Number.int n).display
  | .float x => (Number.float x).display
  | _ => ""

/-- An attribute or a method call, after the dot. -/
def attributeAccess (r : Rules) (operand : Expr) (line : Nat) : Parse Expr := do
  let key ← attributeName (← next) line
  let called := (← current).isPunctuation '('
  let list ← if called then argumentValues r else pure []
  let imported ←
    match operand.kind with
    | .name name _ => do pure (← symbol? .template name).isSome
    | _ => pure false
  if imported then
    return { kind := .macroCall operand (macroName key) (list.map .positional) false, line }
  else
    let call : CallStyle := if called then .method else .any
    return { kind := .access operand (Expr.constant key line) list call false, line }

/-- An element or a slice, after the bracket. -/
def elementAccess (r : Rules) (operand : Expr) (line : Nat) : Parse Expr := do
  let openStart := (← current).isPunctuation ':'
  let start ← if openStart then pure (Expr.constant (.int 0) line) else r.full
  let colon ← nextIfPunctuation ':'
  if openStart || colon.isSome then
    let length ←
      if (← current).isPunctuation ']' then pure (Expr.constant .null line) else r.full
    let slice ← buildFilter operand "slice" [.positional start, .positional length] line
    let _ ← expectPunctuation ']'
    return slice
  else
    let _ ← expectPunctuation ']'
    return { kind := .access operand start [] .array false, line }

/-- Everything that may follow an operand. -/
def suffixes (r : Rules) (operand : Expr) : Parse Expr :=
  loop operand fun operand => do
    let token ← current
    if token.isPunctuation '.' then
      let token ← next
      return .inl (← attributeAccess r operand token.line)
    else if token.isPunctuation '[' then
      let token ← next
      return .inl (← elementAccess r operand token.line)
    else if token.isPunctuation '|' then
      let _ ← next
      return .inl (← filterChain r operand)
    else return .inr operand

/-! ## Primaries -/

/-- A round of the parts of a string: the parts so far, and whether a text may follow. -/
def stringRound (r : Rules) (round : List Expr × Bool) :
    Parse ((List Expr × Bool) ⊕ List Expr) := do
  let (parts, textAllowed) := round
  let token ← current
  match textAllowed, token.kind with
  | true, .string value =>
    let _ ← next
    return .inl (parts ++ [Expr.string value token.line], false)
  | _, .interpolationStart =>
    let _ ← next
    let part ← r.full
    let _ ← expect (·.kind == .interpolationEnd) "\"end of string interpolation\""
    return .inl (parts ++ [part], true)
  | _, _ => return .inr parts

/-- The parts of a string: texts and interpolated expressions. Two texts in a row belong to two
strings, so a text may follow only an interpolation. -/
def stringParts (r : Rules) : Parse (List Expr) := loop ([], true) (stringRound r)

/-- A string literal; its parts are joined from the left. -/
def stringLiteral (r : Rules) : Parse Expr := do
  let line ← currentLine
  match ← stringParts r with
  | [] => fail .missingString line
  | first :: more =>
    return more.foldl (fun left right => Expr.binary .concat left right right.line) first

/-- An element of an array literal, numbered by its position. -/
def arrayElement (r : Rules) (items : List (Expr × Expr)) : Parse (List (Expr × Expr)) := do
  let value ← r.full
  let key := Expr.constant (.int (Int64.ofNat items.length)) value.line
  return items ++ [(key, value)]

def arrayLiteral (r : Rules) : Parse Expr := do
  let _ ← expectPunctuation '[' (some "An array element was expected")
  let line ← currentLine
  let items ← separated ']' "An array element must be followed by a comma" (arrayElement r) []
  let _ ← expectPunctuation ']' (some "An opened array is not properly closed")
  return { kind := .array items, line }

def hashValue (r : Rules) (key : Expr) : Parse (Expr × Expr) := do
  let _ ← expectPunctuation ':' (some "A hash key must be followed by a colon (:)")
  return (key, ← r.full)

/-- One element of a hash. A name alone stands for itself and for the variable of that name. -/
def hashItem (r : Rules) : Parse (Expr × Expr) := do
  let token ← current
  match token.kind with
  | .name name =>
    let _ ← next
    let key := Expr.string name token.line
    let after ← current
    if after.isPunctuation ',' || after.isPunctuation '}' then
      return (key, Expr.name name token.line)
    else hashValue r key
  | .string value =>
    let _ ← next
    hashValue r (Expr.string value token.line)
  | .number number =>
    let _ ← next
    hashValue r (Expr.constant (.ofNumber number) token.line)
  | .punctuation '(' => hashValue r (← r.full)
  | found => fail (.hashKey found) token.line

def hashLiteral (r : Rules) : Parse Expr := do
  let _ ← expectPunctuation '{' (some "A hash element was expected")
  let line ← currentLine
  let items ← separated '}' "A hash value must be followed by a comma"
    (fun items => do return items ++ [← hashItem r]) []
  let _ ← expectPunctuation '}' (some "An opened hash is not properly closed")
  return { kind := .array items, line }

/-- A constant, a call or a variable, after its name has been taken. -/
def namedPrimary (r : Rules) (name : String) (line : Nat) : Parse Expr := do
  match keyword? name with
  | some value => return Expr.constant value line
  | none =>
    if (← current).isPunctuation '(' then functionCall r name line
    else return Expr.name name line

/-- An operator in the place of an operand: a word stands for a variable, a sign applies to the
operand after it. -/
def operatorPrimary (r : Rules) (symbol : String) (line : Nat) : Parse Expr := do
  if isName symbol then
    let _ ← next
    return Expr.name symbol line
  else
    match (← read).dialect.unary.get? symbol with
    | some ⟨_, .not⟩ => fail (.unaryOperator symbol) line
    | some ⟨_, op⟩ =>
      let _ ← next
      return { kind := .unary op (← r.primary), line }
    | none =>
      let strict := (← previous).any fun p => p.isOperator "==" || p.isOperator "!="
      if symbol == "=" && strict then fail .strictComparison line
      else fail (.unexpectedToken (.operator symbol)) line

/-- An operand without its suffixes. -/
def atom (r : Rules) : Parse Expr := do
  let token ← current
  match token.kind with
  | .name name =>
    let _ ← next
    namedPrimary r name token.line
  | .number number =>
    let _ ← next
    return Expr.constant (.ofNumber number) token.line
  | .string _ | .interpolationStart => stringLiteral r
  | .operator symbol => operatorPrimary r symbol token.line
  | .punctuation '[' => arrayLiteral r
  | .punctuation '{' => hashLiteral r
  | found => fail (.unexpectedToken found) token.line

/-- An operand that no operator precedes. -/
def primaryRule (r : Rules) : Parse Expr := do suffixes r (← atom r)

/-! ## Tests -/

/-- The name of a test, of one or two words. -/
def testName (line : Nat) : Parse (Callable TestKind) := do
  let tests := (← read).dialect.tests
  let name ← expectName
  match tests.get? name with
  | some test => return { test with name }
  | none =>
    match (← current).name? with
    | none => fail (.unknownTest name tests.keys) line
    | some second =>
      let name := name ++ " " ++ second
      match tests.get? name with
      | none => fail (.unknownTest name tests.keys) line
      | some test =>
        let _ ← next
        return { test with name }

/-- A variable that is an imported macro, as a call of that macro. -/
def resolveMacro (operand : Expr) : Parse Expr := do
  match operand.kind with
  | .name name _ =>
    match ← symbol? .function name with
    | none => return operand
    | some imported =>
      let object := imported.object.getD (Expr.name name operand.line)
      return { kind := .macroCall object imported.name [] false, line := operand.line }
  | _ => return operand

/-- The operand of a test for existence, marked as such. Literals exist. -/
def markDefined (operand : Expr) (line : Nat) : Except Fault Expr :=
  match operand.kind with
  | .name name _ => .ok { operand with kind := .name name true }
  | .access object key list call _ => .ok { operand with kind := .access object key list call true }
  | .blockCall name template _ output =>
    .ok { operand with kind := .blockCall name template true output }
  | .macroCall object method list _ =>
    .ok { operand with kind := .macroCall object method list true }
  | .function "constant" kind list _ =>
    .ok { operand with kind := .function "constant" kind list true }
  | .constant _ | .array _ => .ok (Expr.constant (.bool true) operand.line)
  | _ => .error ⟨.definedOperand, line⟩

/-- A test of the operand, after the operator that announces it. -/
def testExpression (r : Rules) (operand : Expr) : Parse Expr := do
  let test ← testName operand.line
  let list ←
    if (← current).isPunctuation '(' then arguments r true false
    else if test.oneArgument then do pure [.positional (← primaryRule r)]
    else pure []
  let line ← currentLine
  if test.kind = .defined then
    let operand ← check (markDefined (← resolveMacro operand) line)
    return { kind := .test operand test.name test.kind list, line }
  else
    warnDeprecated "Test" test.name test.deprecation line
    let list ← check (Signature.bind ⟨.test, test.name⟩ test.signature list line)
    return { kind := .test operand test.name test.kind list, line }

/-! ## Operators -/

/-- The distance to the first token after the names of a parenthesised list that is no comma. -/
def namesEnd (context : Context) (cursor : Nat) : Nat → Nat → Nat
  | 0, i => i
  | limit + 1, i =>
    if (context.tokenAt (cursor + i)).isPunctuation ',' then namesEnd context cursor limit (i + 2)
    else i

/-- Whether the parenthesis at the position opens the names of an anonymous function. -/
def opensArrow (context : Context) (cursor : Nat) : Bool :=
  let last := namesEnd context cursor context.tokens.size 2
  (context.tokenAt (cursor + last)).isPunctuation ')'
    && (context.tokenAt (cursor + last + 1)).kind == .arrow

/-- The body of an anonymous function, from its arrow on. -/
def arrowBody (r : Rules) (names : List String) (line : Nat) : Parse Expr := do
  let _ ← next
  return { kind := .arrow names (← r.full), line }

/-- An anonymous function, if one starts here. -/
def arrowFunction (r : Rules) : Parse (Option Expr) := do
  let token ← current
  if (← look 1).kind == .arrow then
    let name ← expectName
    return some (← arrowBody r [name] token.line)
  else if token.isPunctuation '(' && opensArrow (← read) (← get).cursor then
    let token ← next
    let names ← commaList expectName
    let _ ← expectPunctuation ')'
    return some (← arrowBody r names token.line)
  else return none

def prefixOperator? : Parse (Option UnaryOperator) := do
  match (← current).kind with
  | .operator symbol => return (← read).dialect.unary.get? symbol
  | _ => return none

/-- A prefix operator with its operand, an expression in parentheses, or a primary. -/
def operand (r : Rules) : Parse Expr := do
  let token ← current
  match ← prefixOperator? with
  | some sign =>
    let _ ← next
    let inner ← r.expression sign.precedence false
    suffixes r { kind := .unary sign.op inner, line := token.line }
  | none =>
    if token.isPunctuation '(' then
      let _ ← next
      let inner ← r.full
      let _ ← expectPunctuation ')' (some "An opened parenthesis is not properly closed")
      suffixes r inner
    else primaryRule r

/-- The infix operator at the position, if it binds at least as tightly as `least`. -/
def infixOperator? (least : Precedence) : Parse (Option BinaryOperator) := do
  match (← current).kind with
  | .operator symbol =>
    match (← read).dialect.binary.get? symbol with
    | some operator => return if operator.precedence < least then none else some operator
    | none => return none
  | _ => return none

/-- The least precedence of the operators in the right operand. -/
def BinaryOperator.rightPrecedence (operator : BinaryOperator) : Precedence :=
  match operator.associativity with
  | .left => operator.precedence + 1
  | .right => operator.precedence

/-- One infix operator or test, with `left` as its left operand; without one, `left` is all. -/
def infixStep (r : Rules) (least : Precedence) (left : Expr) : Parse (Expr ⊕ Expr) := do
  match ← infixOperator? least with
  | none => return .inr left
  | some operator =>
    let token ← next
    match operator.kind with
    | .test => return .inl (← testExpression r left)
    | .notTest =>
      let test ← testExpression r left
      return .inl { kind := .unary .not test, line := ← currentLine }
    | .binary op =>
      let right ← r.expression (BinaryOperator.rightPrecedence operator) false
      return .inl (Expr.binary op left right token.line)

/-- Infix operators and tests that bind at least as tightly as `least`, from left to right. -/
def infixChain (r : Rules) (least : Precedence) (left : Expr) : Parse Expr :=
  loop left (infixStep r least)

/-- The two alternatives of a conditional, after its question mark. The first may be left out and
is then the test itself; the second may be left out and is then the empty string. -/
def alternatives (r : Rules) (test : Expr) : Parse (Expr × Expr) := do
  if (← nextIfPunctuation ':').isSome then return (test, ← r.full)
  let yes ← r.full
  if (← nextIfPunctuation ':').isSome then return (yes, ← r.full)
  return (yes, Expr.string "" (← currentLine))

def conditionals (r : Rules) (test : Expr) : Parse Expr :=
  loop test fun test => do
    if (← nextIfPunctuation '?').isSome then
      let (yes, no) ← alternatives r test
      return .inl { kind := .conditional test yes no, line := ← currentLine }
    else return .inr test

/-- An expression whose operators bind at least as tightly as `least`; the loosest one may end
with a conditional. -/
def expressionRule (r : Rules) (least : Precedence) (allowArrow : Bool) : Parse Expr := do
  match ← (if allowArrow then arrowFunction r else pure none) with
  | some function => return function
  | none =>
    let e ← infixChain r least (← operand r)
    if least = 0 then conditionals r e else return e

/-! ## Nesting -/

/-- No expression nests deeper than it has tokens. -/
def tooDeep : Parse Expr := do
  fail (.internal "An expression nests deeper than it has tokens") (← currentLine)

mutual

def expressionUpTo : Nat → Precedence → Bool → Parse Expr
  | 0 => fun _ _ => tooDeep
  | depth + 1 => expressionRule ⟨expressionUpTo depth, primaryUpTo depth⟩

def primaryUpTo : Nat → Parse Expr
  | 0 => tooDeep
  | depth + 1 => primaryRule ⟨expressionUpTo depth, primaryUpTo depth⟩

end

/-- The rules for expressions that nest at most `depth` deep. -/
def Rules.upTo (depth : Nat) : Rules := ⟨expressionUpTo depth, primaryUpTo depth⟩

/-- Runs a rule with rules for every expression that the remaining tokens can hold. -/
def nested {α : Type} (rule : Rules → Parse α) : Parse α := do
  rule (Rules.upTo ((← remaining) + 1))

/-- An expression whose operators bind at least as tightly as given. -/
def expressionWith (least : Precedence) (allowArrow : Bool) : Parse Expr :=
  nested fun r => r.expression least allowArrow

def expression : Parse Expr := expressionWith 0 false

/-- An operand that no operator precedes. -/
def primary : Parse Expr := nested Rules.primary

/-- A variable to assign to. The constants cannot be assigned to. -/
def assignmentTarget : Parse String := do
  let token ← current
  let name ←
    match token.kind with
    | .operator symbol =>
      if startsLikeName symbol then do
        let _ ← next
        pure symbol
      else do pure ((← expectNameToken (some "Only variables can be assigned to")).name?.getD "")
    | _ => do pure ((← expectNameToken (some "Only variables can be assigned to")).name?.getD "")
  if (keyword? name).isSome then fail (.assignConstant name) token.line else return name

/-- The variables that a statement assigns to. -/
def assignmentTargets : Parse (List String) := commaList assignmentTarget

def assignedValues : Parse (List Expr) := commaList expression

end TwigToLatte.Grammar
