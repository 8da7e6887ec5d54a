import TwigToLatte.Dialect
import TwigToLatte.Latte.Literal
import TwigToLatte.Latte.Rendered

/-!
# Expressions in Latte

* `Scope` — what the text of an expression depends on besides the expression: the dialect's names
  for filters and functions, and the variables of the loops around it.
* `expression` — an expression. One that is all of a print statement has no parentheses of its own.
* `operand` — an expression as an operand, in parentheses where it would not group.
-/

namespace TwigToLatte.Latte

/-- What rendering depends on. -/
structure Scope where
  dialect : Dialect
  /-- The name of the template in messages. -/
  template : String
  /-- The variables that the loops around the position assign. -/
  bound : List String := []

/-- The Latte variable in place of a name that has a meaning of its own. -/
def specialName? (bound : List String) (name : String) : Option String :=
  if name == "loop" && !bound.contains name then some "$iterator" else none

/-- A variable, or the test for its existence. -/
def variableText (bound : List String) (name : String) (defined : Bool) : String :=
  match defined, specialName? bound name with
  | true, some _ => "true"
  | true, none => "isset($" ++ name ++ ")"
  | false, some special => special
  | false, none => "$" ++ name

def unarySymbol : UnaryOp → String
  | .not => "!"
  | .neg => "-"
  | .pos => "+"

/-- How a binary operator is written. -/
inductive BinaryForm where
  | infixed (symbol : String)
  | call (function : String)
  /-- A call with the right operand first. -/
  | callSwapped (function : String)
  | notContained
  | floor
  | unsupported
  deriving DecidableEq, Repr

def binaryForm : BinaryOp → BinaryForm
  | .or => .infixed "||"
  | .and => .infixed "&&"
  | .bitOr => .unsupported
  | .bitXor => .infixed "^"
  | .bitAnd => .infixed "&"
  | .equal => .infixed "=="
  | .notEqual => .infixed "!="
  | .spaceship => .infixed "<=>"
  | .less => .infixed "<"
  | .greater => .infixed ">"
  | .greaterEqual => .infixed ">="
  | .lessEqual => .infixed "<="
  | .notIn => .notContained
  | .isIn => .infixed "in"
  | .matchesPattern => .callSwapped "preg_match"
  | .startsWith => .call "str_starts_with"
  | .endsWith => .call "str_ends_with"
  | .range => .call "range"
  | .add => .infixed "+"
  | .sub => .infixed "-"
  | .concat => .infixed "."
  | .mul => .infixed "*"
  | .div => .infixed "/"
  | .floorDiv => .floor
  | .mod => .infixed "%"
  | .power => .infixed "**"
  | .nullCoalesce => .infixed "??"

/-- Whether an operand of this form needs parentheses. -/
def needsParentheses : Expr.Kind → Bool
  | .conditional .. => true
  | .test _ _ kind _ => kind != .generic && kind != .defined
  | _ => false

/-- The function that a generic test calls. -/
def testFunction (dialect : Dialect) (name : String) : String :=
  Text.replace " " "_" (dialect.latteFunction name)

/-- The function that a call names; asking whether a constant exists has a function of its own. -/
def functionName (dialect : Dialect) (name : String) (defined : Bool) : String :=
  if name == "constant" && defined then "defined" else dialect.latteFunction name

/-- Template names end in `.latte`. -/
def latteExtension (name : String) : String := Text.replace ".twig" ".latte" name

/-- The parameters of an anonymous function. -/
def arrowHead (names : List String) : String :=
  "fn(" ++ ", ".intercalate (names.map ("$" ++ ·)) ++ ") => "

/-- Parentheses unless the expression stands alone. -/
def groupUnless (topmost : Bool) (r : Rendered) : Rendered :=
  if topmost then r else r.parenthesize

def argumentName (name : Option String) : String := (name.map (· ++ ": ")).getD ""

/-- Whether an array element with this key is written without it: the key is the number of
constant keys before. -/
def isImpliedKey (count : Nat) (key : Expr) : Bool := key.constant?.any (Value.isInt count)

/-- The number of constant keys up to and including this one. -/
def countKey (count : Nat) (key : Expr) : Nat := if key.constant?.isSome then count + 1 else count

/-- The way to an attribute that needs no expression: an index or a property. -/
def plainKey? (key : Expr) : Option String :=
  match key.constant? with
  | some (.int index) => if 0 ≤ index then some ("[" ++ toString index.toInt ++ "]") else none
  | some (.string name) => if isIdentifier name then some ("->" ++ name) else none
  | _ => none

mutual

def expression (scope : Scope) : Expr → Rendered
  | ⟨kind, line, topmost⟩ => expressionKind scope kind line topmost

/-- An expression that stands alone. -/
def expressionAlone (scope : Scope) : Expr → Rendered
  | ⟨kind, line, _⟩ => expressionKind scope kind line true

/-- An expression as an operand of another one. -/
def operand (scope : Scope) : Expr → Rendered
  | ⟨kind, line, topmost⟩ =>
    if needsParentheses kind then (expressionKind scope kind line false).parenthesize
    else expressionKind scope kind line topmost

def expressionKind (scope : Scope) : Expr.Kind → Nat → Bool → Rendered
  | .constant value, _, _ => literal value
  | .name name defined, _, _ => variableText scope.bound name defined
  | .target name, _, _ => "$" ++ name
  | .array items, _, _ => "[" ++ elements scope items ++ "]"
  | .unary op e, _, _ => unarySymbol op ++ operand scope e
  | .binary op left right, line, topmost =>
    match binaryForm op with
    | .infixed symbol =>
      groupUnless topmost (operand scope left ++ (" " ++ symbol ++ " ") ++ operand scope right)
    | .call function =>
      function ++ (expression scope left ++ ", " ++ expression scope right).parenthesize
    | .callSwapped function =>
      function ++ (expression scope right ++ ", " ++ expression scope left).parenthesize
    | .notContained =>
      "!in_array(" ++ expression scope left ++ ", " ++ expression scope right ++ ", true)"
    | .floor => "(int) floor" ++ (operand scope left ++ " / " ++ operand scope right).parenthesize
    | .unsupported => .fail (.fault ⟨.bitwiseOr, line⟩)
  | .conditional test yes no, _, _ =>
    operand scope test ++ " ? " ++ operand scope yes
      ++ (if no.isNull then "" else " : " ++ operand scope no : Rendered)
  | .access object key list call defined, _, _ =>
    let path : Rendered := operand scope object ++
      (match plainKey? key with
        | some way => way
        | none => "->\x7b" ++ expression scope key ++ "\x7d" : Rendered)
    let parameters : Rendered :=
      if call == .method || !list.isEmpty then (expressions scope list).parenthesize else ""
    if defined && call == .method then "true"
    else if defined then "isset(" ++ path ++ ")" ++ parameters
    else path ++ parameters
  | .macroCall _ method list defined, _, _ =>
    if defined then "true"
    else ("\x7binclude " ++ method) ++ moreArguments scope list ++ "\x7d"
  | .filter e name list, _, topmost =>
    if topmost then expressionAlone scope e ++ filterCall scope name list
    else (operand scope e ++ filterCall scope name list).parenthesize
  | .function name kind list defined, _, _ =>
    match kind with
    | .inclusion => "\x7binclude " ++ inclusionArguments scope list ++ "\x7d"
    | .generic => functionName scope.dialect name defined ++ (arguments scope list).parenthesize
  | .test e name kind list, line, _ =>
    match kind with
    | .defined => expression scope e
    | .null => operand scope e ++ " === null"
    | .even => operand scope e ++ " % 2 === 0"
    | .odd => operand scope e ++ " % 2 !== 0"
    | .divisibleBy =>
      match list with
      | [] => .fail (.missingArgument name 1 line)
      | ⟨_, divisor⟩ :: _ => operand scope e ++ " % " ++ operand scope divisor ++ " === 0"
    | .sameAs =>
      match list with
      | [] => .fail (.missingArgument name 1 line)
      | ⟨_, other⟩ :: _ => operand scope e ++ " === " ++ operand scope other
    | .constant =>
      match list with
      | [] => .fail (.missingArgument name 1 line)
      | ⟨_, constant⟩ :: rest =>
        "constant(" ++ classOf scope rest ++ expression scope constant ++ ") === "
          ++ operand scope e
    | .generic =>
      testFunction scope.dialect name
        ++ (expression scope e ++ moreArguments scope list).parenthesize
  | .arrow names body, _, _ => arrowHead names ++ expression scope body
  | .blockCall name template defined _, _, _ =>
    match defined, name.string? with
    | true, some block => "ifset " ++ block
    | true, none => "ifset block " ++ expression scope name
    | false, some block => ("\x7binclude " ++ block) ++ fromTemplate scope template ++ "\x7d"
    | false, none =>
      "\x7binclude " ++ expression scope name ++ fromTemplate scope template ++ "\x7d"
  | .parent _ _, _, _ => "\x7binclude parent\x7d"
  | .applyTarget, _, _ => ""

def filterCall (scope : Scope) (name : String) : List (Argument Expr) → Rendered
  | [] => "|" ++ scope.dialect.latteFilter name
  | first :: rest =>
    ("|" ++ scope.dialect.latteFilter name ++ ":") ++ argument scope first
      ++ moreArguments scope rest

/-- The template to include, and further arguments. -/
def inclusionArguments (scope : Scope) : List (Argument Expr) → Rendered
  | [] => ""
  | ⟨_, template⟩ :: rest =>
    (expression scope template).map latteExtension ++ moreArguments scope rest

/-- The class whose constant a test compares with. -/
def classOf (scope : Scope) : List (Argument Expr) → Rendered
  | [] => ""
  | ⟨_, object⟩ :: _ => "get_class(" ++ expression scope object ++ ").\"::\"."

/-- The template that a block comes from. -/
def fromTemplate (scope : Scope) : Option Expr → Rendered
  | none => ""
  | some template => " from " ++ (expression scope template).map latteExtension

def argument (scope : Scope) : Argument Expr → Rendered
  | ⟨name, value⟩ => argumentName name ++ expression scope value

/-- Arguments, each after a comma. -/
def moreArguments (scope : Scope) : List (Argument Expr) → Rendered
  | [] => ""
  | first :: rest => ", " ++ argument scope first ++ moreArguments scope rest

/-- Arguments, separated by commas. -/
def arguments (scope : Scope) : List (Argument Expr) → Rendered
  | [] => ""
  | first :: rest => argument scope first ++ moreArguments scope rest

/-- Expressions, each after a comma. -/
def moreExpressions (scope : Scope) : List Expr → Rendered
  | [] => ""
  | e :: rest => ", " ++ expression scope e ++ moreExpressions scope rest

/-- Expressions, separated by commas. -/
def expressions (scope : Scope) : List Expr → Rendered
  | [] => ""
  | e :: rest => expression scope e ++ moreExpressions scope rest

/-- The elements of an array, without the brackets. -/
def elements (scope : Scope) : List (Expr × Expr) → Rendered
  | [] => ""
  | first :: rest =>
    element scope 0 first ++ moreElements scope (countKey 0 first.1) rest

/-- Further elements, each after a comma. -/
def moreElements (scope : Scope) : Nat → List (Expr × Expr) → Rendered
  | _, [] => ""
  | count, first :: rest =>
    ", " ++ element scope count first ++ moreElements scope (countKey count first.1) rest

/-- An element of an array; its key is left out where it is implied. -/
def element (scope : Scope) (count : Nat) : Expr × Expr → Rendered
  | (key, value) =>
    if isImpliedKey count key then expression scope value
    else expression scope key ++ " => " ++ expression scope value

end

end TwigToLatte.Latte
