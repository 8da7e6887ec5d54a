import TwigToLatte.Suggestion
import TwigToLatte.Token

/-!
# Faults of templates

* `Cause` — everything that can be wrong with a template, with what the message needs to tell it.
* `Cause.kind`, `Cause.message`, `Cause.suggestions` — its class, its wording and the known names
  that resemble an unknown one.
* `Fault` — a cause at a line.
* `Report` — a fault as told to the author of a template, and `Report.display`, its full text.
-/

namespace TwigToLatte

/-- The classes of faults. -/
inductive Fault.Kind where
  | unterminatedTag
  | unterminatedString
  | unexpectedCharacter
  | unexpectedToken
  | unexpectedEnd
  | unknownTag
  | unknownFilter
  | unknownFunction
  | unknownTest
  | duplicateBlock
  | invalidArguments
  | invalidConstruct
  | unsupported
  /-- A broken invariant; never the fault of a template. -/
  | internal
  deriving DecidableEq, Repr

/-- The three kinds of callables that take arguments. -/
inductive CallKind where
  | filter
  | function
  | test
  deriving DecidableEq, Repr

def CallKind.label : CallKind → String
  | .filter => "filter"
  | .function => "function"
  | .test => "test"

/-- The region of a template that lacks its end. -/
inductive Cause.Region where
  | block
  | variable
  | comment
  | verbatim
  deriving DecidableEq, Repr

/-- A callable in a message: its kind and its name. -/
structure Callee where
  kind : CallKind
  name : String
  deriving DecidableEq, Repr

def Callee.display (callee : Callee) : String := callee.kind.label ++ " \"" ++ callee.name ++ "\""

/-- Where an `extends` tag may not stand. -/
inductive Cause.Extends where
  | inBlock
  | inMacro
  | again
  deriving DecidableEq, Repr

/-- What is wrong with a template. -/
inductive Cause where
  | unclosedRegion (region : Cause.Region)
  | unclosedQuote (quote : Char)
  | unopenedBracket (bracket : Char)
  | unclosedBracket (symbol : String)
  | strayCharacter (c : Char)
  /-- More tokens are needed than the template has. -/
  | endOfTemplate
  /-- `found` stands where `expected` was asked for, `context` saying why. -/
  | expected (context : Option String) (found : Token.Kind) (expected : String)
  | unexpectedToken (found : Token.Kind)
  | missingTagName
  | unaryOperator (symbol : String)
  | strictComparison
  | missingString
  | hashKey (found : Token.Kind)
  | attributeName
  | ifNotClosed (line : Nat)
  | missingEndTag (tag : String) (line : Nat)
  | misplacedTag (name tag : String) (line : Nat)
  | unknownTag (name : String) (known : List String)
  | unknownFilter (name : String) (known : List String)
  | unknownFunction (name : String) (known : List String)
  | unknownTest (name : String) (known : List String)
  | duplicateBlock (name : String) (line : Nat)
  | parameterName
  | defaultNotConstant
  | blockFunctionArity
  | attributeFunctionArity
  | positionalAfterNamed (callee : Callee)
  | namedUnsupported (callee : Callee)
  | argumentTwice (argument : String) (callee : Callee)
  | argumentMissing (argument : String) (callee : Callee)
  | argumentsUnknown (arguments : List String) (callee : Callee) (declared : List String)
  | modifierArity (modifier : String) (count : Nat)
  | parentOutsideBlock
  | parentWithoutParent
  | definedOperand
  | assignConstant (name : String)
  | childContent
  | childNestedBlock
  | setCount
  | setCapture
  | escapingStrategy
  | sandboxContent
  | modifierUnknown (modifier : String)
  | endName (tag name given : String)
  | extendsMisuse (misuse : Cause.Extends)
  | useTemplate
  | reservedArgument (macroName : String)
  | bitwiseOr
  | unbalanced
  | loopTargets
  /-- A broken invariant in free words. -/
  | internal (message : String)
  deriving DecidableEq, Repr

namespace Cause

def kind : Cause → Fault.Kind
  | unclosedRegion _ => .unterminatedTag
  | unclosedQuote _ => .unterminatedString
  | unopenedBracket _ | unclosedBracket _ | strayCharacter _ => .unexpectedCharacter
  | endOfTemplate | missingEndTag .. => .unexpectedEnd
  | expected .. | unexpectedToken _ | missingTagName | unaryOperator _ | strictComparison
  | missingString | hashKey _ | attributeName | ifNotClosed _ => .unexpectedToken
  | misplacedTag .. | unknownTag .. => .unknownTag
  | unknownFilter .. => .unknownFilter
  | unknownFunction .. => .unknownFunction
  | unknownTest .. => .unknownTest
  | duplicateBlock .. => .duplicateBlock
  | parameterName | defaultNotConstant | blockFunctionArity | attributeFunctionArity
  | positionalAfterNamed _ | namedUnsupported _ | argumentTwice .. | argumentMissing ..
  | argumentsUnknown .. | modifierArity .. => .invalidArguments
  | parentOutsideBlock | parentWithoutParent | definedOperand | assignConstant _ | childContent
  | childNestedBlock | setCount | setCapture | escapingStrategy | sandboxContent
  | modifierUnknown _ | endName .. | extendsMisuse _ | useTemplate
  | reservedArgument _ => .invalidConstruct
  | bitwiseOr => .unsupported
  | unbalanced | loopTargets | internal _ => .internal

/-- The tag that a fault expects to be closed. -/
def closing (tag : String) (line : Nat) : String :=
  "(expecting closing tag for the \"" ++ tag ++ "\" tag defined near line " ++ toString line ++ ")"

def message : Cause → String
  | unclosedRegion .block => "Unclosed \"block\""
  | unclosedRegion .variable => "Unclosed \"variable\""
  | unclosedRegion .comment => "Unclosed comment"
  | unclosedRegion .verbatim => "Unclosed \"verbatim\" block"
  | unclosedQuote quote => "Unclosed \"" ++ String.singleton quote ++ "\""
  | unopenedBracket c => "Unexpected \"" ++ String.singleton c ++ "\""
  | unclosedBracket symbol => "Unclosed \"" ++ symbol ++ "\""
  | strayCharacter c => "Unexpected character \"" ++ String.singleton c ++ "\""
  | endOfTemplate => "Unexpected end of template"
  | expected context found wanted =>
    ((context.map (· ++ ". ")).getD "") ++ "Unexpected token " ++ found.display ++ " (" ++ wanted
      ++ " expected)"
  | unexpectedToken found => "Unexpected token " ++ found.display
  | missingTagName => "A block must start with a tag name"
  | unaryOperator symbol => "Unexpected unary operator \"" ++ symbol ++ "\""
  | strictComparison =>
    "Unexpected operator of value \"=\". Did you try to use \"===\" or \"!==\" for strict "
      ++ "comparison? Use \"is same as(value)\" instead"
  | missingString => "A string was expected"
  | hashKey found =>
    "A hash key must be a quoted string, a number, a name, or an expression enclosed in "
      ++ "parentheses (unexpected token " ++ found.display ++ ")"
  | attributeName => "Expected name or number"
  | ifNotClosed line =>
    "Unexpected end of template. Twig was looking for the following tags \"else\", \"elseif\", "
      ++ "or \"endif\" to close the \"if\" block started at line " ++ toString line
  | missingEndTag tag line => "Unexpected end of template " ++ closing tag line
  | misplacedTag name tag line => "Unexpected \"" ++ name ++ "\" tag " ++ closing tag line
  | unknownTag name _ => "Unknown \"" ++ name ++ "\" tag"
  | unknownFilter name _ => "Unknown \"" ++ name ++ "\" filter"
  | unknownFunction name _ => "Unknown \"" ++ name ++ "\" function"
  | unknownTest name _ => "Unknown \"" ++ name ++ "\" test"
  | duplicateBlock name line =>
    "The block '" ++ name ++ "' has already been defined line " ++ toString line
  | parameterName => "A parameter name must be a string"
  | defaultNotConstant =>
    "A default value for an argument must be a constant (a boolean, a string, a number, or an "
      ++ "array)"
  | blockFunctionArity => "The \"block\" function takes one argument (the block name)"
  | attributeFunctionArity =>
    "The \"attribute\" function takes at least two arguments (the variable and the attributes)"
  | positionalAfterNamed callee =>
    "Positional arguments cannot be used after named arguments for " ++ callee.display
  | namedUnsupported callee => "Named arguments are not supported for " ++ callee.display
  | argumentTwice argument callee =>
    "Argument \"" ++ argument ++ "\" is defined twice for " ++ callee.display
  | argumentMissing argument callee =>
    "Value for argument \"" ++ argument ++ "\" is required for " ++ callee.display
  | argumentsUnknown arguments callee declared =>
    "Unknown argument" ++ (if 1 < arguments.length then "s" else "") ++ " \""
      ++ "\", \"".intercalate arguments ++ "\" for " ++ callee.kind.label ++ " \"" ++ callee.name
      ++ "(" ++ ", ".intercalate declared ++ ")\""
  | modifierArity modifier count =>
    "The \"" ++ modifier ++ "\" modifier takes exactly one argument (" ++ toString count
      ++ " given)"
  | parentOutsideBlock => "Calling \"parent\" outside a block is forbidden"
  | parentWithoutParent =>
    "Calling \"parent\" on a template that does not extend nor \"use\" another template is "
      ++ "forbidden"
  | definedOperand => "The \"defined\" test only works with simple variables"
  | assignConstant name => "You cannot assign a value to \"" ++ name ++ "\""
  | childContent =>
    "A template that extends another one cannot include content outside Twig blocks. Did you "
      ++ "forget to put the content inside a \x7b% block %\x7d tag?"
  | childNestedBlock => "A block definition cannot be nested under non-capturing nodes"
  | setCount => "When using set, you must have the same number of variables and assignments"
  | setCapture => "When using set with a block, you cannot have a multi-target"
  | escapingStrategy => "An escaping strategy must be a string or false"
  | sandboxContent => "Only \"include\" tags are allowed within a \"sandbox\" section"
  | modifierUnknown modifier => "Unknown \"" ++ modifier ++ "\" configuration"
  | endName tag name given =>
    "Expected end" ++ tag ++ " for " ++ tag ++ " \"" ++ name ++ "\" (but \"" ++ given
      ++ "\" given)"
  | extendsMisuse .inBlock => "Cannot use \"extend\" in a block"
  | extendsMisuse .inMacro => "Cannot use \"extend\" in a macro"
  | extendsMisuse .again => "Multiple extends tags are forbidden"
  | useTemplate => "The template references in a \"use\" statement must be a string"
  | reservedArgument macroName =>
    "The argument \"varargs\" in macro \"" ++ macroName ++ "\" cannot be defined because the "
      ++ "variable \"varargs\" is reserved for arbitrary arguments"
  | bitwiseOr => "Bitwise OR is not allowed in Latte"
  | unbalanced => "Unbalanced block or scope stack at end of template"
  | loopTargets => "A for loop needs at least one target"
  | internal text => text

/-- The known names that resemble an unknown one. -/
def suggestions : Cause → List String
  | unknownTag name known | unknownFilter name known | unknownFunction name known
  | unknownTest name known => Suggestion.suggest name known
  | _ => []

end Cause

/-- A cause at a line of the template. -/
structure Fault where
  cause : Cause
  line : Nat
  deriving DecidableEq, Repr

/-- A fault as it is told. -/
structure Report where
  kind : Fault.Kind
  message : String
  line : Nat
  suggestions : List String
  template : String
  deriving DecidableEq, Repr

/-- The full text: message, suggestions, template and line. -/
def Report.display (r : Report) : String :=
  r.message ++ Suggestion.hint r.suggestions ++ " in \"" ++ r.template ++ "\" at line "
    ++ toString r.line ++ "."

/-- The report of a fault in the template with the given name. -/
def Fault.report (fault : Fault) (template : String) : Report :=
  { kind := fault.cause.kind
    message := fault.cause.message
    line := fault.line
    suggestions := fault.cause.suggestions
    template }

end TwigToLatte
