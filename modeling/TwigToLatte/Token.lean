import TwigToLatte.Decimal.Style

/-!
# Tokens

* `Number` — a number literal, an integer of 64 bits or a double.
* `Token.Kind` — literal text, delimiters of tags, and the tokens of expressions.
* `Span` — where a token stands: character offsets, and the line and column of its start.
* `Token.Kind.display` — a token as messages name it.
-/

namespace TwigToLatte

/-- A number literal. -/
inductive Number where
  | int (value : Int64)
  | float (value : Float)
  deriving DecidableEq, Repr

/-- The number as messages write it. -/
def Number.display : Number → String
  | .int n => toString n.toInt
  | .float x => Decimal.plain.write x

inductive Token.Kind where
  /-- Literal template text. -/
  | text (text : String)
  | blockStart
  | blockEnd
  | varStart
  | varEnd
  | comment (text : String)
  | verbatim (text : String)
  | name (name : String)
  | number (value : Number)
  | string (value : String)
  | operator (symbol : String)
  | punctuation (mark : Char)
  | interpolationStart
  | interpolationEnd
  /-- The arrow of an anonymous function. -/
  | arrow
  /-- The end of the template. -/
  | eof
  deriving DecidableEq, Repr

/-- The part of the template that a token covers: `start` up to `stop` in characters, with the
1-based line and column of its first character. -/
structure Span where
  start : Nat
  stop : Nat
  line : Nat
  column : Nat
  deriving DecidableEq, Repr

structure Token where
  kind : Token.Kind
  span : Span
  deriving DecidableEq, Repr

namespace Token

/-- What kind of token it is, in words. -/
def Kind.describe : Kind → String
  | .text _ => "text"
  | .blockStart => "begin of statement block"
  | .blockEnd => "end of statement block"
  | .varStart => "begin of print statement"
  | .varEnd => "end of print statement"
  | .comment _ => "comment"
  | .verbatim _ => "verbatim"
  | .name _ => "name"
  | .number _ => "number"
  | .string _ => "string"
  | .operator _ => "operator"
  | .punctuation _ => "punctuation"
  | .interpolationStart => "begin of string interpolation"
  | .interpolationEnd => "end of string interpolation"
  | .arrow => "arrow function"
  | .eof => "end of template"

/-- The value that a message shows beside the kind. -/
def Kind.value? : Kind → Option String
  | .name v | .string v | .operator v => some v
  | .number n => some n.display
  | .punctuation c => some (String.singleton c)
  | _ => none

/-- A token as messages name it. -/
def Kind.display (kind : Kind) : String :=
  match kind.value? with
  | some value => "\"" ++ kind.describe ++ "\" of value \"" ++ value ++ "\""
  | none => "\"" ++ kind.describe ++ "\""

def line (token : Token) : Nat := token.span.line

def isEof (token : Token) : Bool := token.kind == .eof

def isPunctuation (mark : Char) (token : Token) : Bool := token.kind == .punctuation mark

def isOperator (symbol : String) (token : Token) : Bool := token.kind == .operator symbol

def isName (name : String) (token : Token) : Bool := token.kind == .name name

/-- The name that a name token holds. -/
def name? (token : Token) : Option String :=
  match token.kind with
  | .name name => some name
  | _ => none

/-- The end of an empty template. -/
def endOfTemplate : Token := ⟨.eof, ⟨0, 0, 1, 1⟩⟩

end Token

end TwigToLatte
