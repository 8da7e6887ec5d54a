import TwigToLatte.Fault
import TwigToLatte.Text.Escape
import TwigToLatte.Token.Cursor
import TwigToLatte.Token.Pattern

/-!
# From text to tokens

A template alternates literal text with tags, which hold expressions; a double-quoted string of
an expression may interpolate expressions again. The lexer keeps the regions it is in and the
brackets that wait for their closing partner, both innermost first.

* `Scan` — the state: position, open regions, open brackets, tokens so far.
* `Scan.step` — reads at least one character, in the way of the innermost region.
* `tokenize` — the tokens of a template, which end with the end of the template.
-/

namespace TwigToLatte.Lexer

open TwigToLatte.Text TwigToLatte.Pattern

/-- The regions inside which text is not literal. -/
inductive Mode where
  | block
  | variable
  | string
  | interpolation
  deriving DecidableEq, Repr

/-- The brackets that must be closed in order. -/
inductive Bracket where
  | paren
  | square
  | curly
  /-- A double-quoted string with interpolations. -/
  | quote
  | interpolation
  deriving DecidableEq, Repr

def Bracket.symbol : Bracket → String
  | .paren => "("
  | .square => "["
  | .curly => "\x7b"
  | .quote => "\""
  | .interpolation => "#\x7b"

def Bracket.ofOpener? : Char → Option Bracket
  | '(' => some .paren
  | '[' => some .square
  | '{' => some .curly
  | _ => none

def Bracket.ofCloser? : Char → Option Bracket
  | ')' => some .paren
  | ']' => some .square
  | '}' => some .curly
  | _ => none

/-- The state of the lexer. -/
structure Scan where
  cursor : Cursor
  /-- Open regions, innermost first; none where text is literal. -/
  modes : List Mode := []
  /-- Open brackets with their lines, innermost first. -/
  brackets : List (Bracket × Nat) := []
  /-- The line on which the current tag was opened. -/
  tagLine : Nat := 1
  tokens : Array Token := #[]
  deriving DecidableEq, Repr

namespace Scan

/-- The text not yet read. -/
def rest (scan : Scan) : List Char := scan.cursor.rest

/-- Reads `n` characters without making a token of them. -/
def skip (n : Nat) (scan : Scan) : Scan := { scan with cursor := scan.cursor.advance n }

/-- Reads `n` characters as one token. -/
def take (n : Nat) (kind : Token.Kind) (scan : Scan) : Scan :=
  let start := scan.cursor
  let stop := start.advance n
  let token := ⟨kind, ⟨start.offset, stop.offset, start.line, start.column⟩⟩
  { scan with cursor := stop, tokens := scan.tokens.push token }

/-- A fault at the current line. -/
def fail {α : Type} (cause : Cause) (scan : Scan) : Except Fault α :=
  .error ⟨cause, scan.cursor.line⟩

/-! ## Literal text -/

/-- Enters a tag through its opening delimiter and an optional trim marker. -/
def openTag (kind : Token.Kind) (mode : Mode) (scan : Scan) : Scan :=
  let opened := scan.take (2 + marker (scan.rest.drop 2)) kind
  { opened with modes := mode :: scan.modes, tagLine := scan.cursor.line }

/-- The content of a comment without the trim markers at its ends. -/
def trimMarkers (content : List Char) : List Char :=
  let content := content.drop (marker content)
  if content.getLast?.any isMarker then content.dropLast else content

def stepComment (scan : Scan) : Except Fault Scan :=
  match pair? '#' '}' (scan.rest.drop 2) with
  | none => scan.fail (.unclosedRegion .comment)
  | some length =>
    let content := trimMarkers ((scan.rest.drop 2).take length)
    .ok (scan.take (length + 4) (.comment (String.ofList content)))

/-- A verbatim region, `opened` being the length of the tag that opens it. -/
def stepVerbatim (opened : Nat) (scan : Scan) : Except Fault Scan :=
  let content := scan.rest.drop opened
  match verbatimEnd? content with
  | none => scan.fail (.unclosedRegion .verbatim)
  | some (length, closed) =>
    .ok (scan.take (opened + length + closed) (.verbatim (String.ofList (content.take length))))

/-- Literal text up to the next opening delimiter or, right before one, what it opens. -/
def stepText (scan : Scan) : Except Fault Scan :=
  let length := textLength scan.rest
  if 0 < length then .ok (scan.take length (.text (String.ofList (scan.rest.take length))))
  else if startsWith '{' '#' scan.rest then scan.stepComment
  else if startsWith '{' '%' scan.rest then
    match namedTag? "verbatim".toList scan.rest with
    | some opened => scan.stepVerbatim opened
    | none => .ok (scan.openTag .blockStart .block)
  else .ok (scan.openTag .varStart .variable)

/-! ## Expressions -/

/-- A closing bracket must match the innermost open one. -/
def closeBracket (mark : Char) (bracket : Bracket) (scan : Scan) : Except Fault Scan :=
  match scan.brackets with
  | [] => scan.fail (.unopenedBracket mark)
  | (opened, line) :: brackets =>
    if opened = bracket then .ok { scan.take 1 (.punctuation mark) with brackets }
    else .error ⟨.unclosedBracket opened.symbol, line⟩

def openBracket (mark : Char) (bracket : Bracket) (scan : Scan) : Scan :=
  { scan.take 1 (.punctuation mark) with
    brackets := (bracket, scan.cursor.line) :: scan.brackets }

def stepSingleQuoted (scan : Scan) : Except Fault Scan :=
  match quotedLength? '\'' (fun _ => false) scan.rest.tail with
  | none => scan.fail (.unclosedQuote '\'')
  | some length =>
    let content := unescapeChars (scan.rest.tail.take length)
    .ok (scan.take (length + 2) (.string (String.ofList content)))

/-- Inside a string that will be read part by part. -/
def enterString (scan : Scan) : Scan :=
  { scan.skip 1 with
    modes := .string :: scan.modes
    brackets := (.quote, scan.cursor.line) :: scan.brackets }

/-- A double-quoted string is one token if no hash stands in it; otherwise its parts are read one
by one. -/
def stepDoubleQuoted (scan : Scan) : Scan :=
  match quotedLength? '"' (· == '#') scan.rest.tail with
  | some length =>
    let content := unescapeChars (scan.rest.tail.take length)
    scan.take (length + 2) (.string (String.ofList content))
  | none => scan.enterString

/-- Whether a character is a token by itself. -/
def isSeparator (c : Char) : Bool := c == '?' || c == ':' || c == '.' || c == ',' || c == '|'

/-- One token of an expression that starts with `c`, the next character, which is no blank. -/
def stepToken (symbols : List (List Char)) (c : Char) (scan : Scan) : Except Fault Scan :=
  if startsWith '=' '>' scan.rest then .ok (scan.take 2 .arrow)
  else
    match operator? symbols scan.cursor.previous scan.rest with
    | some (symbol, length) => .ok (scan.take length (.operator (String.ofList symbol)))
    | none =>
      if isNameStart c then
        let name := scan.rest.takeWhile isNameChar
        .ok (scan.take name.length (.name (String.ofList name)))
      else if c.isDigit then
        let (length, number) := numeral scan.rest
        .ok (scan.take length (.number number))
      else
        match Bracket.ofOpener? c, Bracket.ofCloser? c with
        | some bracket, _ => .ok (scan.openBracket c bracket)
        | none, some bracket => scan.closeBracket c bracket
        | none, none =>
          if isSeparator c then .ok (scan.take 1 (.punctuation c))
          else if c = '\'' then scan.stepSingleQuoted
          else if c = '"' then .ok scan.stepDoubleQuoted
          else scan.fail (.strayCharacter c)

/-- Blanks and then one token of an expression. -/
def stepExpression (symbols : List (List Char)) (scan : Scan) : Except Fault Scan :=
  let scan := scan.skip (blanks scan.rest)
  match scan.rest with
  | [] => .ok scan
  | c :: _ => scan.stepToken symbols c

/-- Inside a tag: its end, if no bracket is open, or a token. -/
def stepTag (symbols : List (List Char)) (closer : Char) (kind : Token.Kind) (scan : Scan) :
    Except Fault Scan :=
  match scan.brackets, tagEnd? closer scan.rest with
  | [], some length => .ok { scan.take length kind with modes := scan.modes.tail }
  | _, _ => scan.stepExpression symbols

/-! ## Strings with interpolations -/

/-- The length of the part of a string before its end or the next interpolation. -/
def stringRun : List Char → Nat
  | [] => 0
  | c :: rest =>
    if c = '"' then 0
    else if c = '\\' then
      match rest with
      | [] => 1
      | _ :: tail => stringRun tail + 2
    else if c == '#' && rest.head? == some '{' then 0
    else stringRun rest + 1

/-- Inside a string: an interpolation, the end of the string, or a part of it. -/
def stepString (scan : Scan) : Scan :=
  if startsWith '#' '{' scan.rest then
    { scan.take (2 + blanks (scan.rest.drop 2)) .interpolationStart with
      modes := .interpolation :: scan.modes
      brackets := (.interpolation, scan.cursor.line) :: scan.brackets }
  else if scan.rest.head? == some '"' then
    { scan.skip 1 with modes := scan.modes.tail, brackets := scan.brackets.tail }
  else
    let length := stringRun scan.rest
    scan.take length (.string (String.ofList (unescapeChars (scan.rest.take length))))

/-- Inside an interpolation: its end, if no bracket is open in it, or a token. -/
def stepInterpolation (symbols : List (List Char)) (scan : Scan) : Except Fault Scan :=
  let skipped := blanks scan.rest
  match scan.brackets with
  | (.interpolation, _) :: brackets =>
    if (scan.rest.drop skipped).head? == some '}' then
      .ok { (scan.skip skipped).take 1 .interpolationEnd with
            modes := scan.modes.tail, brackets }
    else scan.stepExpression symbols
  | _ => scan.stepExpression symbols

/-! ## The whole template -/

/-- One step of the lexer, in the way of the innermost region. -/
def step (symbols : List (List Char)) (scan : Scan) : Except Fault Scan :=
  match scan.modes with
  | [] => scan.stepText
  | .block :: _ => scan.stepTag symbols '%' .blockEnd
  | .variable :: _ => scan.stepTag symbols '}' .varEnd
  | .string :: _ => .ok scan.stepString
  | .interpolation :: _ => scan.stepInterpolation symbols

/-- Steps until the text ends, `limit` steps at most. Every step reads a character, so as many
steps as there are characters reach the end. -/
def run (symbols : List (List Char)) : Nat → Scan → Except Fault Scan
  | 0, scan => .ok scan
  | limit + 1, scan =>
    if scan.rest.isEmpty then .ok scan
    else
      match scan.step symbols with
      | .error fault => .error fault
      | .ok next => run symbols limit next

/-- At the end of the text no region may be open. -/
def finish (scan : Scan) : Except Fault (Array Token) :=
  match scan.modes with
  | [] => .ok (scan.take 0 .eof).tokens
  | .block :: _ => .error ⟨.unclosedRegion .block, scan.tagLine⟩
  | .variable :: _ => .error ⟨.unclosedRegion .variable, scan.tagLine⟩
  | .string :: _ | .interpolation :: _ =>
    let line := (scan.brackets.head?.map (·.2)).getD scan.cursor.line
    .error ⟨.unclosedQuote '"', line⟩

end Scan

/-- The tokens of a template whose operators have the given symbols. -/
def tokenize (text : String) (symbols : List String) : Except Fault (Array Token) :=
  let start : Scan := { cursor := Cursor.start text }
  match start.run (orderSymbols symbols) text.length with
  | .error fault => .error fault
  | .ok scan => scan.finish

end TwigToLatte.Lexer
