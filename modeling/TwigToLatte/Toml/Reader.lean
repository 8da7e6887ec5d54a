import TwigToLatte.Text.Escape
import TwigToLatte.Toml
import TwigToLatte.Toml.Number

/-!
# Reading TOML

* `Toml.read?` — the entries of a document, if it is one.

No setting is an array of tables, so those are refused. Each reader takes what it reads from the
front of the text and hands on the rest.
-/

namespace TwigToLatte.Toml

/-- A reader: what it read and the rest of the text. -/
abbrev Reader (α : Type) := List Char → Option (α × List Char)

/-! ## Blanks, comments and line ends -/

def isSpace (c : Char) : Bool := c == ' ' || c == '\t'

/-- Control characters other than the tab, which no part of a document may hold. -/
def isControl (c : Char) : Bool := (c.toNat < 0x20 && c != '\t') || c.toNat == 0x7F

def skipSpaces (text : List Char) : List Char := text.dropWhile isSpace

def skipComment? : List Char → Option (List Char)
  | '#' :: rest =>
    let comment := rest.takeWhile fun c => c != '\n' && c != '\r'
    if comment.any isControl then none else some (rest.drop comment.length)
  | text => some text

/-- Skips one line end, which the end of the document stands for. -/
def skipNewline? : List Char → Option (List Char)
  | [] => some []
  | '\n' :: rest => some rest
  | '\r' :: '\n' :: rest => some rest
  | _ => none

/-- Skips the rest of a line, which holds at most a comment. -/
def skipLineEnd? (text : List Char) : Option (List Char) :=
  (skipComment? (skipSpaces text)).bind skipNewline?

/-- Skips blanks, comments and line ends, in `fuel` rounds at most. -/
def skipLines? : Nat → List Char → Option (List Char)
  | 0, text => some text
  | fuel + 1, text =>
    match skipSpaces text with
    | '\n' :: rest => skipLines? fuel rest
    | '\r' :: '\n' :: rest => skipLines? fuel rest
    | '#' :: rest => (skipComment? ('#' :: rest)).bind (skipLines? fuel)
    | rest => some rest

/-- Skips any number of blank lines. -/
def skipBlankLines? (text : List Char) : Option (List Char) := skipLines? text.length text

/-! ## Strings -/

/-- The character of a code point, unless it is a surrogate or out of range. -/
def scalar? (n : Nat) : Option Char := if n.isValidChar then some (Char.ofNat n) else none

/-- Reads the given number of hexadecimal digits as a character. -/
def hexScalar? (digits : Nat) (text : List Char) : Option (Char × List Char) := do
  let values ← (text.take digits).mapM Text.hexDigit?
  if values.length = digits then
    let c ← scalar? (Text.ofDigits 16 values)
    return (c, text.drop digits)
  else none

/-- Reads what follows a backslash. -/
def escape? : Reader Char
  | 'b' :: rest => some ('\x08', rest)
  | 't' :: rest => some ('\t', rest)
  | 'n' :: rest => some ('\n', rest)
  | 'f' :: rest => some ('\x0c', rest)
  | 'r' :: rest => some ('\r', rest)
  | 'e' :: rest => some ('\x1b', rest)
  | '"' :: rest => some ('"', rest)
  | '\\' :: rest => some ('\\', rest)
  | 'x' :: rest => hexScalar? 2 rest
  | 'u' :: rest => hexScalar? 4 rest
  | 'U' :: rest => hexScalar? 8 rest
  | _ => none

/-- Reads a basic string after its quote, in `fuel` rounds at most. -/
def basicString? : Nat → List Char → List Char → Option (String × List Char)
  | 0, _, _ => none
  | _, _, [] => none
  | _, done, '"' :: rest => some (String.ofList done.reverse, rest)
  | fuel + 1, done, '\\' :: rest =>
    match escape? rest with
    | some (c, rest) => basicString? fuel (c :: done) rest
    | none => none
  | fuel + 1, done, c :: rest => if isControl c then none else basicString? fuel (c :: done) rest

/-- Reads a literal string after its quote. -/
def literalString? : List Char → List Char → Option (String × List Char)
  | _, [] => none
  | done, c :: rest =>
    if c == '\'' then some (String.ofList done.reverse, rest)
    else if isControl c then none
    else literalString? (c :: done) rest

/-- The closing quotes of a string over several lines: three, and up to two more that belong to
the string. -/
def closeLines? (quote : Char) (done text : List Char) : Option (String × List Char) :=
  let quotes := (text.takeWhile (· == quote)).length
  if 3 ≤ quotes && quotes ≤ 5 then
    some (String.ofList (done.reverse ++ List.replicate (quotes - 3) quote), text.drop quotes)
  else none

/-- Skips blanks and line ends. -/
def skipSpaceLines : List Char → List Char
  | [] => []
  | '\r' :: '\n' :: rest => skipSpaceLines rest
  | c :: rest => if isSpace c || c == '\n' then skipSpaceLines rest else c :: rest

/-- Skips the rest of a line, which must be blank, and all blanks after it. -/
def skipFold? (text : List Char) : Option (List Char) :=
  match skipSpaces text with
  | '\n' :: rest => some (skipSpaceLines rest)
  | '\r' :: '\n' :: rest => some (skipSpaceLines rest)
  | _ => none

/-- Reads a basic string over several lines, in `fuel` rounds at most. A backslash at the end of a
line takes the line end and all blanks after it. -/
def basicLines? : Nat → List Char → List Char → Option (String × List Char)
  | 0, _, _ => none
  | _, _, [] => none
  | fuel + 1, done, '"' :: rest =>
    match rest with
    | '"' :: '"' :: _ => closeLines? '"' done ('"' :: rest)
    | _ => basicLines? fuel ('"' :: done) rest
  | fuel + 1, done, '\\' :: rest =>
    match escape? rest with
    | some (c, rest) => basicLines? fuel (c :: done) rest
    | none => (skipFold? rest).bind (basicLines? fuel done)
  | fuel + 1, done, '\r' :: rest =>
    match rest with
    | '\n' :: _ => basicLines? fuel ('\r' :: done) rest
    | _ => none
  | fuel + 1, done, c :: rest =>
    if isControl c && c != '\n' then none else basicLines? fuel (c :: done) rest

/-- Reads a literal string over several lines, in `fuel` rounds at most. -/
def literalLines? : Nat → List Char → List Char → Option (String × List Char)
  | 0, _, _ => none
  | _, _, [] => none
  | fuel + 1, done, '\'' :: rest =>
    match rest with
    | '\'' :: '\'' :: _ => closeLines? '\'' done ('\'' :: rest)
    | _ => literalLines? fuel ('\'' :: done) rest
  | fuel + 1, done, '\r' :: rest =>
    match rest with
    | '\n' :: _ => literalLines? fuel ('\r' :: done) rest
    | _ => none
  | fuel + 1, done, c :: rest =>
    if isControl c && c != '\n' then none else literalLines? fuel (c :: done) rest

/-- The line end right after the opening quotes is no part of a string. -/
def dropFirstNewline : List Char → List Char
  | '\n' :: rest => rest
  | '\r' :: '\n' :: rest => rest
  | text => text

/-- Reads a string of any kind. -/
def string? : Reader String
  | '"' :: '"' :: '"' :: rest => basicLines? (rest.length + 1) [] (dropFirstNewline rest)
  | '\'' :: '\'' :: '\'' :: rest => literalLines? (rest.length + 1) [] (dropFirstNewline rest)
  | '"' :: rest => basicString? (rest.length + 1) [] rest
  | '\'' :: rest => literalString? [] rest
  | _ => none

/-! ## Keys -/

def isBareKeyChar (c : Char) : Bool := c.isAlphanum || c == '_' || c == '-'

/-- Reads one part of a key: a bare word or a string on one line. -/
def keyPart? : Reader String
  | '"' :: rest => basicString? (rest.length + 1) [] rest
  | '\'' :: rest => literalString? [] rest
  | text =>
    let word := text.takeWhile isBareKeyChar
    if word.isEmpty then none else some (String.ofList word, text.drop word.length)

/-- Reads a key of at most `fuel` parts with dots between them. -/
def keyUpTo? : Nat → List Char → Option (List String × List Char)
  | 0, _ => none
  | fuel + 1, text => do
    let (part, rest) ← keyPart? (skipSpaces text)
    match skipSpaces rest with
    | '.' :: rest =>
      let (path, rest) ← keyUpTo? fuel rest
      return (part :: path, rest)
    | rest => return ([part], rest)

/-- How many parts a key may have, and how many arrays and tables may be inside each other. -/
def depthLimit : Nat := 80

/-- Reads a key and the blanks around it. -/
def key? : Reader (List String) := keyUpTo? depthLimit

/-! ## Values -/

/-- The characters other than blanks that end a word. -/
def wordEnds : List Char := ['\n', '\r', '#', '=', ',', '[', ']', '{', '}']

/-- Whether a character may belong to a word. -/
def isWordChar (c : Char) : Bool := !isSpace c && !wordEnds.contains c

/-- Reads a date or a time, which may be two words with a blank between them. -/
def dateTime? : Reader DateTime := fun text =>
  let word := text.takeWhile isWordChar
  let second :=
    match text.drop word.length with
    | ' ' :: rest => rest.takeWhile isWordChar
    | _ => []
  let written := if second.isEmpty then word else word ++ ' ' :: second
  (DateTime.read? written).map fun value => (value, text.drop written.length)

def wordValue? : Reader Toml := fun text =>
  let word := text.takeWhile isWordChar
  let rest := text.drop word.length
  if word = "true".toList then some (.boolean true, rest)
  else if word = "false".toList then some (.boolean false, rest)
  else if isNumber word then some (.number (String.ofList word), rest)
  else (dateTime? text).map fun (value, rest) => (.dateTime value, rest)

/-- Reads a value without parts. -/
def plainValue? : Reader Toml
  | '"' :: rest => (string? ('"' :: rest)).map fun (s, rest) => (.string s, rest)
  | '\'' :: rest => (string? ('\'' :: rest)).map fun (s, rest) => (.string s, rest)
  | text => wordValue? text

/-- Reads a key, the equals sign and a value; `skip?` skips what may stand between them. -/
def assignment? (skip? : List Char → Option (List Char)) (value? : Reader Toml) :
    Reader (List String × Toml) := fun text => do
  let (path, rest) ← key? text
  match ← skip? rest with
  | '=' :: rest =>
    let (value, rest) ← value? (← skip? rest)
    return ((path, value), rest)
  | _ => none

/-- Reads the items of an array up to its bracket, in `fuel` rounds at most; a comma may follow
the last one. -/
def items? (value? : Reader Toml) : Nat → List Toml → List Char → Option (Toml × List Char)
  | 0, _, _ => none
  | fuel + 1, done, text => do
    match ← skipBlankLines? text with
    | ']' :: rest => return (.array done.reverse, rest)
    | text =>
      let (item, rest) ← value? text
      match ← skipBlankLines? rest with
      | ',' :: rest => items? value? fuel (item :: done) rest
      | ']' :: rest => return (.array (item :: done).reverse, rest)
      | _ => none

/-- Reads the entries of an inline table up to its brace, in `fuel` rounds at most; a comma may
follow the last one. Lines may end anywhere but inside a key. -/
def entries? (value? : Reader Toml) : Nat → Entries → List Char → Option (Toml × List Char)
  | 0, _, _ => none
  | fuel + 1, done, text => do
    match ← skipBlankLines? text with
    | '}' :: rest => return (.table .inline done, rest)
    | text =>
      let ((path, value), rest) ← assignment? skipBlankLines? value? text
      let done ← defineKey value path done
      match ← skipBlankLines? rest with
      | ',' :: rest => entries? value? fuel done rest
      | '}' :: rest => return (.table .inline done, rest)
      | _ => none

/-- Reads a value with arrays and tables inside each other to the given depth. -/
def valueUpTo? : Nat → Reader Toml
  | 0, text => plainValue? text
  | depth + 1, '[' :: rest => items? (valueUpTo? depth) (rest.length + 1) [] rest
  | depth + 1, '{' :: rest => entries? (valueUpTo? depth) (rest.length + 1) [] rest
  | _ + 1, text => plainValue? text

def value? : Reader Toml := valueUpTo? depthLimit

/-! ## Documents -/

/-- A document in the course of reading: its entries, and the header that was read last. -/
structure Document where
  entries : Entries := []
  header : List String := []

/-- Reads one line with a header or an assignment. -/
def line? (document : Document) : List Char → Option (Document × List Char)
  | '[' :: rest => do
    let (path, rest) ← key? rest
    match rest with
    | ']' :: rest =>
      let entries ← defineTable path document.entries
      return ({ entries, header := path }, ← skipLineEnd? rest)
    | _ => none
  | text => do
    let ((path, value), rest) ← assignment? (some ∘ skipSpaces) value? text
    let entries ← within (defineKey value path) document.header document.entries
    return ({ document with entries }, ← skipLineEnd? rest)

/-- Reads lines, `fuel` of them at most. -/
def lines? : Nat → Document → List Char → Option Entries
  | 0, _, _ => none
  | fuel + 1, document, text => do
    match ← skipBlankLines? text with
    | [] => return document.entries
    | text =>
      let (document, rest) ← line? document text
      lines? fuel document rest

/-- A text without the mark that some editors put in front of it. -/
def dropMark : List Char → List Char
  | '\ufeff' :: rest => rest
  | text => text

def read? (text : String) : Option Entries :=
  lines? (text.length + 1) {} (dropMark text.toList)

end TwigToLatte.Toml
