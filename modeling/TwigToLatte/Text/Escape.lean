/-!
# Backslash escapes of quoted text

* `unescape` — resolves the escapes of a quoted text: letters for control characters, one or two
  hexadecimal digits after an `x`, one to three octal digits, and any other character for itself.
  A backslash at the very end stands for nothing.
* `quotedLength?` — how far a quoted text runs: the number of characters before its closing quote,
  where a backslash takes the next character with it.
-/

namespace TwigToLatte.Text

/-- The value of a hexadecimal digit. -/
def hexDigit? (c : Char) : Option Nat :=
  if '0' ≤ c ∧ c ≤ '9' then some (c.toNat - '0'.toNat)
  else if 'a' ≤ c ∧ c ≤ 'f' then some (c.toNat - 'a'.toNat + 10)
  else if 'A' ≤ c ∧ c ≤ 'F' then some (c.toNat - 'A'.toNat + 10)
  else none

def octalDigit? (c : Char) : Option Nat :=
  if '0' ≤ c ∧ c ≤ '7' then some (c.toNat - '0'.toNat) else none

/-- The control character that a letter names after a backslash. -/
def controlEscape? : Char → Option Char
  | 'n' => some '\n'
  | 't' => some '\t'
  | 'r' => some '\r'
  | 'v' => some '\x0b'
  | 'f' => some '\x0c'
  | 'a' => some '\x07'
  | 'b' => some '\x08'
  | 'e' => some '\x1b'
  | _ => none

/-- The values of the digits at the start of the text, at most `limit` of them. -/
def leadingDigits (digit? : Char → Option Nat) : Nat → List Char → List Nat
  | 0, _ => []
  | _ + 1, [] => []
  | limit + 1, c :: rest =>
    match digit? c with
    | some d => d :: leadingDigits digit? limit rest
    | none => []

/-- The number that digits write in the given base. -/
def ofDigits (base : Nat) (digits : List Nat) : Nat :=
  digits.foldl (fun value d => base * value + d) 0

/-- The character that the text after a backslash stands for, and the number of characters that
spell it. -/
def escapeAt (c : Char) (rest : List Char) : Char × Nat :=
  match controlEscape? c with
  | some control => (control, 1)
  | none =>
    let hex := leadingDigits hexDigit? 2 rest
    let octal := leadingDigits octalDigit? 3 (c :: rest)
    if c = 'x' ∧ hex ≠ [] then (Char.ofNat (ofDigits 16 hex), hex.length + 1)
    else if octal ≠ [] then (Char.ofNat (ofDigits 8 octal % 256), octal.length)
    else (c, 1)

/-- Resolves every backslash escape of a text. -/
def unescapeChars : List Char → List Char
  | [] => []
  | c :: rest =>
    if c = '\\' then
      match rest with
      | [] => []
      | e :: tail =>
        let (decoded, length) := escapeAt e tail
        decoded :: unescapeChars (tail.drop (length - 1))
    else c :: unescapeChars rest
termination_by text => text.length
decreasing_by all_goals simp +arith [List.length_drop]

def unescape (raw : String) : String := String.ofList (unescapeChars raw.toList)

/-- The number of characters before the closing quote, if there is one. A backslash hides the
character after it, and an unhidden character that `stop` marks gives the search up. -/
def quotedLength? (quote : Char) (stop : Char → Bool) : List Char → Option Nat
  | [] => none
  | c :: rest =>
    if c = '\\' then
      match rest with
      | [] => none
      | _ :: tail => (quotedLength? quote stop tail).map (· + 2)
    else if stop c then none
    else if c = quote then some 0
    else (quotedLength? quote stop rest).map (· + 1)

end TwigToLatte.Text
