import TwigToLatte.Latte.Rendered

/-!
# Latte output

* `Output` — the code written so far, the lines of the template that its lines come from, and the
  number of variables that were made up.
* `Output.mark` — notes that the current line of the code comes from a line of the template. Lines
  are counted here, from where the last count ended.
* `Emit` — writing with errors. An error keeps what was written before it.
* `Emit.capture` — takes back what has been written.
-/

namespace TwigToLatte.Latte

/-- Code in the making. -/
structure Output where
  text : String := ""
  /-- How many bytes of the text the last count of lines has gone through. -/
  counted : Nat := 0
  /-- The line at which the last count ended. -/
  line : Nat := 1
  /-- Pairs of a line of the code and the line of the template it comes from, ascending. -/
  lineMap : Array (Nat × Nat) := #[]
  /-- How many variables were made up. -/
  fresh : Nat := 0
  deriving DecidableEq, Repr

namespace Output

/-- The number of line ends in a text. -/
def newlines (text : String) : Nat := text.toList.count '\n'

/-- What comes after so many bytes, unless they end beyond the text or inside a character. -/
def dropBytes? : Nat → List Char → Option (List Char)
  | 0, text => some text
  | _ + 1, [] => none
  | n + 1, c :: rest => if c.utf8Size ≤ n + 1 then dropBytes? (n + 1 - c.utf8Size) rest else none

/-- Adds a key and its value at their place among ascending keys, unless the key is there. -/
def orInsert (key value : Nat) : List (Nat × Nat) → List (Nat × Nat)
  | [] => [(key, value)]
  | entry :: rest =>
    if key < entry.1 then (key, value) :: entry :: rest
    else if key = entry.1 then entry :: rest
    else entry :: orInsert key value rest

def write (out : Output) (text : String) : Output := { out with text := out.text ++ text }

/-- Takes back what comes after so many bytes. -/
def splitOff (out : Output) (start : Nat) : String × Output :=
  let text := out.text.toList
  let rest := (dropBytes? start text).getD []
  (String.ofList rest, { out with text := String.ofList (text.take (text.length - rest.length)) })

/-- The line at which the next character will stand. If the text was cut before the end of the last
count, it is counted from its start. -/
def currentLine (out : Output) : Nat :=
  match dropBytes? out.counted out.text.toList with
  | some rest => out.line + rest.count '\n'
  | none => 1 + newlines out.text

/-- Maps the current line to a line of the template, unless it is mapped already. -/
def mark (out : Output) (source : Nat) : Output :=
  let line := out.currentLine
  { out with
    counted := out.text.utf8ByteSize
    line
    lineMap := (orInsert line source out.lineMap.toList).toArray }

/-- A variable that no template has. -/
def freshName (out : Output) : String × Output :=
  ("__internal_" ++ toString out.fresh, { out with fresh := out.fresh + 1 })

end Output

/-- Writing code, with an error where a part has no Latte form. -/
abbrev Emit (α : Type) := EStateM RenderError Output α

namespace Emit

def text (text : String) : Emit Unit := modify (·.write text)

/-- Writes a part up to its error. -/
def rendered (r : Rendered) : Emit Unit := do
  text r.text
  match r.error with
  | none => pure ()
  | some e => throw e

/-- Takes back what is written, if there is no error. -/
def capture (body : Emit Unit) : Emit String := do
  let start := (← get).text.utf8ByteSize
  body
  modifyGet (·.splitOff start)

/-- Writes what a function makes of a part, once that has been written as a whole. -/
def mapped (f : String → String) (r : Rendered) : Emit Unit := do
  text (f (← capture (rendered r)))

def mark (source : Nat) : Emit Unit := modify (·.mark source)

def freshName : Emit String := modifyGet Output.freshName

end Emit

end TwigToLatte.Latte
