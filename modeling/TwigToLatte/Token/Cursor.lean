/-!
# Reading positions in a template

* `Cursor` — what is left of a template, with the position reached: the number of characters
  read, the last of them, and the 1-based line and column of the next one.
* `Cursor.step`, `Cursor.advance` — reading one character, or several; past the end nothing
  happens. Only a line feed starts a new line.
-/

namespace TwigToLatte

/-- A position in a template. -/
structure Cursor where
  /-- The characters not yet read. -/
  rest : List Char
  /-- The character read last. -/
  previous : Option Char := none
  /-- The number of characters read. -/
  offset : Nat := 0
  line : Nat := 1
  column : Nat := 1
  deriving DecidableEq, Repr

namespace Cursor

/-- The start of a template. -/
def start (text : String) : Cursor := { rest := text.toList }

/-- The position after one more character. -/
def step (cursor : Cursor) : Cursor :=
  match cursor.rest with
  | [] => cursor
  | c :: rest =>
    if c = '\n' then ⟨rest, some c, cursor.offset + 1, cursor.line + 1, 1⟩
    else ⟨rest, some c, cursor.offset + 1, cursor.line, cursor.column + 1⟩

/-- The position after `n` more characters, or the end. -/
def advance : Nat → Cursor → Cursor
  | 0, cursor => cursor
  | n + 1, cursor => advance n cursor.step

@[simp] theorem rest_step (cursor : Cursor) : cursor.step.rest = cursor.rest.tail := by
  rcases h : cursor.rest with - | ⟨c, rest⟩ <;> simp only [step, h, List.tail_nil, List.tail_cons]
  split <;> rfl

@[simp] theorem rest_advance (n : Nat) (cursor : Cursor) :
    (cursor.advance n).rest = cursor.rest.drop n := by
  induction n generalizing cursor with
  | zero => rfl
  | succ n ih => simp [advance, ih]

theorem advance_add (m n : Nat) (cursor : Cursor) :
    cursor.advance (m + n) = (cursor.advance m).advance n := by
  induction m generalizing cursor with
  | zero => rw [Nat.zero_add]; rfl
  | succ m ih => rw [Nat.succ_add]; exact ih cursor.step

end Cursor

end TwigToLatte
