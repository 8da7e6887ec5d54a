import TwigToLatte.Text.Escape

/-!
# Dates and times of TOML

* `DateTime` — a date, a time of day, or both, then maybe with the distance from universal time.
* `DateTime.read?` — reads one. The date and the time are separated by a `T` or a blank, seconds
  may be left out, and of a fraction nine digits count.
* `DateTime.display` — the written form: a `T` as separator, seconds always, the fraction without
  zeros at its end.
-/

namespace TwigToLatte.Toml

/-- A day of the calendar. -/
structure Date where
  year : Nat
  month : Nat
  day : Nat
  deriving DecidableEq, Repr

structure TimeOfDay where
  hour : Nat
  minute : Nat
  second : Nat
  nanosecond : Nat
  deriving DecidableEq, Repr

/-- A distance from universal time. -/
inductive Offset where
  | zulu
  | shift (minutes : Int)
  deriving DecidableEq, Repr

inductive DateTime where
  | localDate (date : Date)
  | localTime (time : TimeOfDay)
  | localDateTime (date : Date) (time : TimeOfDay)
  | offsetDateTime (date : Date) (time : TimeOfDay) (offset : Offset)
  deriving DecidableEq, Repr

/-! ## Reading -/

def decimalDigit? (c : Char) : Option Nat :=
  if c.isDigit then some (c.toNat - '0'.toNat) else none

/-- Reads a number of exactly `count` digits. -/
def digits? (count : Nat) (text : List Char) : Option (Nat × List Char) :=
  let digits := Text.leadingDigits decimalDigit? count text
  if digits.length = count then some (Text.ofDigits 10 digits, text.drop count) else none

/-- Reads a number of two digits that is at most `limit`. -/
def twoDigits? (limit : Nat) (text : List Char) : Option (Nat × List Char) :=
  (digits? 2 text).filter (·.1 ≤ limit)

/-- Drops a given character. -/
def dropMark? (mark : Char) : List Char → Option (List Char)
  | c :: rest => if c = mark then some rest else none
  | [] => none

def isLeapYear (year : Nat) : Bool := year % 4 == 0 && (year % 100 != 0 || year % 400 == 0)

def daysIn (year : Nat) : (month : Nat) → Nat
  | 2 => if isLeapYear year then 29 else 28
  | 4 | 6 | 9 | 11 => 30
  | _ => 31

def Date.read? (text : List Char) : Option (Date × List Char) := do
  let (year, text) ← digits? 4 text
  let (month, text) ← twoDigits? 12 (← dropMark? '-' text)
  let (day, text) ← twoDigits? (daysIn year month) (← dropMark? '-' text)
  if month = 0 ∨ day = 0 then none else some (⟨year, month, day⟩, text)

/-- The nanoseconds that the digits of a fraction tell. -/
def nanoseconds (digits : List Nat) : Nat :=
  Text.ofDigits 10 (digits ++ List.replicate (9 - digits.length) 0)

/-- Reads a fraction of a second, if there is one. -/
def fraction? : List Char → Option (Nat × List Char)
  | '.' :: rest =>
    match rest.takeWhile Char.isDigit with
    | [] => none
    | word => some (nanoseconds (Text.leadingDigits decimalDigit? 9 word), rest.drop word.length)
  | text => some (0, text)

/-- Reads a time of day. A minute may have a leap second. -/
def TimeOfDay.read? (text : List Char) : Option (TimeOfDay × List Char) := do
  let (hour, text) ← twoDigits? 23 text
  let (minute, text) ← twoDigits? 59 (← dropMark? ':' text)
  match dropMark? ':' text with
  | none => return (⟨hour, minute, 0, 0⟩, text)
  | some text =>
    let (second, text) ← twoDigits? 60 text
    let (nanosecond, text) ← fraction? text
    return (⟨hour, minute, second, nanosecond⟩, text)

/-- Reads hours and minutes. -/
def clock? (text : List Char) : Option (Int × List Char) := do
  let (hours, text) ← twoDigits? 23 text
  let (minutes, text) ← twoDigits? 59 (← dropMark? ':' text)
  return (60 * hours + minutes, text)

def Offset.read? : List Char → Option (Offset × List Char)
  | 'Z' :: rest | 'z' :: rest => some (.zulu, rest)
  | '+' :: rest => (clock? rest).map fun (minutes, rest) => (.shift minutes, rest)
  | '-' :: rest => (clock? rest).map fun (minutes, rest) => (.shift (-minutes), rest)
  | _ => none

/-- Whether a character separates a date from a time. -/
def isTimeMark (c : Char) : Bool := c == 'T' || c == 't' || c == ' '

/-- A complete text, which must be read to its end. -/
def complete? {α : Type} : Option (α × List Char) → Option α
  | some (a, []) => some a
  | _ => none

def Date.withTime? (date : Date) (text : List Char) : Option DateTime := do
  let (time, rest) ← TimeOfDay.read? text
  if rest.isEmpty then return .localDateTime date time
  else return .offsetDateTime date time (← complete? (Offset.read? rest))

def DateTime.read? (text : List Char) : Option DateTime :=
  match Date.read? text with
  | none => (complete? (TimeOfDay.read? text)).map .localTime
  | some (date, []) => some (.localDate date)
  | some (date, mark :: rest) => if isTimeMark mark then date.withTime? rest else none

/-! ## Writing -/

/-- A number with zeros in front of it. -/
def padded (width n : Nat) : String :=
  let digits := Nat.toDigits 10 n
  String.ofList (List.replicate (width - digits.length) '0' ++ digits)

def Date.display (date : Date) : String :=
  padded 4 date.year ++ "-" ++ padded 2 date.month ++ "-" ++ padded 2 date.day

/-- A fraction of a second; nothing if it is zero. -/
def fractionText (nanosecond : Nat) : String :=
  if nanosecond = 0 then ""
  else
    let digits := (padded 9 nanosecond).toList
    "." ++ String.ofList (digits.reverse.dropWhile (· == '0')).reverse

def TimeOfDay.display (time : TimeOfDay) : String :=
  padded 2 time.hour ++ ":" ++ padded 2 time.minute ++ ":" ++ padded 2 time.second
    ++ fractionText time.nanosecond

def Offset.display : Offset → String
  | zulu => "Z"
  | shift minutes =>
    (if minutes < 0 then "-" else "+") ++ padded 2 (minutes.natAbs / 60) ++ ":"
      ++ padded 2 (minutes.natAbs % 60)

def DateTime.display : DateTime → String
  | localDate date => date.display
  | localTime time => time.display
  | localDateTime date time => date.display ++ "T" ++ time.display
  | offsetDateTime date time offset => date.display ++ "T" ++ time.display ++ offset.display

end TwigToLatte.Toml
