import TwigToLatte.Token

/-!
# Constant values

* `Value` — the constants of templates: null, booleans, integers of 64 bits, doubles, strings, and
  arrays as ordered pairs of key and value.
-/

namespace TwigToLatte

/-- A constant. -/
inductive Value where
  | null
  | bool (value : Bool)
  | int (value : Int64)
  | float (value : Float)
  | string (value : String)
  | array (items : List (Value × Value))
  deriving Repr

namespace Value

instance : Inhabited Value := ⟨.null⟩

def ofNumber : Number → Value
  | .int n => .int n
  | .float x => .float x

/-- The text of a string constant. -/
def string? : Value → Option String
  | .string s => some s
  | _ => none

/-- Whether the constant is the integer `n`. -/
def isInt (n : Nat) : Value → Bool
  | .int i => i.toInt == n
  | _ => false

end Value

end TwigToLatte
