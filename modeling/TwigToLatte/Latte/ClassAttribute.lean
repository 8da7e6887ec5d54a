import TwigToLatte.Text.Word

/-!
# Class attributes

* `classAttributes` — Latte has an attribute of its own for conditional CSS classes. Wherever a
  `class` attribute begins with a call that collects such classes, the call's arguments become the
  value of that attribute.

The call reaches as far as its line allows: to the last closing parenthesis with a closing brace.
-/

namespace TwigToLatte.Latte

/-- Splits a line at its last closing parenthesis with a brace: the text before, and the text
after. -/
def splitLastClose : List Char → Option (List Char × List Char)
  | [] => none
  | c :: rest =>
    if c = '\n' then none
    else
      match splitLastClose rest with
      | some (before, after) => some (c :: before, after)
      | none =>
        match c, rest with
        | ')', '}' :: after => some ([], after)
        | _, _ => none

/-- Drops a given character from the front. -/
def dropChar? (expected : Char) : List Char → Option (List Char)
  | c :: rest => if c = expected then some rest else none
  | [] => none

/-- A quote, and the text after it. -/
def takeQuote? : List Char → Option (Char × List Char)
  | c :: rest => if c = '"' || c = '\'' then some (c, rest) else none
  | [] => none

/-- The text without an equals sign in front. -/
def dropEquals : List Char → List Char
  | '=' :: rest => rest
  | text => text

/-- A class attribute that begins with a call: its quote, the call's arguments and the text after
the call. -/
def classCall? (text : List Char) : Option (Char × List Char × List Char) := do
  let text ← Text.dropCaseless? "class=".toList text
  let (quote, text) ← takeQuote? text
  let text ← dropChar? '{' text
  let text ← Text.dropCaseless? "html_classes(".toList (dropEquals text)
  let (arguments, after) ← splitLastClose text
  return (quote, arguments, after)

/-- Replaces the attributes of a text that follows the character `previous`, after leaving out the
first `skip` characters, the rest of an attribute that is already written. -/
def replaceClasses (previous : Option Char) : Nat → List Char → List Char
  | _, [] => []
  | skip + 1, c :: rest => replaceClasses (some c) skip rest
  | 0, c :: rest =>
    match if Text.atWordStart previous then classCall? (c :: rest) else none with
    | some (quote, arguments, after) =>
      "n:class=".toList ++ quote :: arguments
        ++ replaceClasses (some c) (rest.length - after.length) rest
    | none => c :: replaceClasses (some c) 0 rest

/-- The code with Latte's own class attributes. -/
def classAttributes (code : String) : String :=
  String.ofList (replaceClasses none 0 code.toList)

end TwigToLatte.Latte
