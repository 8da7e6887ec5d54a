/-!
# Template sources

* `Source` — the text of a template with its logical name and, if it was read from a file, the
  path of that file.
* `Source.displayName` — the name that messages use.
-/

namespace TwigToLatte

/-- A template before conversion. -/
structure Source where
  text : String
  name : String
  path : Option String := none
  deriving DecidableEq, Repr

/-- The path when known, the logical name otherwise. -/
def Source.displayName (source : Source) : String := source.path.getD source.name

end TwigToLatte
