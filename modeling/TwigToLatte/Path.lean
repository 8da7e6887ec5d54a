/-!
# File names

* `Path.splitChars?` — the directory part and the file name of a path, if it names a file.
* `Path.withExtension` — a path with another extension.
* `Path.defaultOutput` — where a converted template goes.
* `Path.backup` — where a file goes that is about to be replaced.

Paths are texts. Slashes and dots that end a path say nothing about its file name.
-/

namespace TwigToLatte.Path

/-- Drops slashes, and dots that follow a slash, from the front of a reversed path. -/
def dropTrailing : List Char → List Char
  | '/' :: rest => dropTrailing rest
  | '.' :: '/' :: rest => dropTrailing ('/' :: rest)
  | rest => rest

/-- The directory part with its slash, and the file name. The directory itself and its parent
are no files. -/
def splitChars? (path : List Char) : Option (List Char × List Char) :=
  let reversed := dropTrailing path.reverse
  let name := (reversed.takeWhile (· != '/')).reverse
  if name = [] || name = ['.'] || name = ['.', '.'] then none
  else some ((reversed.dropWhile (· != '/')).reverse, name)

def fileName? (path : String) : Option String :=
  (splitChars? path.toList).map fun (_, name) => String.ofList name

/-- A file name up to its last dot, and the extension after it. A dot in front starts none. -/
def splitExtension (name : List Char) : List Char × Option (List Char) :=
  let extension := (name.reverse.takeWhile (· != '.')).reverse
  let stem := name.take (name.length - extension.length - 1)
  if extension.length = name.length || stem = [] then (name, none) else (stem, some extension)

/-- A path with another extension. A path without a file name stays as it is. So does, but for
its extension, a name that is the parent directory without it. -/
def withExtension (path extension : List Char) : List Char :=
  match splitChars? path with
  | none => path
  | some (directory, name) =>
    match splitExtension name with
    | (['.'], some old) =>
      if path = directory ++ name then path.take (path.length - old.length)
      else directory ++ '.' :: '.' :: extension
    | (stem, _) => directory ++ stem ++ '.' :: extension

/-- The text without a given end. -/
def dropSuffix? (ending text : List Char) : Option (List Char) :=
  if ending.isSuffixOf text then some (text.take (text.length - ending.length)) else none

/-- The path of the converted template: the template's own extensions give way to that of Latte,
and so does any other extension. -/
def defaultOutput (path : String) : String :=
  let cs := path.toList
  match dropSuffix? ".twig.html".toList cs, dropSuffix? ".twig".toList cs with
  | some stem, _ => String.ofList (stem ++ ".latte".toList)
  | none, some stem => String.ofList (stem ++ ".latte".toList)
  | none, none => String.ofList (withExtension cs "latte".toList)

/-- The path that keeps the previous content of a file. -/
def backup (path : String) : String := path ++ ".bak"

end TwigToLatte.Path
