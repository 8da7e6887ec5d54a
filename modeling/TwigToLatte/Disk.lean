/-!
# Disks

* `Disk` — the file operations that a run needs, in any monad.
* `Disk.Failure` — why an operation fails, and its wording.
* `FileTree` — the files of a working directory as a value: contents by location. Directories are
  those that hold files.
* `Route` — a path as the names on its way. Empty names say nothing, but a slash at the end asks
  for a directory.
* `FileTree.find`, `FileTree.entry` — where a path leads: to something that is there, or to a name
  in a directory.
* `FileTree.disk` — the operations on a file tree. One that fails changes nothing.
-/

namespace TwigToLatte

/-- Why a file operation fails. -/
inductive Disk.Failure where
  | notFound
  | busy
  | notDirectory
  | isDirectory
  | invalidMove
  | nameTooLong
  | notEmpty
  | notText
  | zeroByte
  | other (message : String)
  deriving DecidableEq, Repr

def Disk.Failure.message : Disk.Failure → String
  | notFound => "No such file or directory (os error 2)"
  | busy => "Device or resource busy (os error 16)"
  | notDirectory => "Not a directory (os error 20)"
  | isDirectory => "Is a directory (os error 21)"
  | invalidMove => "Invalid argument (os error 22)"
  | nameTooLong => "File name too long (os error 36)"
  | notEmpty => "Directory not empty (os error 39)"
  | notText => "stream did not contain valid UTF-8"
  | zeroByte => "file name contained an unexpected NUL byte"
  | other message => message

/-- File operations. -/
structure Disk (m : Type → Type) where
  /-- Whether a path leads to a file. -/
  isFile : String → m Bool
  /-- Whether a path leads to anything. -/
  contains : String → m Bool
  /-- The text of a file. -/
  read : String → m (Except Disk.Failure String)
  /-- Moves the first path to the second, where it replaces a file. -/
  rename : String → String → m (Except Disk.Failure Unit)
  /-- Gives a file a new content, or makes one. -/
  write : String → String → m (Except Disk.Failure Unit)

/-! ## Paths -/

/-- The names on the way of a path. -/
structure Route where
  /-- Whether the way starts at the root and not in the working directory. -/
  fromRoot : Bool
  names : List String
  /-- Whether a slash ends the path. -/
  closed : Bool
  deriving DecidableEq, Repr

/-- How many bytes a path may have. -/
def Route.limit : Nat := 4095

def Route.ofPath (path : String) : Except Disk.Failure Route :=
  let cs := path.toList
  if cs.contains (Char.ofNat 0) then .error .zeroByte
  else if Route.limit < path.utf8ByteSize then .error .nameTooLong
  else if cs.isEmpty then .error .notFound
  else
    .ok
      { fromRoot := cs.head? == some '/'
        names := ((cs.splitOn '/').map String.ofList).filter (· != "")
        closed := cs.getLast? == some '/' }

/-! ## Files in a working directory -/

/-- A place, as the names on the way to it from the working directory. A place above that begins
with `..`, and one that is told from the root with `/`. -/
abbrev Location := List String

/-- Whether the location is a directory whatever files there are: the working directory, those
above it, and the root. -/
def Location.isBase (location : Location) : Bool :=
  location.all (· == "..") || location == ["/"]

/-- The directory above. The root is above itself. -/
def Location.up (location : Location) : Location :=
  if location == ["/"] then location
  else if location.isBase then location ++ [".."]
  else location.dropLast

/-- Where the way of a path starts. -/
def Route.start (route : Route) : Location := if route.fromRoot then ["/"] else []

/-- The files of a working directory. -/
structure FileTree where
  files : List (Location × ByteArray) := []

namespace FileTree

def content? (tree : FileTree) (location : Location) : Option ByteArray :=
  tree.files.lookup location

def isDirectory (tree : FileTree) (location : Location) : Bool :=
  location.isBase || tree.files.any fun file => location.isPrefixOf file.1 && location != file.1

def contains (tree : FileTree) (location : Location) : Bool :=
  (tree.content? location).isSome || tree.isDirectory location

/-- The files below the working directory. -/
def below (tree : FileTree) : List (Location × ByteArray) :=
  tree.files.filter fun file => file.1.head? != some ".." && file.1.head? != some "/"

/-! ### Ways -/

/-- A location that must be a directory. -/
def directory (tree : FileTree) (location : Location) : Except Disk.Failure Location :=
  if tree.isDirectory location then .ok location
  else if (tree.content? location).isSome then .error .notDirectory
  else .error .notFound

/-- How many bytes a name may have. -/
def nameLimit : Nat := 255

/-- Goes on from a directory by one name, whether or not anything is there. -/
def step (tree : FileTree) (here : Location) (name : String) : Except Disk.Failure Location := do
  let here ← tree.directory here
  if name == "." then return here
  else if name == ".." then return here.up
  else if nameLimit < name.utf8ByteSize then throw .nameTooLong
  else return here ++ [name]

/-- Goes along names. -/
def walk (tree : FileTree) (start : Location) (names : List String) :
    Except Disk.Failure Location :=
  names.foldlM tree.step start

/-- Where a path leads. -/
def find (tree : FileTree) (path : String) : Except Disk.Failure Location := do
  let route ← Route.ofPath path
  let location ← tree.walk route.start route.names
  if route.closed then tree.directory location
  else if tree.contains location then return location
  else throw .notFound

/-- A name in a directory. A path that ends in dots, or is the root, has no name of its own. -/
structure Entry where
  parent : Location
  name : Option String
  /-- Whether the path asks for a directory. -/
  closed : Bool
  deriving DecidableEq, Repr

/-- The last name of a path in the directory that holds it, whether or not anything is there. -/
def entry (tree : FileTree) (path : String) : Except Disk.Failure Entry := do
  let route ← Route.ofPath path
  let here ← tree.walk route.start route.names.dropLast
  let parent ← tree.directory here
  let name := route.names.getLast?.filter fun name => name != "." && name != ".."
  return ⟨parent, name, route.closed⟩

/-! ### Changes -/

def erase (location : Location) (tree : FileTree) : FileTree :=
  ⟨tree.files.filter fun file => file.1 != location⟩

/-- The tree with a file of the given content. -/
def put (location : Location) (content : ByteArray) (tree : FileTree) : FileTree :=
  ⟨(tree.erase location).files ++ [(location, content)]⟩

/-- The tree with all files of one directory in another one. -/
def moveDirectory (source destination : Location) (tree : FileTree) : FileTree :=
  ⟨tree.files.map fun file =>
    if source.isPrefixOf file.1 then (destination ++ file.1.drop source.length, file.2) else file⟩

def moveFile (tree : FileTree) (source destination : Location) (content : ByteArray) :
    Except Disk.Failure FileTree :=
  if tree.isDirectory destination then .error .isDirectory
  else .ok ((tree.erase source).put destination content)

def moveTree (tree : FileTree) (source destination : Location) : Except Disk.Failure FileTree :=
  if source.isPrefixOf destination then .error .invalidMove
  else if (tree.content? destination).isSome then .error .notDirectory
  else if tree.isDirectory destination then .error .notEmpty
  else .ok (tree.moveDirectory source destination)

/-- Moves a file or a directory, neither of which may be named by dots. -/
def move (tree : FileTree) (source destination : String) : Except Disk.Failure FileTree := do
  let old ← tree.entry source
  let new ← tree.entry destination
  match old.name, new.name with
  | some oldName, some newName =>
    let start ← tree.step old.parent oldName
    if !tree.contains start then throw .notFound
    let goal ← tree.step new.parent newName
    match tree.content? start with
    | some content =>
      if old.closed || new.closed then throw .notDirectory
      tree.moveFile start goal content
    | none => if start = goal then return tree else tree.moveTree start goal
  | _, _ => throw .busy

def store (tree : FileTree) (path text : String) : Except Disk.Failure FileTree := do
  let entry ← tree.entry path
  match entry.name with
  | none => throw .isDirectory
  | some name =>
    if entry.closed then throw .isDirectory
    let location ← tree.step entry.parent name
    if tree.isDirectory location then throw .isDirectory
    return tree.put location text.toUTF8

def load (tree : FileTree) (path : String) : Except Disk.Failure String := do
  match tree.content? (← tree.find path) with
  | none => throw .isDirectory
  | some content =>
    match String.fromUTF8? content with
    | some text => return text
    | none => throw .notText

/-! ### The disk -/

/-- Makes a change that may fail. -/
def change (f : FileTree → Except Disk.Failure FileTree) :
    StateM FileTree (Except Disk.Failure Unit) := fun tree =>
  match f tree with
  | .ok changed => (.ok (), changed)
  | .error failure => (.error failure, tree)

def disk : Disk (StateM FileTree) where
  isFile path := do
    let tree ← get
    return match tree.find path with
      | .ok location => (tree.content? location).isSome
      | .error _ => false
  contains path := do
    return (← get).find path matches .ok _
  read path := do
    return (← get).load path
  rename source destination := change (·.move source destination)
  write path text := change (·.store path text)

end FileTree

end TwigToLatte
