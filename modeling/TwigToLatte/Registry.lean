/-!
# Registries

* `Registry` — named entries in the order in which their names were first registered.
* `Registry.insert` — registers an entry; one of the same name is replaced where it stands.
* `Registry.get?`, `Registry.keys`, `Registry.erase` — look-up, names in order, removal.
-/

namespace TwigToLatte

/-- Named entries in order of registration. -/
structure Registry (α : Type) where
  entries : List (String × α) := []
  deriving DecidableEq, Repr

namespace Registry

variable {α : Type}

def empty : Registry α := {}

/-- The entries with one more, or with the one of the same name replaced. -/
def insertEntry (key : String) (value : α) : List (String × α) → List (String × α)
  | [] => [(key, value)]
  | entry :: rest =>
    if entry.1 = key then (key, value) :: rest else entry :: insertEntry key value rest

def insert (registry : Registry α) (key : String) (value : α) : Registry α :=
  ⟨insertEntry key value registry.entries⟩

def insertAll (registry : Registry α) (entries : List (String × α)) : Registry α :=
  entries.foldl (fun r entry => r.insert entry.1 entry.2) registry

def get? (registry : Registry α) (key : String) : Option α := registry.entries.lookup key

def contains (registry : Registry α) (key : String) : Bool := (registry.get? key).isSome

def erase (registry : Registry α) (key : String) : Registry α :=
  ⟨registry.entries.filter fun entry => entry.1 != key⟩

/-- The names in order of registration. -/
def keys (registry : Registry α) : List String := registry.entries.map (·.1)

def size (registry : Registry α) : Nat := registry.entries.length

end Registry

end TwigToLatte
