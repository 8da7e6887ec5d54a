import TwigToLatte.Registry
import TwigToLatte.Toml.DateTime

/-!
# TOML documents

* `Toml` — the values of a document. Every table knows how it came to be, which
  decides who may add to it.
* `Toml.defineTable` — the effect of a table header.
* `Toml.defineKey` — the effect of a key with a value; a dotted key makes tables on its way.
* `Toml.within` — a change of the table that a header has opened.

No key and no table may be defined twice.
-/

namespace TwigToLatte

/-- How a table came to be. -/
inductive Toml.Origin where
  /-- By a header of its own. -/
  | header
  /-- By a header of a table inside it; it may still get its own. -/
  | implied
  /-- By a dotted key. -/
  | dotted
  /-- As a value between braces; it is complete. -/
  | inline
  deriving DecidableEq, Repr

/-- A value of a document. -/
inductive Toml where
  | string (value : String)
  | boolean (value : Bool)
  /-- A number, as it is written. -/
  | number (text : String)
  | dateTime (value : Toml.DateTime)
  | array (items : List Toml)
  | table (origin : Toml.Origin) (entries : List (String × Toml))

namespace Toml

/-- The entries of a table, by key. -/
abbrev Entries := List (String × Toml)

/-- Replaces or appends an entry. -/
def set (key : String) (value : Toml) (entries : Entries) : Entries :=
  Registry.insertEntry key value entries

/-- Opens the table of a header. Tables on the way may have any origin but a closed one. -/
def defineTable : List String → Entries → Option Entries
  | [], _ => none
  | [key], entries =>
    match entries.lookup key with
    | none => some (set key (.table .header []) entries)
    | some (.table .implied inner) => some (set key (.table .header inner) entries)
    | some _ => none
  | key :: path, entries =>
    match entries.lookup key with
    | none => (defineTable path []).map fun inner => set key (.table .implied inner) entries
    | some (.table .inline _) => none
    | some (.table origin inner) =>
      (defineTable path inner).map fun inner => set key (.table origin inner) entries
    | some _ => none

/-- Gives a key its value. Tables on the way must come from dotted keys. -/
def defineKey (value : Toml) : List String → Entries → Option Entries
  | [], _ => none
  | [key], entries => if (entries.lookup key).isSome then none else some (set key value entries)
  | key :: path, entries =>
    match entries.lookup key with
    | none => (defineKey value path []).map fun inner => set key (.table .dotted inner) entries
    | some (.table .dotted inner) =>
      (defineKey value path inner).map fun inner => set key (.table .dotted inner) entries
    | some _ => none

/-- Changes the table at a path. -/
def within (change : Entries → Option Entries) : List String → Entries → Option Entries
  | [], entries => change entries
  | key :: path, entries =>
    match entries.lookup key with
    | some (.table origin inner) =>
      (within change path inner).map fun inner => set key (.table origin inner) entries
    | _ => none

end Toml

end TwigToLatte
