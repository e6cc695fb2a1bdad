/-! # Tables of a TOML document

A document is a table of items. Each table remembers how it came about, because that decides what
may still be added to it: a table is defined by one header, or by dotted keys, and a table written
between braces is complete as it stands. -/

namespace CancellationLint.Toml

/-- How a table came about: by a header of its own, by a header for a table inside it, or by a dotted
key. -/
inductive Origin where
  | header
  | implied
  | dotted
  deriving DecidableEq, Repr

/-- Floating-point numbers and moments are kept as they are written. -/
inductive Item where
  | text (value : String)
  | integer (value : Int)
  | float (word : String)
  | moment (word : String)
  | boolean (value : Bool)
  | array (items : List Item)
  | inline (entries : List (String × Item))
  | table (origin : Origin) (entries : List (String × Item))
  | tables (list : List (List (String × Item)))
  deriving Repr, Inhabited

/-- Keys with items, in the order in which they were first written. -/
abbrev Entries := List (String × Item)

namespace Entries

/-- Sets the item of a key. -/
def put (key : String) (item : Item) : Entries → Entries
  | [] => [(key, item)]
  | (k, old) :: rest => if k = key then (k, item) :: rest else (k, old) :: put key item rest

/-- Changes the table that a path of keys from a header leads to. In a list of tables the last one is
meant. Tables on the way come about where there are none. -/
def within (change : Entries → Option Entries) : List String → Entries → Option Entries
  | [], entries => change entries
  | key :: path, entries =>
    match entries.lookup key with
    | none => (within change path []).map fun inner => entries.put key (.table .implied inner)
    | some (.table origin inner) =>
      (within change path inner).map fun inner => entries.put key (.table origin inner)
    | some (.tables list) =>
      (within change path (list.getLast?.getD [])).map fun inner =>
        entries.put key (.tables (list.dropLast ++ [inner]))
    | some _ => none

/-- Adds a key that is not there yet. -/
def add (key : String) (item : Item) (entries : Entries) : Option Entries :=
  match entries.lookup key with
  | none => some (entries ++ [(key, item)])
  | some _ => none

/-- Adds the item of a dotted key, all but the last part of which name tables that dotted keys made. -/
def addDotted (last : String) (item : Item) : List String → Entries → Option Entries
  | [], entries => entries.add last item
  | key :: path, entries =>
    match entries.lookup key with
    | none => (addDotted last item path []).map fun inner => entries.put key (.table .dotted inner)
    | some (.table .dotted inner) =>
      (addDotted last item path inner).map fun inner => entries.put key (.table .dotted inner)
    | some (.table .implied inner) =>
      -- A table that a header implied may be passed through, but takes no key this way.
      if path = [] then none
      else (addDotted last item path inner).map fun inner => entries.put key (.table .implied inner)
    | some _ => none

/-- The header `[path]`: its last key must be new, or a table that is only implied so far. -/
def define (path : List String) (last : String) (entries : Entries) : Option Entries :=
  entries.within (fun inner =>
    match inner.lookup last with
    | none => some (inner.put last (.table .header []))
    | some (.table .implied old) => some (inner.put last (.table .header old))
    | some _ => none) path

/-- The header `[[path]]`: one more table in a list of tables. -/
def extend (path : List String) (last : String) (entries : Entries) : Option Entries :=
  entries.within (fun inner =>
    match inner.lookup last with
    | none => some (inner.put last (.tables [[]]))
    | some (.tables list) => some (inner.put last (.tables (list ++ [[]])))
    | some _ => none) path

end Entries
end CancellationLint.Toml
