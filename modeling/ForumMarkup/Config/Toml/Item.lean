import ForumMarkup.Config.Datum

/-!
Contract: the tables of a TOML document while they are put together.

Owns:
- `Item`, a value, a table or an array of tables, and `TableKind`, by what a table
  came to be;
- `Item.define`, `Item.defineTable` and `Item.appendTable`, which add a key, a table
  and one more table of an array.

A table is defined once.  What was only passed on the way to another table can still
be defined; what dotted keys made can only be added to by dotted keys.
-/

set_option autoImplicit false

namespace ForumMarkup.Toml

/-- By what a table came to be. -/
inductive TableKind where
  /-- By its own header. -/
  | defined
  /-- On the way to the table of another header. -/
  | passed
  /-- By a key with dots. -/
  | dotted
  deriving DecidableEq, Repr

/-- What a key stands for. -/
inductive Item where
  | value (datum : Datum)
  | table (kind : TableKind) (entries : List (Text × Item))
  /-- An array of tables, the last one first. -/
  | tables (elements : List Item)

abbrev Entries := List (Text × Item)

/-- The entries with one of them put in place of the one under its key, or behind all
others. -/
def Entries.put (entries : Entries) (key : Text) (item : Item) : Entries :=
  match entries with
  | [] => [(key, item)]
  | (other, old) :: rest =>
      if other = key then (key, item) :: rest else (other, old) :: Entries.put rest key item

/-- Changes the table at the end of a path; `viaDots` says that the path is that of a
key with dots. Tables that are missing on the way are made, and an array of tables
stands for its last one. -/
def changeAt (viaDots : Bool) (change : TableKind → Entries → Option Entries)
    (path : List Text) (kind : TableKind) (entries : Entries) : Option Entries :=
  match path with
  | [] => change kind entries
  | key :: rest =>
      match entries.lookup key with
      | none => do
          let kind := if viaDots then TableKind.dotted else TableKind.passed
          let inner ← changeAt viaDots change rest kind []
          return Entries.put entries key (.table kind inner)
      | some (.table kind inner) => do
          if viaDots && kind == .defined then none
          else
            let inner ← changeAt viaDots change rest kind inner
            return Entries.put entries key (.table kind inner)
      | some (.tables (.table kind inner :: earlier)) => do
          let inner ← changeAt viaDots change rest kind inner
          return Entries.put entries key (.tables (.table kind inner :: earlier))
      | some _ => none

/-- Gives a key with dots a value, inside the table of the last header. A table that
was not made by dots takes no key that comes to it by dots. -/
def define (header : List Text) (path : List Text) (key : Text) (value : Datum)
    (entries : Entries) : Option Entries :=
  changeAt false
    (fun kind inner =>
      changeAt true
        (fun kind last =>
          if (kind == .dotted) == path.isEmpty then none
          else
            match last.lookup key with
            | none => some (Entries.put last key (.value value))
            | some _ => none)
        path kind inner)
    header .defined entries

/-- Defines the table of a header. -/
def defineTable (path : List Text) (key : Text) (entries : Entries) : Option Entries :=
  changeAt false
    (fun _ inner =>
      match inner.lookup key with
      | none => some (Entries.put inner key (.table .defined []))
      | some (.table .passed passed) => some (Entries.put inner key (.table .defined passed))
      | some _ => none)
    path .defined entries

/-- Adds one more table to an array of tables. -/
def appendTable (path : List Text) (key : Text) (entries : Entries) : Option Entries :=
  changeAt false
    (fun _ inner =>
      match inner.lookup key with
      | none => some (Entries.put inner key (.tables [.table .defined []]))
      | some (.tables elements) =>
          some (Entries.put inner key (.tables (.table .defined [] :: elements)))
      | some _ => none)
    path .defined entries

mutual

def Item.toDatum : Item → Datum
  | .value datum => datum
  | .table _ entries => .table (entriesToData entries)
  | .tables elements => .list (elementsToData elements).reverse

def entriesToData : List (Text × Item) → List (Text × Datum)
  | [] => []
  | (key, item) :: rest => (key, item.toDatum) :: entriesToData rest

def elementsToData : List Item → List Datum
  | [] => []
  | item :: rest => item.toDatum :: elementsToData rest

end

end ForumMarkup.Toml
