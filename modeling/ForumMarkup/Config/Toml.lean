import ForumMarkup.Config.Toml.Item
import ForumMarkup.Config.Toml.Literal
import ForumMarkup.Config.Toml.Moment
import ForumMarkup.Config.Toml.Number

/-!
Contract: configuration in TOML.

Owns:
- `Toml.parse?`, the datum of a document;
- `Moment.toDatum`, how a date or a time appears among the data.

A document is read line by line: a key with its value belongs to the table of the last
header.  A key that is given twice makes the document invalid.
-/

set_option autoImplicit false

namespace ForumMarkup.Toml

/-- The text behind blanks, comments and line ends. -/
def skipLines : (fuel : Nat) → Text → Text
  | 0, t => t
  | fuel + 1, t =>
      let rest := skipComment (skipBlanks t)
      match afterLineEnd? rest with
      | some after => skipLines fuel after
      | none => rest

/-- The key that is set aside for dates and times. -/
def momentKey : Text := "$__toml_private_datetime".toList

/-- A date or a time as a datum: a table with its canonical spelling under the key that
is set aside. It can be read where a table of texts is asked for, and no key of it is
known elsewhere. -/
def Moment.toDatum (moment : Moment) : Datum :=
  .table [(momentKey, .string moment.text)]

/-- Keys with dots and their values as the entries of a table without a header. -/
def tableOfPairs? (pairs : List (List Text × Text × Datum)) : Option Datum :=
  (pairs.foldlM (fun entries pair => define [] pair.1 pair.2.1 pair.2.2 entries) []).map
    fun entries => (Item.table .defined entries).toDatum

mutual

/-- A value in which arrays and tables are nested at most `depth` deep, and the text
behind it. -/
def value? : (fuel depth : Nat) → Text → Option (Datum × Text)
  | 0, _, _ => none
  | fuel + 1, depth, t =>
      match t with
      | '\x22' :: _ | '\x27' :: _ =>
          (stringLiteral? t).map fun (value, rest) => (.string value, rest)
      | '[' :: rest =>
          if depth = 0 then none
          else
            (items? fuel (depth - 1) (skipLines fuel rest)).map fun (values, after) =>
              (.list values, after)
      | '\x7b' :: rest =>
          if depth = 0 then none
          else
            match skipBlanks rest with
            | '\x7d' :: after => some (.table [], after)
            | pairs => do
                let (read, after) ← pairs? fuel (depth - 1) pairs
                return (← tableOfPairs? read, after)
      | 't' :: _ => (Text.after? "true".toList t).map fun rest => (.bool true, rest)
      | 'f' :: _ => (Text.after? "false".toList t).map fun rest => (.bool false, rest)
      | _ =>
          match moment? t with
          | some (moment, rest) => some (moment.toDatum, rest)
          | none => numberLiteral? t

def items? : (fuel depth : Nat) → Text → Option (List Datum × Text)
  | 0, _, _ => none
  | fuel + 1, depth, t =>
      match t with
      | ']' :: after => some ([], after)
      | _ => do
          let (value, behind) ← value? fuel depth t
          match skipLines fuel behind with
          | ']' :: after => return ([value], after)
          | ',' :: more =>
              let (values, after) ← items? fuel depth (skipLines fuel more)
              return (value :: values, after)
          | _ => none

/-- The pairs of a table on one line up to its closing brace, and the text behind it. -/
def pairs? : (fuel depth : Nat) → Text → Option (List (List Text × Text × Datum) × Text)
  | 0, _, _ => none
  | fuel + 1, depth, t => do
      let (pair, behind) ← pair? fuel depth t
      match skipBlanks behind with
      | '\x7d' :: after => return ([pair], after)
      | ',' :: more =>
          let (pairs, after) ← pairs? fuel depth (skipBlanks more)
          return (pair :: pairs, after)
      | _ => none

/-- A key with its value, and the text behind them. The last part of the key stands
apart. -/
def pair? : (fuel depth : Nat) → Text → Option ((List Text × Text × Datum) × Text)
  | 0, _, _ => none
  | fuel + 1, depth, t => do
      let (path, behind) ← key? t
      let last ← path.getLast?
      let (value, rest) ← value? fuel depth (skipBlanks (← Text.after? ['='] behind))
      return ((path.dropLast, last, value), rest)

end

/-- A header behind its opening brackets: its key, and the text behind the closing
ones. -/
def header? (closing : Text) (t : Text) : Option (List Text × Text) := do
  let (path, behind) ← key? t
  return (path, ← Text.after? closing behind)

/-- What was read of a document: the key of the last header, and all entries. -/
structure Document where
  header : List Text := []
  entries : Entries := []

/-- What the expression at the start of a line adds, and the text behind it. -/
def expression? (document : Document) (t : Text) : Option (Document × Text) :=
  match t with
  | '[' :: '[' :: rest => do
      let (header, after) ← header? [']', ']'] rest
      let entries ← appendTable header.dropLast (← header.getLast?) document.entries
      return ({ header, entries }, after)
  | '[' :: rest => do
      let (header, after) ← header? [']'] rest
      let entries ← defineTable header.dropLast (← header.getLast?) document.entries
      return ({ header, entries }, after)
  | _ => do
      let ((path, key, value), after) ← pair? (3 * t.length + 3) depthBound t
      let entries ← define document.header path key value document.entries
      return ({ document with entries }, after)

def document? : (fuel : Nat) → Document → Text → Option Document
  | 0, _, _ => none
  | fuel + 1, document, t =>
      match skipComment (skipBlanks t) with
      | [] => some document
      | c :: rest =>
          match afterLineEnd? (c :: rest) with
          | some after => document? fuel document after
          | none => do
              if (skipBlanks t).head? = some '#' then none
              else
                let (next, behind) ← expression? document (c :: rest)
                match skipComment (skipBlanks behind) with
                | [] => return next
                | tail => document? fuel next (← afterLineEnd? tail)

/-- The datum of a document. A byte order mark at its start has no meaning. -/
def parse? (t : Text) : Option Datum :=
  let lines := (Text.after? ['\ufeff'] t).getD t
  (document? (lines.length + 1) {} lines).map fun document =>
    (Item.table .defined document.entries).toDatum

end ForumMarkup.Toml
