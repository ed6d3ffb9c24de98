/-!
Contract: what a reader reports about markup it could not take at face value.

Owns:
- `Warning`, with its severity, its cause and the place it was found;
- `Reading`, a value together with the warnings of the reader that made it;
- `Warning.bySeverity`, the order in which warnings are shown.
-/

set_option autoImplicit false

namespace ForumMarkup

/-- How much of the author's intent a warning puts in doubt. -/
inductive Severity where
  /-- The output is what the author saw. -/
  | info
  /-- The output may differ slightly from what the author saw. -/
  | minor
  /-- Text was dropped or taken differently. -/
  | major
  deriving DecidableEq, Repr

def Severity.rank : Severity → Nat
  | .info => 0
  | .minor => 1
  | .major => 2

/-- What a warning is about; each cause names the tag concerned. -/
inductive Cause where
  /-- A tag was opened and never closed. -/
  | unclosedTag (name : String)
  /-- A closing tag has no opener. -/
  | unmatchedClose (name : String)
  /-- Something stands where it is not allowed. -/
  | misplaced (name : String)
  deriving DecidableEq, Repr

/-- A report about one place of the input. -/
structure Warning where
  severity : Severity
  cause : Cause
  message : String
  /-- Byte offset of the place in the input, when it has one. -/
  offset? : Option Nat := none
  deriving DecidableEq, Repr

/-- The warnings with their numbers, most severe first and otherwise in order. -/
def Warning.bySeverity (warnings : List Warning) : List (Warning × Nat) :=
  warnings.zipIdx.mergeSort fun left right =>
    right.1.severity.rank ≤ left.1.severity.rank

/-- The number of neighbouring pairs of equal warnings. -/
def Warning.repeats : List Warning → Nat
  | first :: second :: rest => (if first = second then 1 else 0) + repeats (second :: rest)
  | _ => 0

/-- What a reader made of its input, and the warnings it raised, in order. -/
structure Reading (α : Type) where
  value : α
  warnings : List Warning := []

namespace Reading

variable {α : Type}

def warn (reading : Reading α) (warning : Warning) : Reading α :=
  { reading with warnings := reading.warnings ++ [warning] }

def hasWarnings (reading : Reading α) : Bool :=
  !reading.warnings.isEmpty

end Reading
end ForumMarkup
