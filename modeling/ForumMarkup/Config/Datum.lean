import ForumMarkup.Text.Blank

/-!
Contract: the values that configuration is written in.

Owns: `Datum`, and the readings of a datum as a value of a certain type, none of
which converts between types.
-/

set_option autoImplicit false

namespace ForumMarkup

/-- A value of a configuration file. -/
inductive Datum where
  | null
  | bool (value : Bool)
  | integer (value : Int)
  | string (value : Text)
  | list (values : List Datum)
  /-- Values under keys, in the order and as often as they are written. -/
  | table (entries : List (Text × Datum))
  /-- Any value that is well written and that nothing asks for. -/
  | other

namespace Datum

def bool? : Datum → Option Bool
  | .bool value => some value
  | _ => none

/-- The number of a datum that fits in 64 bits without a sign. -/
def word? : Datum → Option Nat
  | .integer (.ofNat value) => if value < Nat.pow 2 64 then some value else none
  | _ => none

def string? : Datum → Option Text
  | .string value => some value
  | _ => none

def list? : Datum → Option (List Datum)
  | .list values => some values
  | _ => none

def table? : Datum → Option (List (Text × Datum))
  | .table entries => some entries
  | _ => none

end Datum
end ForumMarkup
