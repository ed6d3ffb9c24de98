/-!
Contract: the choices a caller makes for the Markdown that is written.

Owns: `SizeBand`, `SizeBands` and `Options`, with their defaults.
-/

set_option autoImplicit false

namespace ForumMarkup

/-- A range of text sizes, both bounds included. A band whose least size exceeds
its greatest holds no size. -/
structure SizeBand where
  min : Nat
  max : Nat
  deriving DecidableEq, Repr

def SizeBand.contains (band : SizeBand) (size : Nat) : Bool :=
  band.min ≤ size && size ≤ band.max

/-- The sizes written small and the sizes written big; the small band is asked
first. -/
structure SizeBands where
  small : SizeBand := ⟨1, 99⟩
  big : SizeBand := ⟨101, 200⟩
  deriving DecidableEq, Repr

/-- How Markdown is to be written. -/
structure Options where
  /-- Writes code without line feeds inline. -/
  inlineCode : Bool := false
  /-- Spells every line break as a hard break. -/
  traditionalBreaks : Bool := false
  sizeBands : SizeBands := {}
  deriving DecidableEq, Repr

end ForumMarkup
