/-!
# Options of the emitted program

The sizes of the buffers that hold text, and the width of a level of indentation. A buffer needs room for a character
and for the one that ends the text, so neither capacity is ever below two: a smaller request is raised to it.
-/

namespace ImpC

/-- Sizes in the emitted program. -/
structure EmitOptions where
  /-- The bytes of a variable that holds a text, with the one that ends it. -/
  textCapacity : Nat := 100
  /-- The bytes of a buffer in which a concatenation is put together. -/
  concatCapacity : Nat := 200
  /-- The spaces of a level of indentation. -/
  indentWidth : Nat := 4
  two_le_textCapacity : 2 ≤ textCapacity := by decide
  two_le_concatCapacity : 2 ≤ concatCapacity := by decide
  deriving DecidableEq, Repr

namespace EmitOptions

/-- The sizes that are taken unless others are chosen. -/
def standard : EmitOptions := {}

instance : Inhabited EmitOptions := ⟨standard⟩

/-- Chooses the width of a level of indentation. -/
def withIndentWidth (o : EmitOptions) (n : Nat) : EmitOptions := { o with indentWidth := n }

end EmitOptions

end ImpC
