/-!
# Types and variables

The language has three types and no others. `Ty.keyword` is the word a declaration uses for a type, and
the word every message uses for it. A `Variable` is a name together with the type it was declared with.
-/

namespace ImpC

/-- The types of the language. -/
inductive Ty where
  | int
  | float
  | text
  deriving DecidableEq, Repr, Inhabited

namespace Ty

/-- The word for a type in a declaration. -/
def keyword : Ty → String
  | int => "int"
  | float => "float"
  | text => "string"

/-- Arithmetic is defined on the numeric types. -/
def isNumeric : Ty → Bool
  | int | float => true
  | text => false

theorem keyword_injective {a b : Ty} (h : a.keyword = b.keyword) : a = b := by
  cases a <;> cases b <;> first | rfl | (exact absurd h (by decide))

end Ty

/-- A declared variable. -/
structure Variable where
  name : String
  ty : Ty
  deriving DecidableEq, Repr, Inhabited

end ImpC
