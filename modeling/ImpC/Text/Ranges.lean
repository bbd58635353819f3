/-!
# Classes of characters given by ranges

A class of characters is a table of ranges of code points, both ends included, in increasing order
(`Ranges.ordered`). A character belongs to the class if some range contains it.
-/

namespace ImpC.Text

/-- A table of ranges of code points, each with its first and its last member. -/
abbrev Ranges := List (Nat × Nat)

namespace Ranges

/-- Whether a character lies in one of the ranges. -/
def contains (table : Ranges) (c : Char) : Bool :=
  table.any fun (first, last) => first ≤ c.toNat && c.toNat ≤ last

/-- The ranges are not empty, do not touch, and stand in increasing order. -/
def ordered : Ranges → Bool
  | [] => true
  | [(first, last)] => first ≤ last
  | (first, last) :: (next, last') :: rest => first ≤ last && last + 1 < next && ordered ((next, last') :: rest)

end Ranges

end ImpC.Text
