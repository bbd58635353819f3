import ImpC.Text.Wide
import ImpC.Text.ZeroWidth

/-!
# How many columns a character takes

A character takes one column, unless it is drawn onto or around another and takes none, or is of a wide class and takes
two. Two signs of Khmer stand for several letters and are as wide as those: U+17A4 for two, U+17D8 for three.
-/

namespace ImpC.Text

/-- The columns a character takes on a terminal. -/
def columns (c : Char) : Nat :=
  if isZeroWidth c then 0
  else if c = '\u17d8' then 3
  else if c = '\u17a4' || isWide c then 2
  else 1

theorem columns_le_three (c : Char) : columns c ≤ 3 := by
  unfold columns
  repeat' split
  all_goals omega

end ImpC.Text
