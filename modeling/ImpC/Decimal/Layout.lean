import ImpC.Decimal.Shortest

/-!
# How a double is written

A decimal whose leading digit stands for `10 ^ (-4)` up to `10 ^ 15` is written positionally and always has a digit
after the point; any other is written with one digit before the point and an exponent, `1.5e300`, and without the
point if it has one digit only, `5e-324`. `Binary64.toText` writes a double: its shortest decimal behind its sign, or the
word for a number that is not finite. The text always tells a double from an integer.
-/

namespace ImpC

namespace Decimal

/-- Digits with a point among them, where the last digit counts `10 ^ exponent`. Zeros fill the places up to the point. -/
def positional (digits : List Char) (exponent : Int) : List Char :=
  let whole := digits.length + exponent
  if 0 ≤ exponent then
    digits ++ List.replicate exponent.toNat '0' ++ ['.', '0']
  else if 0 < whole then
    digits.take whole.toNat ++ '.' :: digits.drop whole.toNat
  else
    '0' :: '.' :: List.replicate (-whole).toNat '0' ++ digits

/-- One digit before the point, and the power of ten of that digit after the mark `e`. -/
def scientific (digits : List Char) (leading : Int) : List Char :=
  let fraction := match digits.drop 1 with
    | [] => []
    | rest => '.' :: rest
  digits.take 1 ++ fraction ++ 'e' :: (toString leading).toList

/-- The text of a positive decimal. -/
def toText (d : Decimal) : String :=
  let digits := Nat.toDigits 10 d.digits
  let leading := digits.length - 1 + d.exponent
  if -4 ≤ leading ∧ leading < 16 then
    .ofList (positional digits d.exponent)
  else
    .ofList (scientific digits leading)

end Decimal

namespace Binary64

/-- The text of the magnitude of a double that is not a NaN. -/
def magnitudeText (x : Binary64) : String :=
  if x.isInfinite then "inf" else if x.isZero then "0.0" else x.shortest.toText

/-- The text of a double. A NaN has no sign. -/
def toText (x : Binary64) : String :=
  if x.isNaN then "NaN"
  else if x.negative then "-" ++ x.magnitudeText
  else x.magnitudeText

end Binary64

end ImpC
