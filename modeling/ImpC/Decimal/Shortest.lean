import ImpC.Binary64

/-!
# The shortest decimal of a double

Reading a decimal takes it to the nearest double, a half-way decimal to the neighbour with the even significand. So the
decimals that read as a given positive double `x` fill an interval around it, whose ends belong to it exactly when the
significand of `x` is even (`Binary64.readsFrom`). Among the powers of ten, `Binary64.shortest` takes the largest one
of which some multiple lies in that interval, and of its multiples the one nearest to `x`: no decimal with fewer digits
reads as `x`, and none with as many digits is nearer.

Everything is computed with natural numbers. The decimal `n * 10 ^ e` and the dyadic number `a * 2 ^ k` are compared
after both are multiplied by the powers of ten and two that make them whole (`decimalSide`, `dyadicSide`).
-/

namespace ImpC

/-- The number `digits * 10 ^ exponent`. -/
structure Decimal where
  digits : Nat
  exponent : Int
  deriving DecidableEq, Repr, Inhabited

namespace Decimal

/-- The decimal `n * 10 ^ e`, brought over the common denominator with multiples of `2 ^ k`. -/
def decimalSide (n : Nat) (e k : Int) : Nat := n * Nat.pow 10 e.toNat * Nat.pow 2 (-k).toNat

/-- The dyadic number `a * 2 ^ k`, brought over the common denominator with multiples of `10 ^ e`. -/
def dyadicSide (a : Nat) (e k : Int) : Nat := a * Nat.pow 2 k.toNat * Nat.pow 10 (-e).toNat

/-- The exponents from `top` down to `-324`. The multiples of `10 ^ (-324)` are closer together than any two doubles. -/
def exponentsFrom (top : Int) : List Int :=
  (List.range (top + 325).toNat).map fun i : Nat => top - (i : Int)

end Decimal

namespace Binary64

open Decimal

/-- Whether the decimal `d` reads as the positive double `x`. The interval reaches half-way to the neighbours of `x`,
in quarters of the distance to the larger one: two above, and two or, at a power of two, one below. -/
def readsFrom (x : Binary64) (d : Decimal) : Bool :=
  let k := x.scale - 2
  let low := dyadicSide (4 * x.significand - if x.atBinade then 1 else 2) d.exponent k
  let high := dyadicSide (4 * x.significand + 2) d.exponent k
  let value := decimalSide d.digits d.exponent k
  if x.significand % 2 = 0 then low ≤ value && value ≤ high else low < value && value < high

/-- The multiple of `10 ^ e` that is nearest to `x` among those that read as `x`; the upper one of two equally near.
It is enough to look at the two multiples on either side of `x`. -/
def nearestAt (x : Binary64) (e : Int) : Option Decimal :=
  let value := dyadicSide x.significand e x.scale
  let unit := decimalSide 1 e x.scale
  let below : Decimal := ⟨value / unit, e⟩
  let above : Decimal := ⟨value / unit + 1, e⟩
  match x.readsFrom below, x.readsFrom above with
  | true, true => if 2 * value < (2 * below.digits + 1) * unit then some below else some above
  | true, false => some below
  | false, true => some above
  | false, false => none

/-- The exponent of a power of ten above the positive double `x`, found from the place of its highest bit: the decimal
logarithm of two is just below `30103 / 100000`. -/
def topExponent (x : Binary64) : Int := (x.significand.log2 + x.scale) * 30103 / 100000 + 2

/-- The shortest decimal that reads as the positive finite double `x`, and of those the nearest to it. -/
def shortest (x : Binary64) : Decimal :=
  ((exponentsFrom x.topExponent).findSome? x.nearestAt).getD ⟨0, 0⟩

end Binary64

end ImpC
