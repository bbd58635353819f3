/-!
# Double precision numbers by their bits

A float literal is kept as its 64-bit word, so that nothing about it is lost: the sign of zero, the kind of a NaN.
`Binary64.significand` and `Binary64.scale` give the magnitude of a finite number exactly, as
`significand * 2 ^ scale`. `Binary64.equal` is the comparison of numbers, under which a NaN differs from itself
and the two zeros are equal; equality of words is `=`.
-/

namespace ImpC

/-- A double precision number, given by its word. -/
structure Binary64 where
  bits : UInt64
  deriving DecidableEq, Repr, Inhabited

namespace Binary64

variable (x y : Binary64)

/-- The sign bit. -/
def negative : Bool := Nat.pow 2 63 ≤ x.bits.toNat

/-- The eleven exponent bits. -/
def exponentField : Nat := x.bits.toNat / Nat.pow 2 52 % Nat.pow 2 11

/-- The lower fifty-two bits. -/
def fraction : Nat := x.bits.toNat % Nat.pow 2 52

/-- All exponent bits are set and the fraction is not zero. -/
def isNaN : Bool := x.exponentField == 2047 && x.fraction != 0

/-- All exponent bits are set and the fraction is zero. -/
def isInfinite : Bool := x.exponentField == 2047 && x.fraction == 0

/-- Either zero. -/
def isZero : Bool := x.exponentField == 0 && x.fraction == 0

/-- The integer whose multiple by a power of two is the magnitude; subnormal numbers have no hidden bit. -/
def significand : Nat :=
  if x.exponentField = 0 then x.fraction else Nat.pow 2 52 + x.fraction

/-- The power of two that the significand is multiplied by. -/
def scale : Int := (max x.exponentField 1 : Nat) - 1075

/-- At a power of two the next smaller number is only half as far away as the next larger one. -/
def atBinade : Bool := x.fraction == 0 && 1 < x.exponentField

/-- Comparison as numbers: a NaN equals nothing, the two zeros are equal. -/
def equal : Bool :=
  !x.isNaN && !y.isNaN && (x == y || (x.isZero && y.isZero))

end Binary64

end ImpC
