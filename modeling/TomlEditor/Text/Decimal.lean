/-!
# Decimal numbers

A number as a decimal numeral gives it, before it is rounded to a float: a
significand times a power of ten. The range of the floats is that of 64 bits.
-/

namespace TomlEditor.Text

/-- The number `significand * 10 ^ exponent`. -/
structure Decimal where
  significand : Nat
  exponent : Int
deriving DecidableEq, Repr

/-- The least number that is rounded up to infinity: it lies half way between the largest float
and `2 ^ 1024`. -/
def infinityBound : Nat :=
  Nat.pow 2 1024 - Nat.pow 2 970

namespace Decimal

/-- The exponent of the least power of ten above a number other than zero. -/
def order (decimal : Decimal) : Int :=
  (Nat.toDigits 10 decimal.significand).length + decimal.exponent

/-- Whether the nearest float is infinity. The bound is of order 309, so that only numbers of that
order are compared with it. -/
def isInfinite (decimal : Decimal) : Bool :=
  if decimal.significand = 0 || decimal.order < 309 then false
  else if 309 < decimal.order then true
  else
    infinityBound * Nat.pow 10 (-decimal.exponent).toNat ≤
      decimal.significand * Nat.pow 10 decimal.exponent.toNat

end Decimal

end TomlEditor.Text
