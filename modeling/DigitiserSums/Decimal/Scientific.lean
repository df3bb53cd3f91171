import DigitiserSums.Binary.Format

/-!
# Decimals with a power of ten

A decimal is a significand with the power of ten of its last digit. Its nearest magnitude in a
binary format is found by one exact division; a decimal whose leading digit lies far outside the
format is settled by the place of that digit alone, so that a huge power of ten is never worked out.
-/

namespace DigitiserSums.Decimal

open Binary

/-- A decimal number without a sign, `significand * 10 ^ exponent`. -/
structure Scientific where
  significand : Nat
  /-- The power of ten of the last digit. -/
  exponent : Int
deriving DecidableEq, Repr

namespace Scientific

def digits (d : Scientific) : List Char :=
  Nat.toDigits 10 d.significand

/-- The place of the leading digit: a decimal other than zero is below ten to this power and not
below a tenth of that. -/
def place (d : Scientific) : Int :=
  d.digits.length + d.exponent

/-- The magnitude of a format nearest to the decimal, or `none` beyond the range of the format. -/
def toSteps (f : Format) (d : Scientific) : Option Nat :=
  if d.significand = 0 then some 0
  else if f.topExponent < d.place then none
  else if d.place < -f.unitExponent then some 0
  else if 0 ≤ d.exponent then f.ofRatio (d.significand * Nat.pow 10 d.exponent.toNat) 1
  else f.ofRatio d.significand (Nat.pow 10 (-d.exponent).toNat)

end Scientific

end DigitiserSums.Decimal
