import DigitiserSums.Binary.Double
import DigitiserSums.Json.Token

/-!
# The value of a JSON number

A number without point and power of ten is an integer if it fits 64 bits; every other number is a
64-bit floating-point number. Its leading digits are gathered while they fit 64 bits and the others
only count as places; the significand so gathered is rounded, and then scaled by its power of ten.
-/

namespace DigitiserSums.Json

open Decimal Binary

inductive Number where
  /-- An integer of 64 bits. -/
  | integer (n : Int)
  | float (x : Double)
deriving DecidableEq, Repr

namespace Numeral

/-- Appends digits to `n` while the result fits 64 bits; gives the digits left over. -/
def gather (n : Nat) : List Digit → Nat × List Digit
  | [] => (n, [])
  | d :: digits =>
    if 10 * n + d.val < UInt64.size then gather (10 * n + d.val) digits else (n, d :: digits)

/-- The floating-point number nearest to a significand, scaled by a power of ten; `none` beyond the
range. -/
def toFloat? (isNegative : Bool) (significand : Nat) (power : Int) : Option Number := do
  let magnitude ← Format.double.ofRatio significand 1
  let scaled ← Double.scaleByTen magnitude power
  return .float ⟨isNegative, scaled⟩

/-- The value of a number as written; `none` if it is beyond the range of floating-point numbers. A
negative zero is no integer. -/
def toNumber? (n : Numeral) : Option Number :=
  let (whole, dropped) := gather 0 n.whole
  if dropped = [] ∧ n.fraction = [] ∧ n.exponent = none then
    if !n.isNegative then some (.integer whole)
    else if 0 < whole ∧ 2 * whole ≤ UInt64.size then some (.integer (-whole))
    else toFloat? true whole 0
  else
    let (significand, ignored) := gather whole n.fraction
    let places : Int := dropped.length - (n.fraction.length - ignored.length : Nat)
    toFloat? n.isNegative significand (places + n.exponent.getD 0)

end Numeral

/-- The number of the 32-bit format nearest to a value; a floating-point value is rounded a second
time. -/
def Number.toSingle : Number → Single
  | integer n => .ofInt n
  | float x => x.toSingle

end DigitiserSums.Json
