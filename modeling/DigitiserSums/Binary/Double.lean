import DigitiserSums.Binary.Single

/-!
# Finite numbers of the 64-bit binary format

A finite number is its sign and its magnitude in steps of `2 ^ -1074`. `scaleByTen` multiplies by a
power of ten in the arithmetic of the format: the powers up to the 308th are numbers of the format,
rounded once, and a smaller scale is reached by dividing by the 308th as often as needed.
-/

namespace DigitiserSums

open Binary

/-- A finite number of the 64-bit binary floating-point format. -/
structure Double where
  /-- Whether it bears a minus; zero may. -/
  isNegative : Bool
  /-- The magnitude, in steps of `2 ^ -1074`. -/
  magnitude : Nat
deriving DecidableEq, Repr

namespace Double

/-- The magnitude nearest to `10 ^ k`. -/
def tenPower (k : Nat) : Option Nat :=
  Format.double.ofRatio (Nat.pow 10 k) 1

/-- The magnitude times `10 ^ e`, or `none` beyond the range of the format. -/
def scaleByTen (magnitude : Nat) (e : Int) : Option Nat :=
  if e.natAbs ≤ 308 then do
    let power ← tenPower e.natAbs
    if 0 ≤ e then Format.double.mul magnitude power else Format.double.div magnitude power
  else if magnitude = 0 then some 0
  else if 0 ≤ e then none
  else do
    let power ← tenPower 308
    let smaller ← Format.double.div magnitude power
    scaleByTen smaller (e + 308)
termination_by e.natAbs

/-- The nearest number of the 32-bit format, infinite beyond its range. -/
def toSingle (x : Double) : Single :=
  .ofMagnitude x.isNegative (Format.double.convert Format.single x.magnitude)

end Double

def Single.ofInt (n : Int) : Single :=
  .ofMagnitude (n < 0) (Format.single.ofRatio n.natAbs 1)

end DigitiserSums
