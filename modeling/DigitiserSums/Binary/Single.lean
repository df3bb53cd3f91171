import DigitiserSums.Binary.Format

/-!
# Numbers of the 32-bit binary format

A number is its bit pattern. A finite one has an exact value, `steps`, counted in the format's
smallest step `2 ^ -149`; two finite numbers compare as their steps do.
-/

namespace DigitiserSums

open Binary

/-- A number of the 32-bit binary floating-point format, by its bit pattern. -/
structure Single where
  /-- Sign, exponent and fraction, from the highest bit down. -/
  bits : UInt32
deriving DecidableEq, Repr

namespace Single

/-- The eight bits below the sign. -/
def exponentField (x : Single) : Nat :=
  x.bits.toNat / 0x800000 % 256

/-- The lowest twenty-three bits. -/
def fraction (x : Single) : Nat :=
  x.bits.toNat % 0x800000

def isNegative (x : Single) : Bool :=
  0x80000000 ≤ x.bits.toNat

/-- Neither infinite nor NaN. -/
def IsFinite (x : Single) : Prop :=
  x.exponentField ≠ 255

instance (x : Single) : Decidable x.IsFinite :=
  inferInstanceAs (Decidable (_ ≠ _))

def magnitude (x : Single) : Nat :=
  if x.exponentField = 0 then x.fraction
  else (0x800000 + x.fraction) <<< (x.exponentField - 1)

/-- The exact value of a finite number, in steps of `2 ^ -149`. -/
def steps (x : Single) : Int :=
  if x.isNegative then -x.magnitude else x.magnitude

/-- The bits of a magnitude: consecutive magnitudes have consecutive patterns, and the one after the
greatest finite pattern is infinity. -/
def patternOfMagnitude : Option Nat → Nat
  | none => 255 * 0x800000
  | some steps =>
    let k := excess 24 steps
    k * 0x800000 + steps >>> k

/-- The number with the given sign and magnitude, infinite for `none`. -/
def ofMagnitude (negative : Bool) (magnitude : Option Nat) : Single :=
  ⟨.ofNat ((if negative then 0x80000000 else 0) + patternOfMagnitude magnitude)⟩

/-- The not-a-number with only the highest fraction bit set. -/
def nan : Single := ⟨0x7FC00000⟩

/-- Steps of the number nearest to a natural number, ties to even. Every natural number other than
zero is at least one, far above the smallest steps, so only the precision limits it. -/
def stepsOfNat (n : Nat) : Nat :=
  roundTo 24 n 1 * Format.single.unit

theorem stepsOfNat_of_lt {n : Nat} (h : n < 1 <<< 24) : stepsOfNat n = n * Format.single.unit := by
  rw [stepsOfNat, roundTo_of_lt h (by decide)]

def nonFiniteText (x : Single) : String :=
  if x.fraction ≠ 0 then "NaN" else if x.isNegative then "-inf" else "inf"

end Single

end DigitiserSums
