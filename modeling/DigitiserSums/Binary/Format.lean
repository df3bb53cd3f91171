import DigitiserSums.Binary.Rounding

/-!
# Binary floating-point formats

Magnitudes of a format are counted in its smallest step, so that every finite one is a natural
number and arithmetic on them is exact arithmetic followed by one rounding. A magnitude beyond the
greatest finite one is `none`.
-/

namespace DigitiserSums.Binary

/-- A binary floating-point format. -/
structure Format where
  /-- The number of significant binary digits. -/
  precision : Nat
  /-- One step of the smallest magnitudes is `2 ^ -unitExponent`. -/
  unitExponent : Nat
  /-- Every finite magnitude is below `2 ^ topExponent`. -/
  topExponent : Nat
deriving DecidableEq, Repr

def Format.single : Format := ⟨24, 149, 128⟩

def Format.double : Format := ⟨53, 1074, 1024⟩

namespace Format

/-- The number of steps that make one. -/
def unit (f : Format) : Nat :=
  1 <<< f.unitExponent

/-- The least count of steps that is out of range. -/
def limit (f : Format) : Nat :=
  f.unit <<< f.topExponent

/-- Rounds `num / den` steps, or `none` beyond the range. -/
def round (f : Format) (num den : Nat) : Option Nat :=
  let steps := roundTo f.precision num den
  if steps < f.limit then some steps else none

def ofRatio (f : Format) (num den : Nat) : Option Nat :=
  f.round (num * f.unit) den

def mul (f : Format) (a b : Nat) : Option Nat :=
  f.round (a * b) f.unit

/-- The rounded quotient of two magnitudes, the divisor not zero. -/
def div (f : Format) (a b : Nat) : Option Nat :=
  f.round (a * f.unit) b

/-- The magnitude of another format with these steps, in the steps of this one. -/
def convert (f g : Format) (steps : Nat) : Option Nat :=
  g.ofRatio steps f.unit

end Format

end DigitiserSums.Binary
