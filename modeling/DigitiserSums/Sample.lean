/-!
# Samples, sums and positions

A digitiser delivers codes of a fixed width, at most sixteen bits; sums of them are 32-bit words and
positions in a stream 64-bit words. The last part fixes the width and the sizes of the deployed
program.
-/

namespace DigitiserSums

/-- One code of a digitiser. -/
abbrev Sample := UInt16

abbrev Total := UInt32

/-- The place of a sample or of a sum in its stream, counted from zero. -/
abbrev Position := UInt64

/-- The number of bits of a digitiser's codes. -/
structure SampleWidth where
  bits : Nat
  bits_pos : 0 < bits := by decide
  bits_le : bits ≤ 16 := by decide
deriving DecidableEq, Repr

namespace SampleWidth

def codes (w : SampleWidth) : Nat :=
  1 <<< w.bits

/-- The number of codes of either half of the range. -/
def half (w : SampleWidth) : Nat :=
  1 <<< (w.bits - 1)

/-- The largest code of the width. -/
def fullScale (w : SampleWidth) : Sample :=
  .ofNat (w.codes - 1)

/-- The least code of the upper half of the range. -/
def midpoint (w : SampleWidth) : Sample :=
  .ofNat w.half

theorem half_pos (w : SampleWidth) : 0 < w.half := by
  rw [half, Nat.one_shiftLeft]
  exact Nat.two_pow_pos _

theorem codes_eq (w : SampleWidth) : w.codes = 2 * w.half := by
  have h := w.bits_pos
  rw [codes, half, Nat.one_shiftLeft, Nat.one_shiftLeft, ← Nat.pow_succ']
  congr 1
  omega

theorem codes_le (w : SampleWidth) : w.codes ≤ UInt16.size := by
  rw [codes, Nat.one_shiftLeft]
  exact Nat.pow_le_pow_right Nat.two_pos w.bits_le

theorem toNat_fullScale (w : SampleWidth) : w.fullScale.toNat = w.codes - 1 := by
  have h := w.codes_le
  have hp := w.half_pos
  have he := w.codes_eq
  rw [fullScale, UInt16.toNat_ofNat_of_lt' (show _ < UInt16.size by omega)]

theorem toNat_midpoint (w : SampleWidth) : w.midpoint.toNat = w.half := by
  have h := w.codes_le
  have hp := w.half_pos
  have he := w.codes_eq
  rw [midpoint, UInt16.toNat_ofNat_of_lt' (show _ < UInt16.size by omega)]

/-- The upper half of the range starts one past the middle of the largest code. -/
theorem toNat_fullScale_eq (w : SampleWidth) : w.fullScale.toNat = 2 * w.midpoint.toNat - 1 := by
  rw [toNat_fullScale, toNat_midpoint, codes_eq]

end SampleWidth

def deployedWidth : SampleWidth := ⟨10, by decide, by decide⟩

def deployedMaxWindow : Nat := 128

def deployedMaxFactor : Nat := 255

end DigitiserSums
