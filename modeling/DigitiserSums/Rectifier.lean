import DigitiserSums.Refusal

/-!
# Folding the lower half of the range

The baseline of a digitiser lies near the middle of its range. Once the codes below the midpoint are
folded onto the upper half, pulses of either polarity add up as magnitudes. `toNat_rectify` says
what folding does in natural numbers: nothing wraps.
-/

namespace DigitiserSums

/-- How codes below the midpoint are folded. -/
inductive FoldPolicy where
  /-- Mirrored about the middle of the range. -/
  | reflect
  /-- Moved up by the midpoint. -/
  | offset
deriving DecidableEq, Repr

namespace FoldPolicy

instance : Inhabited FoldPolicy := ⟨reflect⟩

def all : List FoldPolicy := [reflect, offset]

/-- The name of a policy in descriptions and on the command line. -/
def name : FoldPolicy → String
  | reflect => "reflect"
  | offset => "offset"

theorem mem_all (p : FoldPolicy) : p ∈ all := by
  cases p <;> simp [all]

end FoldPolicy

/-- The transform applied to each sample ahead of an aggregator. -/
structure Rectifier (w : SampleWidth) where
  enabled : Bool := false
  policy : FoldPolicy := default
deriving DecidableEq, Repr

namespace Rectifier

variable {w : SampleWidth}

instance : Inhabited (Rectifier w) := ⟨{}⟩

/-- The sample, folded if it lies below the midpoint and folding is enabled. -/
def rectify (r : Rectifier w) (s : Sample) : Sample :=
  if !r.enabled || w.midpoint ≤ s then s
  else match r.policy with
    | .reflect => w.fullScale - s
    | .offset => s + w.midpoint

def check (_ : Rectifier w) (s : Sample) : Except SampleOutOfRange Sample :=
  if w.fullScale < s then .error ⟨s, w.fullScale⟩ else .ok s

theorem check_eq_ok_iff (r : Rectifier w) (s t : Sample) :
    r.check s = .ok t ↔ t = s ∧ s ≤ w.fullScale := by
  simp only [check]
  split
  · simp [UInt16.not_le, *]
  · simp_all [UInt16.not_lt, eq_comm]

theorem rectify_of_not_enabled {r : Rectifier w} (h : r.enabled = false) (s : Sample) :
    r.rectify s = s := by
  simp [rectify, h]

theorem rectify_of_midpoint_le (r : Rectifier w) {s : Sample} (h : w.midpoint ≤ s) :
    r.rectify s = s := by
  simp [rectify, h]

/-- Folding in natural numbers: neither the difference nor the sum leaves the range of a sample. -/
theorem toNat_rectify {r : Rectifier w} (h : r.enabled = true) {s : Sample} (hs : s < w.midpoint) :
    (r.rectify s).toNat = match r.policy with
      | .reflect => w.fullScale.toNat - s.toNat
      | .offset => s.toNat + w.midpoint.toNat := by
  have hm := w.toNat_fullScale_eq
  have hle : w.codes ≤ 65536 := w.codes_le
  have hf := w.toNat_fullScale
  have hlt : s.toNat < w.midpoint.toNat := UInt16.lt_iff_toNat_lt.1 hs
  have hnot : ¬ w.midpoint ≤ s := UInt16.not_le.2 hs
  simp only [rectify, h, hnot, Bool.not_true, decide_false, Bool.or_false, Bool.false_eq_true,
    if_false]
  cases r.policy with
  | reflect =>
    exact UInt16.toNat_sub_of_le _ _ (UInt16.le_iff_toNat_le.2 (by omega))
  | offset =>
    simp only [UInt16.toNat_add]
    exact Nat.mod_eq_of_lt (by omega)

end Rectifier

end DigitiserSums
