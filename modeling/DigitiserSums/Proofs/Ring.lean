import DigitiserSums.Proofs.Sums

/-!
# What a ring holds

A ring is described by the samples pushed since it was last cleared. Its slots give the newest of
them back, and its total is their exact sum over the window: the word that keeps it never leaves its
range, since the sample taken away is one of those added before.
-/

namespace DigitiserSums

namespace RingBuffer

variable {c : Capacity} {b : RingBuffer c} {xs : List Sample}

/-- The ring after `xs` was pushed, the newest last; zeros stand for samples never pushed. -/
structure Holds (b : RingBuffer c) (xs : List Sample) : Prop where
  sampleAt_eq : ∀ age < c.slots, b.sampleAt age = xs.reverse.getD age 0
  toNat_total : b.total.toNat = newestSum b.width (xs.map UInt16.toNat)

theorem holds_zeros {width : Nat} (hp : 0 < width) (hl : width ≤ c.slots) :
    (zeros width hp hl : RingBuffer c).Holds [] := by
  refine ⟨?_, ?_⟩
  · intro age _
    rw [sampleAt_zeros hp hl]
    rfl
  · simp [zeros]

theorem holds_clear (b : RingBuffer c) : b.clear.Holds [] :=
  holds_zeros b.width_pos b.width_le

/-- Even a full window of the widest samples fits a total. -/
theorem newestSum_lt (b : RingBuffer c) (xs : List Sample) :
    newestSum b.width (xs.map UInt16.toNat) < UInt32.size := by
  have hall : ∀ x ∈ xs.map UInt16.toNat, x ≤ UInt16.size - 1 := by
    intro x hx
    obtain ⟨s, -, rfl⟩ := List.mem_map.1 hx
    exact Nat.le_sub_one_of_lt s.toNat_lt
  have hsum := newestSum_le (n := b.width) hall
  have hwidth := Nat.mul_le_mul_right (UInt16.size - 1) b.width_le
  have hfit := c.slots_fit
  omega

namespace Holds

/-- What leaves the window was the oldest part of its sum. -/
theorem newestSum_width (h : b.Holds xs) (value : Sample) :
    newestSum b.width (xs.map UInt16.toNat) =
      newestSum (b.width - 1) (xs.map UInt16.toNat) + (b.push value).1.toNat := by
  have hp := b.width_pos
  have hl := b.width_le
  have hw : b.width = b.width - 1 + 1 := by omega
  rw [push_fst, h.sampleAt_eq _ (by omega)]
  conv_lhs => rw [hw]
  rw [newestSum_succ, ← List.map_reverse]
  congr 1
  by_cases hn : b.width - 1 < xs.reverse.length
  · rw [List.getD_eq_getElem _ _ hn, List.getD_eq_getElem _ _ (by simpa using hn), List.getElem_map]
  · have hlen : xs.reverse.length ≤ b.width - 1 := by omega
    rw [List.getD_eq_default _ _ hlen, List.getD_eq_default _ _ (by simpa using hlen)]
    rfl

/-- The sample taken away is part of the total. -/
theorem toNat_evicted_le (h : b.Holds xs) (value : Sample) :
    (b.push value).1.toNat ≤ b.total.toNat := by
  rw [h.toNat_total, h.newestSum_width value]
  exact Nat.le_add_left _ _

/-- What remains of the total has room for the new sample. -/
theorem toNat_total_sub_add_lt (h : b.Holds xs) (value : Sample) :
    b.total.toNat - (b.push value).1.toNat + value.toNat < UInt32.size := by
  have hw : b.width = b.width - 1 + 1 := by have hp := b.width_pos; omega
  have hlt := b.newestSum_lt (xs ++ [value])
  rw [hw, List.map_append, List.map_singleton, newestSum_concat] at hlt
  rw [h.toNat_total, h.newestSum_width value, Nat.add_sub_cancel]
  exact hlt

/-- So the total is updated in natural numbers. -/
theorem toNat_total_push (h : b.Holds xs) (value : Sample) :
    (b.push value).2.total.toNat =
      b.total.toNat - (b.push value).1.toNat + value.toNat := by
  have hle := h.toNat_evicted_le value
  have hlt := h.toNat_total_sub_add_lt value
  change (b.total - (b.push value).1.toUInt32 + value.toUInt32).toNat = _
  have hsub : (b.total - (b.push value).1.toUInt32).toNat =
      b.total.toNat - (b.push value).1.toNat := by
    rw [UInt32.toNat_sub_of_le _ _ (UInt32.le_iff_toNat_le.2 (by simpa using hle))]
    simp
  rw [UInt32.toNat_add, hsub, UInt16.toNat_toUInt32]
  exact Nat.mod_eq_of_lt hlt

theorem push (h : b.Holds xs) (value : Sample) : (b.push value).2.Holds (xs ++ [value]) := by
  have hw : b.width = b.width - 1 + 1 := by have hp := b.width_pos; omega
  refine ⟨?_, ?_⟩
  · intro age hage
    rw [List.reverse_append]
    cases age with
    | zero => exact sampleAt_push_zero b value
    | succ age =>
        rw [sampleAt_push_succ b value hage, h.sampleAt_eq age (by omega)]
        rfl
  · rw [h.toNat_total_push value, h.toNat_total, h.newestSum_width value, Nat.add_sub_cancel,
      width_push, List.map_append, List.map_singleton]
    conv_rhs => rw [hw]
    rw [newestSum_concat]

end Holds

end RingBuffer

end DigitiserSums
