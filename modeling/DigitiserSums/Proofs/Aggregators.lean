import DigitiserSums.Proofs.Ring

/-!
# What an aggregator holds and emits

Each aggregator is described by the samples taken since its last restart. A push hands out the sum
that is due and nothing else, and the words that keep running totals do not wrap: for blocks because
only samples in range are taken, for windows because of the size of the ring.
-/

namespace DigitiserSums

/-! ## Folded samples as numbers -/

namespace Rectifier

variable {w : SampleWidth}

/-- The samples after folding, as natural numbers. -/
def numbers (r : Rectifier w) (xs : List Sample) : List Nat :=
  xs.map fun x => (r.rectify x).toNat

@[simp] theorem length_numbers (r : Rectifier w) (xs : List Sample) :
    (r.numbers xs).length = xs.length := by
  simp [numbers]

theorem numbers_concat (r : Rectifier w) (xs : List Sample) (s : Sample) :
    r.numbers (xs ++ [s]) = r.numbers xs ++ [(r.rectify s).toNat] := by
  simp [numbers]

theorem toNat_rectify_le (r : Rectifier w) {s : Sample} (hs : s ≤ w.fullScale) :
    (r.rectify s).toNat ≤ w.fullScale.toNat := by
  have hle : s.toNat ≤ w.fullScale.toNat := UInt16.le_iff_toNat_le.1 hs
  by_cases hen : r.enabled = true
  · by_cases hm : w.midpoint ≤ s
    · rw [r.rectify_of_midpoint_le hm]
      exact hle
    · have hlt : s.toNat < w.midpoint.toNat := UInt16.lt_iff_toNat_lt.1 (UInt16.not_le.1 hm)
      have htop := w.toNat_fullScale_eq
      rw [toNat_rectify hen (UInt16.not_le.1 hm)]
      cases r.policy with
      | reflect => exact Nat.sub_le _ _
      | offset =>
          change s.toNat + w.midpoint.toNat ≤ w.fullScale.toNat
          omega
  · rw [rectify_of_not_enabled (by simpa using hen)]
    exact hle

theorem numbers_le (r : Rectifier w) {xs : List Sample} (h : ∀ x ∈ xs, x ≤ w.fullScale) :
    ∀ n ∈ r.numbers xs, n ≤ w.fullScale.toNat := by
  intro n hn
  obtain ⟨x, hx, rfl⟩ := List.mem_map.1 hn
  exact r.toNat_rectify_le (h x hx)

end Rectifier

/-! ## Blocks -/

namespace Decimator

variable {w : SampleWidth} {limit : BlockLimit w} {d : Decimator w limit} {xs : List Sample}

/-- The decimator after `xs` was taken, all of it in range. -/
structure Holds (d : Decimator w limit) (xs : List Sample) : Prop where
  pending_eq : d.pending = xs.length % d.factor
  toNat_total : d.total.toNat = newestSum d.pending (d.rectifier.numbers xs)
  inRange : ∀ x ∈ xs, x ≤ w.fullScale

theorem holds_fresh (r : Rectifier w) (factor : Nat) (hp : 0 < factor) (hl : factor ≤ limit.max) :
    (fresh r factor hp hl : Decimator w limit).Holds [] := by
  refine ⟨?_, ?_, by simp⟩
  · simp [fresh]
  · simp [fresh]

theorem holds_restart (d : Decimator w limit) : d.restart.Holds [] :=
  holds_fresh _ _ _ _

namespace Holds

/-- A block under way has room for the next sample. -/
theorem toNat_total_add_lt (h : d.Holds xs) {s : Sample} (hs : s ≤ w.fullScale) :
    d.total.toNat + (d.rectifier.rectify s).toNat < UInt32.size := by
  have hsum := newestSum_le (n := d.pending) (d.rectifier.numbers_le h.inRange)
  have hnew := d.rectifier.toNat_rectify_le hs
  have hblock : (d.pending + 1) * w.fullScale.toNat ≤ limit.max * w.fullScale.toNat := by
    have hp := d.pending_lt
    have hl := d.factor_le
    exact Nat.mul_le_mul_right _ (by omega)
  have hfit := limit.max_fit
  rw [← w.toNat_fullScale] at hfit
  rw [Nat.succ_mul] at hblock
  rw [h.toNat_total]
  omega

theorem toNat_add (h : d.Holds xs) {s : Sample} (hs : s ≤ w.fullScale) :
    (d.total + (d.rectifier.rectify s).toUInt32).toNat =
      newestSum (d.pending + 1) (d.rectifier.numbers (xs ++ [s])) := by
  have hlt := h.toNat_total_add_lt hs
  rw [UInt32.toNat_add, UInt16.toNat_toUInt32, d.rectifier.numbers_concat, newestSum_concat,
    ← h.toNat_total]
  exact Nat.mod_eq_of_lt hlt

theorem dvd_iff (h : d.Holds xs) : d.factor ∣ xs.length + 1 ↔ d.pending + 1 = d.factor := by
  have hlt := d.pending_lt
  rw [Nat.dvd_iff_mod_eq_zero, Nat.add_mod, ← h.pending_eq]
  by_cases hone : d.factor = 1
  · rw [hone] at hlt ⊢
    omega
  · have hpos := d.factor_pos
    rw [Nat.mod_eq_of_lt (show 1 < d.factor by omega)]
    by_cases hfull : d.pending + 1 = d.factor
    · rw [hfull, Nat.mod_self]
      exact ⟨fun _ => rfl, fun _ => rfl⟩
    · rw [Nat.mod_eq_of_lt (by omega)]
      omega

/-- The sum of the block is handed out with its last sample. -/
theorem push_fst (h : d.Holds xs) {s : Sample} (hs : s ≤ w.fullScale) :
    (d.push s).1.map UInt32.toNat =
      (Aggregation.downsample d.factor).due (d.rectifier.numbers (xs ++ [s])) := by
  have hadd := h.toNat_add hs
  have hdvd := h.dvd_iff
  simp only [Decimator.push, Aggregation.due, Rectifier.length_numbers, List.length_append,
    List.length_singleton]
  by_cases hfull : d.pending + 1 = d.factor
  · rw [dif_pos hfull, if_pos (hdvd.2 hfull), Option.map_some, hadd, hfull]
  · rw [dif_neg hfull, if_neg (fun hd => hfull (hdvd.1 hd)), Option.map_none]

theorem push (h : d.Holds xs) {s : Sample} (hs : s ≤ w.fullScale) :
    (d.push s).2.Holds (xs ++ [s]) := by
  have hadd := h.toNat_add hs
  have hall : ∀ x ∈ xs ++ [s], x ≤ w.fullScale := by
    intro x hx
    rcases List.mem_append.1 hx with hx | hx
    · exact h.inRange x hx
    · rw [List.mem_singleton.1 hx]
      exact hs
  refine ⟨?_, ?_, hall⟩
  · rw [pending_push, factor_push, h.pending_eq, List.length_append, List.length_singleton,
      Nat.mod_add_mod]
  · rw [rectifier_push]
    simp only [Decimator.push]
    by_cases hfull : d.pending + 1 = d.factor
    · rw [dif_pos hfull]
      simp
    · rw [dif_neg hfull]
      exact hadd

end Holds

end Decimator

/-! ## Windows -/

namespace MovingSum

variable {w : SampleWidth} {c : Capacity} {m : MovingSum w c} {xs : List Sample}

/-- The moving sum after `xs` was taken. -/
structure Holds (m : MovingSum w c) (xs : List Sample) : Prop where
  buffer : m.buffer.Holds (xs.map m.rectifier.rectify)
  filled_eq : m.filled = min xs.length m.width

theorem holds_fresh (r : Rectifier w) {b : RingBuffer c} (hb : b.Holds []) :
    (fresh r b : MovingSum w c).Holds [] := by
  refine ⟨hb, ?_⟩
  simp [fresh]

theorem holds_restart (m : MovingSum w c) : m.restart.Holds [] :=
  holds_fresh _ m.buffer.holds_clear

namespace Holds

theorem toNat_total (h : m.Holds xs) :
    m.total.toNat = newestSum m.width (m.rectifier.numbers xs) := by
  have ht := h.buffer.toNat_total
  rw [List.map_map] at ht
  exact ht

theorem push (h : m.Holds xs) (s : Sample) : (m.push s).2.Holds (xs ++ [s]) := by
  refine ⟨?_, ?_⟩
  · have hb := h.buffer.push (m.rectifier.rectify s)
    rw [rectifier_push, List.map_append, List.map_singleton]
    exact hb
  · rw [filled_push, width_push, h.filled_eq, List.length_append, List.length_singleton]
    omega

/-- The sum of the window is handed out once there are samples enough. -/
theorem push_fst (h : m.Holds xs) (s : Sample) :
    (m.push s).1.map UInt32.toNat =
      (Aggregation.movingSum m.width).due (m.rectifier.numbers (xs ++ [s])) := by
  have hnext := h.push s
  have htotal := hnext.toNat_total
  have hwarm : (m.push s).2.IsWarm ↔ m.width ≤ xs.length + 1 := by
    rw [IsWarm, hnext.filled_eq, width_push, List.length_append, List.length_singleton]
    omega
  rw [width_push, rectifier_push] at htotal
  rw [MovingSum.push_fst]
  simp only [Aggregation.due, Rectifier.length_numbers, List.length_append, List.length_singleton]
  by_cases hw : m.width ≤ xs.length + 1
  · rw [if_pos (hwarm.2 hw), if_pos hw, Option.map_some, htotal]
  · rw [if_neg (fun hd => hw (hwarm.1 hd)), if_neg hw, Option.map_none]

end Holds

end MovingSum

/-! ## Either of them -/

namespace Pipeline

variable {p : Pipeline} {xs : List Sample}

/-- Which aggregator a pipeline uses, and its size. -/
def aggregation : Pipeline → Aggregation
  | downsample d => .downsample d.factor
  | movingSum m => .movingSum m.width

/-- The pipeline after `xs` was taken, all of it in range. -/
def Holds (p : Pipeline) (xs : List Sample) : Prop :=
  match p with
  | downsample d => d.Holds xs
  | movingSum m => m.Holds xs

theorem size_aggregation_pos (p : Pipeline) : 0 < p.aggregation.size := by
  cases p with
  | downsample d => exact d.factor_pos
  | movingSum m => exact m.buffer.width_pos

theorem size_aggregation_le (p : Pipeline) : p.aggregation.size ≤ 255 := by
  cases p with
  | downsample d => exact d.factor_le
  | movingSum m => exact Nat.le_trans m.buffer.width_le (by decide)

@[simp] theorem aggregation_push (p : Pipeline) (s : Sample) :
    (p.push s).2.aggregation = p.aggregation := by
  cases p with
  | downsample d => exact congrArg Aggregation.downsample (d.factor_push s)
  | movingSum m => rfl

@[simp] theorem aggregation_restart (p : Pipeline) : p.restart.aggregation = p.aggregation := by
  cases p <;> rfl

theorem holds_restart (p : Pipeline) : p.restart.Holds [] := by
  cases p with
  | downsample d => exact d.holds_restart
  | movingSum m => exact m.holds_restart

/-- A pipeline that can be built is the one asked for, at its start. -/
theorem holds_ofAggregation {a : Aggregation} {r : Rectifier deployedWidth}
    (h : ofAggregation a r = .ok p) : p.aggregation = a ∧ p.rectifier = r ∧ p.Holds [] := by
  cases a with
  | downsample factor =>
      rw [ofAggregation] at h
      by_cases hallowed : 1 ≤ factor ∧ factor ≤ deployedLimit.max
      · rw [Decimator.ofFactor_of_allowed r hallowed] at h
        cases h
        exact ⟨rfl, rfl, Decimator.holds_fresh _ _ _ _⟩
      · rw [Decimator.ofFactor_of_not_allowed r hallowed] at h
        contradiction
  | movingSum width =>
      rw [ofAggregation] at h
      by_cases hallowed : 1 ≤ width ∧ width ≤ deployedCapacity.slots
      · rw [MovingSum.ofWidth_of_allowed r hallowed] at h
        cases h
        exact ⟨rfl, rfl, MovingSum.holds_fresh _ (RingBuffer.holds_zeros _ _)⟩
      · rw [MovingSum.ofWidth_of_not_allowed r hallowed] at h
        contradiction

theorem Holds.push (h : p.Holds xs) {s : Sample} (hs : s ≤ deployedWidth.fullScale) :
    (p.push s).2.Holds (xs ++ [s]) := by
  cases p with
  | downsample d => exact Decimator.Holds.push h hs
  | movingSum m => exact MovingSum.Holds.push h s

/-- A push hands out the sum that is due. -/
theorem Holds.push_fst (h : p.Holds xs) {s : Sample} (hs : s ≤ deployedWidth.fullScale) :
    (p.push s).1.map UInt32.toNat = p.aggregation.due (p.rectifier.numbers (xs ++ [s])) := by
  cases p with
  | downsample d => exact Decimator.Holds.push_fst h hs
  | movingSum m => exact MovingSum.Holds.push_fst h s

end Pipeline

end DigitiserSums
