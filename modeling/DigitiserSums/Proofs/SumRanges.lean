import DigitiserSums.Proofs.BlockRuns
import DigitiserSums.Proofs.Folding

/-!
# Sums stay in the range of their samples

A sum of so many samples lies between as many of the least and as many of the largest codes that
folding leaves. That needs a sum to be made of samples alone: one handed out before its window had
filled would count a zero. From one window to the next one sample leaves and one enters, so that a
moving sum moves by no more than two samples can differ.
-/

namespace DigitiserSums

/-! ## Bounds of the newest numbers -/

theorem le_newestSum {n m : Nat} {xs : List Nat} (hn : n ≤ xs.length) (h : ∀ x ∈ xs, m ≤ x) :
    n * m ≤ newestSum n xs := by
  induction n with
  | zero => simp
  | succ n ih =>
      have hlast : m ≤ xs.reverse.getD n 0 := by
        rw [List.getD_eq_getElem _ _ (by simpa using hn)]
        exact h _ (List.mem_reverse.1 (List.getElem_mem _))
      have hrest := ih (by omega)
      rw [newestSum_succ, Nat.succ_mul]
      omega

/-- The sum over a full window changes by what leaves and enters. -/
theorem newestSum_concat_sub_le {n low high x : Nat} {xs : List Nat} (hn : 0 < n)
    (hle : n ≤ xs.length) (h : ∀ y ∈ xs ++ [x], low ≤ y ∧ y ≤ high) :
    ((newestSum n (xs ++ [x]) : Int) - newestSum n xs).natAbs ≤ high - low := by
  obtain ⟨k, rfl⟩ := Nat.exists_eq_succ_of_ne_zero (Nat.ne_of_gt hn)
  have holdest : xs.reverse.getD k 0 ∈ xs := by
    rw [List.getD_eq_getElem _ _ (by simpa using hle)]
    exact List.mem_reverse.1 (List.getElem_mem _)
  have hleaves := h _ (List.mem_append_left _ holdest)
  have henters := h x (List.mem_append_right _ List.mem_cons_self)
  -- The two windows share all numbers but the oldest and `x`.
  rw [newestSum_concat, newestSum_succ]
  omega

/-- The last window is that of the newest numbers. -/
theorem eq_newestSum_of_getLast?_windowSums {n sum : Nat} {xs : List Nat}
    (h : sum ∈ (windowSums n xs).getLast?) : n ≤ xs.length ∧ sum = newestSum n xs := by
  by_cases hle : n ≤ xs.length
  · have hcount : xs.length + 1 - n = xs.length - n + 1 := by omega
    rw [windowSums, hcount, List.range_succ, List.map_append, List.map_singleton,
      List.getLast?_concat, sum_take_drop_eq_newestSum (by omega)] at h
    exact ⟨hle, (Option.some.inj h).symm⟩
  · have hcount : xs.length + 1 - n = 0 := by omega
    rw [windowSums, hcount] at h
    cases h

namespace Aggregation

theorem size_le_of_due {a : Aggregation} {sum : Nat} {xs : List Nat} (hne : xs ≠ [])
    (h : a.due xs = some sum) : a.size ≤ xs.length := by
  cases a with
  | downsample factor =>
      exact Nat.le_of_dvd (List.length_pos_iff.2 hne) (Option.ite_none_right_eq_some.1 h).1
  | movingSum width => exact (Option.ite_none_right_eq_some.1 h).1

theorem le_due {a : Aggregation} {m sum : Nat} {xs : List Nat} (hne : xs ≠ [])
    (h : ∀ x ∈ xs, m ≤ x) (hsum : a.due xs = some sum) : a.size * m ≤ sum :=
  eq_newestSum_of_due hsum ▸ le_newestSum (size_le_of_due hne hsum) h

end Aggregation

/-! ## Sums of folded samples -/

namespace SampleWidth

theorem toNat_fullScale_eq_two_pow (w : SampleWidth) : w.fullScale.toNat = 2 ^ w.bits - 1 := by
  rw [toNat_fullScale, codes, Nat.one_shiftLeft]

theorem toNat_midpoint_eq_two_pow (w : SampleWidth) : w.midpoint.toNat = 2 ^ (w.bits - 1) := by
  rw [toNat_midpoint, half, Nat.one_shiftLeft]

end SampleWidth

namespace Rectifier

variable {w : SampleWidth} {r : Rectifier w} {xs : List Sample}

/-- A sum of `n` samples in the range that the rectifier leaves. -/
structure WithinRange (r : Rectifier w) (n : Nat) (sum : Total) : Prop where
  le : sum.toNat ≤ n * (2 ^ w.bits - 1)
  ge : r.enabled = true → n * 2 ^ (w.bits - 1) ≤ sum.toNat

theorem le_numbers (h : r.enabled = true) (xs : List Sample) :
    ∀ n ∈ r.numbers xs, w.midpoint.toNat ≤ n := by
  intro n hn
  obtain ⟨x, -, rfl⟩ := List.mem_map.1 hn
  exact UInt16.le_iff_toNat_le.1 (midpoint_le_rectify h x)

theorem withinRange_of_due {a : Aggregation} {sum : Total} (hne : xs ≠ [])
    (hxs : ∀ x ∈ xs, x ≤ w.fullScale) (hdue : a.due (r.numbers xs) = some sum.toNat) :
    r.WithinRange a.size sum := by
  constructor
  · rw [← w.toNat_fullScale_eq_two_pow]
    exact Aggregation.due_le (r.numbers_le hxs) hdue
  · intro h
    have hne' : r.numbers xs ≠ [] := mt List.map_eq_nil_iff.1 hne
    rw [← w.toNat_midpoint_eq_two_pow]
    exact Aggregation.le_due hne' (le_numbers h xs) hdue

end Rectifier

/-! ## Steps that emit -/

namespace Aggregator

/-- The sum that a step emitted. -/
def Reply.sum? : Reply → Option Total
  | .pushed sum => sum
  | .tried (.ok sum) => sum
  | _ => none

/-- Only the push of a sample in range emits a sum. -/
theorem exists_push_of_sum? {α : Type} [Resizable α] {a : α} {top : Sample}
    (htry : ∀ x, tryPush a x = if x ≤ top then .ok (push a x) else .error ⟨x, top⟩) {st : Step}
    (hst : st.InRange top) {sum : Total} (h : (step a st).1.sum? = some sum) :
    ∃ x ≤ top, (push a x).1 = some sum := by
  cases st with
  | push x => exact ⟨x, hst, h⟩
  | tryPush x =>
      by_cases hx : x ≤ top
      · simp only [step, htry, if_pos hx] at h
        exact ⟨x, hx, h⟩
      · simp only [step, htry, if_neg hx] at h
        cases h
  | restart => cases h
  | reset size =>
      simp only [step] at h
      split at h <;> cases h

end Aggregator

open Aggregator

theorem Decimator.HoldsStretch.withinRange_push {w : SampleWidth} {limit : BlockLimit w}
    {d : Decimator w limit} {r : Rectifier w} {t : Stretch} {sums : List Total}
    (h : d.HoldsStretch r t sums) {x : Sample} (hx : x ≤ w.fullScale) {sum : Total}
    (hsum : (d.push x).1 = some sum) : r.WithinRange d.factor sum := by
  have hdue := h.samples.push_fst hx
  rw [hsum, h.rectifier_eq] at hdue
  exact Rectifier.withinRange_of_due (a := .downsample d.factor) (by simp)
    (h.samples.push hx).inRange hdue.symm

namespace MovingSum

variable {w : SampleWidth} {c : Capacity} {m : MovingSum w c} {r : Rectifier w} {t : Stretch}
  {width : Nat} {sums : List Total}

/-- The moving sum after a stretch of samples in range, with the sums that it gave. -/
structure HasGiven (m : MovingSum w c) (r : Rectifier w) (t : Stretch) (sums : List Total) :
    Prop where
  stretch : m.HoldsStretch r t
  inRange : ∀ x ∈ t.samples, x ≤ w.fullScale
  sums_eq : sums.map UInt32.toNat = (Aggregation.movingSum t.size).sums (r.numbers t.samples)

theorem hasGiven_of_no_samples {size : Nat} (h : m.HoldsStretch r { size }) :
    m.HasGiven r { size } [] := by
  have hpos : 0 < size := Nat.lt_of_lt_of_eq m.buffer.width_pos h.width_eq
  exact ⟨h, List.forall_mem_nil _, (Aggregation.sums_nil (a := .movingSum size) hpos).symm⟩

namespace HasGiven

theorem inRange_take (h : m.HasGiven r t sums) {x : Sample} (hx : x ≤ w.fullScale) :
    ∀ y ∈ (t.take x).samples, y ≤ w.fullScale :=
  List.forall_mem_append.2 ⟨h.inRange, List.forall_mem_singleton.2 hx⟩

theorem due_of_push (h : m.HasGiven r t sums) (x : Sample) :
    (m.push x).1.map UInt32.toNat =
      (Aggregation.movingSum t.size).due (r.numbers (t.take x).samples) := by
  have hdue := h.stretch.samples.push_fst x
  rwa [h.stretch.width_eq, h.stretch.rectifier_eq] at hdue

theorem push (h : m.HasGiven r t sums) {x : Sample} (hx : x ≤ w.fullScale) :
    (m.push x).2.HasGiven r (t.take x) (sums ++ (m.push x).1.toList) :=
  ⟨h.stretch.push x, h.inRange_take hx, Rectifier.map_toNat_append_due h.sums_eq (h.due_of_push x)⟩

/-- Every step that is in range keeps account of the sums given. -/
theorem step (h : m.HasGiven r t sums) {st : Step} (hst : st.InRange w.fullScale) :
    (step m st).2.HasGiven r (extend w.fullScale c.slots t st)
      (givenNext sums (step m st).1) := by
  refine step_keeps (P := (HasGiven · r)) m.tryPush_eq (fun _ => h.push)
    (hasGiven_of_no_samples (h.stretch.next .restart)) (fun width => ?_) h hst
  have hreset : Resizable.reset m width = ofWidth width r :=
    congrArg (ofWidth width) h.stretch.rectifier_eq
  rw [hreset]
  split
  · next hallowed =>
      exact ⟨_, ofWidth_of_allowed r hallowed,
        hasGiven_of_no_samples (holdsStretch_fresh r hallowed)⟩
  · next hallowed => exact ⟨_, ofWidth_of_not_allowed r hallowed⟩

theorem withinRange_push (h : m.HasGiven r t sums) {x : Sample} (hx : x ≤ w.fullScale)
    {sum : Total} (hsum : (m.push x).1 = some sum) : r.WithinRange m.width sum := by
  have hdue := h.due_of_push x
  rw [hsum, ← h.stretch.width_eq] at hdue
  exact Rectifier.withinRange_of_due (a := .movingSum m.width) (by simp [Stretch.take])
    (h.inRange_take hx) hdue.symm

/-- A sum differs from the one before it by no more than two folded samples do. -/
theorem natAbs_push_sub_le (h : m.HasGiven r t sums) (henabled : r.enabled = true) {x : Sample}
    (hx : x ≤ w.fullScale) {sum previous : Total} (hsum : (m.push x).1 = some sum)
    (hprevious : previous ∈ sums.getLast?) :
    ((sum.toNat : Int) - previous.toNat).natAbs ≤ 2 ^ (w.bits - 1) - 1 := by
  -- The sum before it was given for the window as it was before the push.
  have hlast : previous.toNat ∈ (windowSums t.size (r.numbers t.samples)).getLast? := by
    have hsums : sums.map UInt32.toNat = windowSums t.size (r.numbers t.samples) := h.sums_eq
    rw [← hsums, List.getLast?_map]
    exact Option.mem_map_of_mem _ hprevious
  obtain ⟨hfull, hprevious⟩ := eq_newestSum_of_getLast?_windowSums hlast
  have hdue := h.due_of_push x
  rw [hsum] at hdue
  have hnew := Aggregation.eq_newestSum_of_due hdue.symm
  have hrange : ∀ y ∈ r.numbers (t.take x).samples,
      w.midpoint.toNat ≤ y ∧ y ≤ w.fullScale.toNat := fun y hy =>
    ⟨Rectifier.le_numbers henabled _ y hy, r.numbers_le (h.inRange_take hx) y hy⟩
  have hpos : 0 < t.size := Nat.lt_of_lt_of_eq m.buffer.width_pos h.stretch.width_eq
  rw [Stretch.take, r.numbers_concat] at hnew hrange
  have hdiff := newestSum_concat_sub_le hpos hfull hrange
  have hhalf : w.fullScale.toNat - w.midpoint.toNat = 2 ^ (w.bits - 1) - 1 := by
    have htop := w.toNat_fullScale_eq
    rw [← w.toNat_midpoint_eq_two_pow]
    omega
  rw [hnew, hprevious, ← hhalf]
  exact hdiff

end HasGiven

end MovingSum

/-! ## Any run -/

namespace Aggregator

/-- Take either aggregator, of any allowed size, and any steps of which those that push without a
check push samples in range. If the next such step emits a sum, then the sum is at most as many
times the largest code as samples go into it, and with folding at least as many times the midpoint.
With folding, a sum over a window differs from the one given before it since the last start, if
there is one, by no more than the largest code differs from the midpoint. -/
theorem emitted_within_range {w : SampleWidth} (r : Rectifier w) (limit : BlockLimit w)
    (c : Capacity) :
    (∀ factor, 1 ≤ factor ∧ factor ≤ limit.max →
      ∃ start : Decimator w limit, Decimator.ofFactor factor r = .ok start ∧
        ∀ (steps : List Step) (st : Step), (∀ st' ∈ st :: steps, st'.InRange w.fullScale) →
          let d := after start steps
          ∀ sum, (step d st).1.sum? = some sum → r.WithinRange d.factor sum) ∧
    ∀ width, 1 ≤ width ∧ width ≤ c.slots →
      ∃ start : MovingSum w c, MovingSum.ofWidth width r = .ok start ∧
        ∀ (steps : List Step) (st : Step), (∀ st' ∈ st :: steps, st'.InRange w.fullScale) →
          let m := after start steps
          ∀ sum, (step m st).1.sum? = some sum →
            r.WithinRange m.width sum ∧
              (r.enabled = true → ∀ previous ∈ (given (scan step start steps).1).getLast?,
                ((sum.toNat : Int) - previous.toNat).natAbs ≤ 2 ^ (w.bits - 1) - 1) := by
  constructor
  · intro factor hfactor
    refine ⟨_, Decimator.ofFactor_of_allowed r hfactor, fun steps st hsteps => ?_⟩
    obtain ⟨hst, hsteps⟩ := List.forall_mem_cons.1 hsteps
    have h := (Decimator.holdsStretch_fresh r hfactor).scan hsteps
    rw [scan_step_snd] at h
    intro d sum hsum
    obtain ⟨x, hx, hpush⟩ := exists_push_of_sum? d.tryPush_eq hst hsum
    exact h.withinRange_push hx hpush
  · intro width hwidth
    refine ⟨_, MovingSum.ofWidth_of_allowed r hwidth, fun steps st hsteps => ?_⟩
    obtain ⟨hst, hsteps⟩ := List.forall_mem_cons.1 hsteps
    have hstart := MovingSum.hasGiven_of_no_samples (MovingSum.holdsStretch_fresh r hwidth)
    have h := scan_keeps (P := (MovingSum.HasGiven · r)) (fun hst h => h.step hst) hstart hsteps
    rw [scan_step_snd] at h
    intro m sum hsum
    obtain ⟨x, hx, hpush⟩ := exists_push_of_sum? m.tryPush_eq hst hsum
    exact ⟨h.withinRange_push hx hpush, fun henabled previous =>
      h.natAbs_push_sub_le henabled hx hpush⟩

theorem emitted_within_range_of_four_bits :
    let w : SampleWidth := { bits := 4 }
    let limit : BlockLimit w := ⟨5, by decide⟩
    let c : Capacity := { slots := 3 }
    let r : Rectifier w := { enabled := true, policy := .offset }
    let steps : List Step := [.push 15, .reset 3, .push 0, .push 8, .tryPush 16]
    (1 ≤ 2 ∧ 2 ≤ limit.max) ∧ (1 ≤ 2 ∧ 2 ≤ c.slots) ∧
      (∀ st ∈ Step.push 15 :: (steps ++ [.tryPush 15]), st.InRange w.fullScale) ∧
      (∃ start : Decimator w limit, Decimator.ofFactor 2 r = .ok start ∧
        (step (after start steps) (.tryPush 15)).1.sum? = some 31 ∧ r.WithinRange 3 31) ∧
      ∃ start : MovingSum w c, MovingSum.ofWidth 2 r = .ok start ∧
        (step (after start (steps ++ [.tryPush 15])) (.push 15)).1.sum? = some 38 ∧
        r.WithinRange 3 38 ∧ r.enabled = true ∧
        31 ∈ (given (scan step start (steps ++ [.tryPush 15])).1).getLast? ∧
        ((38 : Int) - 31).natAbs ≤ 2 ^ (w.bits - 1) - 1 := by
  intro w limit c r steps
  have hsteps : ∀ st ∈ Step.push 15 :: (steps ++ [.tryPush 15]), st.InRange w.fullScale := by
    decide
  have hblocks : ∀ st ∈ Step.tryPush 15 :: steps, st.InRange w.fullScale := by decide
  have hd := Decimator.ofFactor_of_allowed r (show 1 ≤ 2 ∧ 2 ≤ limit.max by decide)
  have hm := MovingSum.ofWidth_of_allowed r (show 1 ≤ 2 ∧ 2 ≤ c.slots by decide)
  obtain ⟨hdecimators, hmovingSums⟩ := emitted_within_range r limit c
  obtain ⟨d, hdstart, hdrun⟩ := hdecimators 2 (by decide)
  obtain ⟨m, hmstart, hmrun⟩ := hmovingSums 2 (by decide)
  cases hd.symm.trans hdstart
  cases hm.symm.trans hmstart
  have hblock := hdrun steps _ hblocks 31 (by decide)
  obtain ⟨hwindow, hstep⟩ := hmrun (steps ++ [.tryPush 15]) _ hsteps 38 (by decide)
  exact ⟨by decide, by decide, hsteps, ⟨_, hd, by decide, hblock⟩,
    ⟨_, hm, by decide, hwindow, rfl, by decide, hstep rfl 31 (by decide)⟩⟩

end Aggregator

end DigitiserSums
