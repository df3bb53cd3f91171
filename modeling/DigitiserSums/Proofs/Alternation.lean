import DigitiserSums.Proofs.TriggerPlaces

/-!
# Rises and falls in turn

Two counters watch the same sums at the same threshold, one for rises and one for falls, and none of
the sums is the threshold itself. Then every sum lies on one of two sides, a rise is a change to the
one and a fall a change back, so that rises and falls take turns.
-/

namespace DigitiserSums

/-! ## The other way -/

namespace EdgeKind

def opposite : EdgeKind → EdgeKind
  | rising => falling
  | falling => rising

/-- Away from the threshold, a value is beyond it for one kind alone. -/
theorem beyond_opposite_iff (k : EdgeKind) {t v : Int} (h : v ≠ t) :
    k.opposite.Beyond t v ↔ ¬ k.Beyond t v := by
  cases k <;> simp only [opposite, Beyond] <;> omega

end EdgeKind

/-- What holds at one place and not at a later one is lost at some place in between. -/
theorem exists_lost_of_le {P : Nat → Prop} {i j : Nat} (hij : i ≤ j) (hi : P i) (hj : ¬ P j) :
    ∃ k, i ≤ k ∧ k < j ∧ P k ∧ ¬ P (k + 1) := by
  by_contra hkept
  push Not at hkept
  have hall : ∀ n, i ≤ n → n ≤ j → P n := by
    intro n hn
    induction n, hn using Nat.le_induction with
    | base => exact fun _ => hi
    | succ n hn ih => exact fun hlt => hkept n hn hlt (ih (Nat.le_of_lt hlt))
  exact hj (hall j hij (Nat.le_refl j))

namespace EdgeSettings

variable {e : EdgeSettings} {sums : List Nat} {i j : Nat}

/-- The same settings for crossings the other way. -/
def opposite (e : EdgeSettings) : EdgeSettings :=
  { e with kind := e.kind.opposite }

@[simp] theorem opposite_opposite (e : EdgeSettings) : e.opposite.opposite = e := by
  obtain ⟨threshold, kind, settlingTime, edgeNum⟩ := e
  cases kind <;> rfl

/-- None of the sums is the threshold once it is rounded. -/
def Avoids (e : EdgeSettings) (sums : List Nat) : Prop :=
  ∀ x ∈ sums, (Single.stepsOfNat x : Int) ≠ e.threshold.steps

namespace Avoids

theorem beyondAt_opposite_iff (h : e.Avoids sums) (hi : i < sums.length) :
    e.opposite.BeyondAt sums i ↔ ¬ e.BeyondAt sums i := by
  refine e.kind.beyond_opposite_iff ?_
  rw [List.getD_eq_getElem _ _ hi]
  exact h _ (List.getElem_mem hi)

theorem crossesAt_opposite_succ_iff (h : e.Avoids sums) :
    e.opposite.CrossesAt sums (i + 1) ↔
      i + 1 < sums.length ∧ e.BeyondAt sums i ∧ ¬ e.BeyondAt sums (i + 1) := by
  rw [crossesAt_succ_iff]
  refine and_congr_right fun hi => ?_
  rw [h.beyondAt_opposite_iff hi, h.beyondAt_opposite_iff (Nat.lt_of_succ_lt hi), not_not]

/-! ## Turns -/

theorem not_both (h : e.Avoids sums) (i : Nat) :
    ¬ (e.CrossesAt sums i ∧ e.opposite.CrossesAt sums i) := by
  rintro ⟨hcross, hback⟩
  obtain ⟨i, rfl⟩ := Nat.exists_eq_succ_of_ne_zero (Nat.ne_of_gt hcross.1)
  exact (crossesAt_succ_iff.1 hcross).2.1 (h.crossesAt_opposite_succ_iff.1 hback).2.1

/-- Before the sums cross again, they come back. -/
theorem exists_opposite_between (h : e.Avoids sums) (hi : e.CrossesAt sums i)
    (hj : e.CrossesAt sums j) (hij : i < j) :
    ∃ k, i < k ∧ k < j ∧ e.opposite.CrossesAt sums k := by
  obtain ⟨i, rfl⟩ := Nat.exists_eq_succ_of_ne_zero (Nat.ne_of_gt hi.1)
  obtain ⟨j, rfl⟩ := Nat.exists_eq_succ_of_ne_zero (Nat.ne_of_gt hj.1)
  have hbeyond := (crossesAt_succ_iff.1 hi).2.2
  obtain ⟨hlength, hbefore, -⟩ := crossesAt_succ_iff.1 hj
  obtain ⟨k, hik, hkj, hk, hlost⟩ := exists_lost_of_le (Nat.le_of_lt_succ hij) hbeyond hbefore
  exact ⟨k + 1, by omega, by omega,
    h.crossesAt_opposite_succ_iff.2 ⟨by omega, hk, hlost⟩⟩

end Avoids

end EdgeSettings

/-- Between two successive places of the first kind lies exactly one place of the second. -/
def Interleaved (A B : Nat → Prop) : Prop :=
  ∀ i j, i < j → A i → A j → (∀ k, i < k → k < j → ¬ A k) → ∃! k, i < k ∧ k < j ∧ B k

namespace EdgeSettings

variable {e : EdgeSettings} {sums : List Nat}

namespace Avoids

theorem opposite (h : e.Avoids sums) : e.opposite.Avoids sums :=
  h

/-- Crossings of either kind come singly between successive ones of the other: two of them would
have one of the other between them. -/
theorem interleaved (h : e.Avoids sums) :
    Interleaved (e.CrossesAt sums) (e.opposite.CrossesAt sums) := by
  intro i j hij hi hj hnone
  have hone : ∀ a b, i < a → b < j → e.opposite.CrossesAt sums a → e.opposite.CrossesAt sums b →
      ¬ a < b := by
    intro a b ha hb hacross hbcross hab
    obtain ⟨k, hak, hkb, hk⟩ := h.opposite.exists_opposite_between hacross hbcross hab
    rw [opposite_opposite] at hk
    exact hnone k (by omega) (by omega) hk
  obtain ⟨k, hik, hkj, hk⟩ := h.exists_opposite_between hi hj hij
  refine ⟨k, ⟨hik, hkj, hk⟩, fun m ⟨him, hmj, hm⟩ => ?_⟩
  have hle := hone k m hik hmj hk hm
  have hge := hone m k him hkj hm hk
  omega

end Avoids

/-! ## Numbers of turns -/

/-- Without a settling time every crossing counts. -/
theorem length_counted_succ (h : e.settlingTime = 0) (sums : List Nat) (n : Nat) :
    (e.counted sums (n + 1)).length =
      (e.counted sums n).length + if e.CrossesAt sums n then 1 else 0 := by
  have hfar : ∀ j ∈ e.counted sums n, e.settlingTime.toNat < n - j := by
    intro j hj
    have hlt := lt_of_mem_counted hj
    rw [h, UInt8.toNat_zero]
    omega
  rw [counted_succ]
  by_cases hcross : e.CrossesAt sums n
  · rw [if_pos ⟨hcross, hfar⟩, if_pos hcross, List.length_append, List.length_singleton]
  · rw [if_neg fun hcounts => hcross hcounts.1, if_neg hcross, Nat.add_zero]

/-- Crossings lead from the near side to the far side and the opposite ones back, so how many more
there are of either is told by the sides of the first and the last sum. -/
theorem Avoids.length_counted_add (h : e.Avoids sums) (hsettling : e.settlingTime = 0) {n : Nat}
    (hn : n < sums.length) :
    (e.counted sums (n + 1)).length + (if e.BeyondAt sums 0 then 1 else 0) =
      (e.opposite.counted sums (n + 1)).length + if e.BeyondAt sums n then 1 else 0 := by
  induction n with
  | zero => simp [counted, CrossesAt]
  | succ n ih =>
      have hbefore := ih (Nat.lt_of_succ_lt hn)
      have hcross : e.CrossesAt sums (n + 1) ↔ _ := crossesAt_succ_iff
      have hback := h.crossesAt_opposite_succ_iff (i := n)
      rw [length_counted_succ hsettling, length_counted_succ (e := e.opposite) hsettling]
      simp only [hcross, hback, hn, true_and]
      by_cases hside : e.BeyondAt sums n <;> by_cases hnext : e.BeyondAt sums (n + 1) <;>
        simp [hside, hnext] at hbefore ⊢ <;>
        omega

theorem Avoids.length_counted_le (h : e.Avoids sums) (hsettling : e.settlingTime = 0) :
    (e.counted sums sums.length).length ≤ (e.opposite.counted sums sums.length).length + 1 := by
  rcases Nat.eq_zero_or_pos sums.length with hzero | hpos
  · simp [hzero, counted]
  · have hturns := h.length_counted_add hsettling (Nat.sub_one_lt_of_lt hpos)
    rw [Nat.sub_add_cancel hpos] at hturns
    split at hturns <;> split at hturns <;> omega

/-- Without a settling time and with one edge to a trigger, every crossing is a trigger. -/
theorem triggersAt_iff_crossesAt (hsettling : e.settlingTime = 0) (hnum : e.edgeNum = 1) {i : Nat} :
    e.TriggersAt sums i ↔ e.CrossesAt sums i := by
  refine ⟨TriggersAt.crossesAt, fun hcross => ⟨?_, ?_⟩⟩
  · refine mem_counted_iff.2 ⟨Nat.lt_succ_self i, hcross, fun j _ hji => ?_⟩
    rw [hsettling, UInt8.toNat_zero]
    omega
  · rw [hnum]
    exact Nat.one_dvd _

end EdgeSettings

/-! ## Two counters -/

namespace EdgeCounter

variable {settings : EdgeSettings} {start : EdgeCounter}

theorem raisesAt_iff_crossesAt (hstart : ofSettings settings = .ok start)
    (hsettling : settings.settlingTime = 0) (hnum : settings.edgeNum = 1)
    (items : List (Position × Total)) (i : Nat) :
    start.RaisesAt items i ↔ settings.CrossesAt (sumsOf items) i := by
  obtain ⟨rfl, h⟩ := holds_start hstart
  rw [h.raisesAt_iff, List.nil_append, List.length_nil, Nat.zero_add]
  exact EdgeSettings.triggersAt_iff_crossesAt hsettling hnum

theorem length_triggers_eq (hstart : ofSettings settings = .ok start) (hnum : settings.edgeNum = 1)
    (items : List (Position × Total)) :
    (start.triggers items).length =
      (settings.counted (sumsOf items) (sumsOf items).length).length := by
  obtain ⟨rfl, h⟩ := holds_start hstart
  simpa [EdgeSettings.counted, hnum] using h.length_triggers items

/-- Let one counter look for rises and another for falls through a threshold that none of the sums
is rounded to, both without a settling time and with one edge to a trigger. They never raise a
trigger at the same sum, between two successive triggers of either lies exactly one of the other,
and neither raises two more than the other. -/
theorem rising_falling_alternate (threshold : Single) (hfinite : threshold.IsFinite)
    (items : List (Position × Total))
    (haway : ∀ item ∈ items, (Single.stepsOfNat item.2.toNat : Int) ≠ threshold.steps) :
    ∃ rising falling,
      ofSettings { threshold, kind := .rising, settlingTime := 0, edgeNum := 1 } = .ok rising ∧
      ofSettings { threshold, kind := .falling, settlingTime := 0, edgeNum := 1 } = .ok falling ∧
      (∀ i, ¬ (rising.RaisesAt items i ∧ falling.RaisesAt items i)) ∧
      Interleaved (rising.RaisesAt items) (falling.RaisesAt items) ∧
      Interleaved (falling.RaisesAt items) (rising.RaisesAt items) ∧
      (rising.triggers items).length ≤ (falling.triggers items).length + 1 ∧
      (falling.triggers items).length ≤ (rising.triggers items).length + 1 := by
  let up : EdgeSettings := { threshold, kind := .rising, settlingTime := 0, edgeNum := 1 }
  let down : EdgeSettings := { threshold, kind := .falling, settlingTime := 0, edgeNum := 1 }
  have hone : (1 : UInt8) ≠ 0 := by decide
  obtain ⟨rising, hrising⟩ := (ofSettings_isOk_iff up).2 ⟨hone, hfinite⟩
  obtain ⟨falling, hfalling⟩ := (ofSettings_isOk_iff down).2 ⟨hone, hfinite⟩
  have hup : up.Avoids (sumsOf items) := by
    intro x hx
    obtain ⟨item, hitem, rfl⟩ := List.mem_map.1 hx
    exact haway item hitem
  have hdown : down.Avoids (sumsOf items) := hup
  have hrises : rising.RaisesAt items = up.CrossesAt (sumsOf items) :=
    funext fun i => propext (raisesAt_iff_crossesAt hrising rfl rfl items i)
  have hfalls : falling.RaisesAt items = down.CrossesAt (sumsOf items) :=
    funext fun i => propext (raisesAt_iff_crossesAt hfalling rfl rfl items i)
  refine ⟨rising, falling, hrising, hfalling, ?_, ?_, ?_, ?_, ?_⟩
  · rw [hrises, hfalls]
    exact hup.not_both
  · rw [hrises, hfalls]
    exact hup.interleaved
  · rw [hrises, hfalls]
    exact hdown.interleaved
  · rw [length_triggers_eq hrising rfl, length_triggers_eq hfalling rfl]
    exact hup.length_counted_le rfl
  · rw [length_triggers_eq hrising rfl, length_triggers_eq hfalling rfl]
    exact hdown.length_counted_le rfl

theorem rising_falling_alternate_of_swings :
    let items : List (Position × Total) :=
      [(0, 0), (1, 20), (2, 15), (3, 5), (4, 30), (5, 12), (6, 1), (7, 11)]
    ∃ rising falling,
      ofSettings { threshold := ⟨0x41200000⟩, kind := .rising } = .ok rising ∧
      ofSettings { threshold := ⟨0x41200000⟩, kind := .falling } = .ok falling ∧
      rising.RaisesAt items 1 ∧ falling.RaisesAt items 3 ∧ rising.RaisesAt items 4 ∧
      Interleaved (rising.RaisesAt items) (falling.RaisesAt items) ∧
      (falling.triggers items).length = 2 ∧ (rising.triggers items).length ≤ 3 := by
  intro items
  have haway : ∀ item ∈ items,
      (Single.stepsOfNat item.2.toNat : Int) ≠ (Single.mk 0x41200000).steps :=
    List.forall_iff_forall_mem.1 (by decide +kernel)
  obtain ⟨rising, falling, hrising, hfalling, -, hturns, -, hmore, -⟩ :=
    rising_falling_alternate ⟨0x41200000⟩ (by decide) items haway
  refine ⟨rising, falling, hrising, hfalling, ?_⟩
  have htriggers : rising.RaisesAt items 1 ∧ falling.RaisesAt items 3 ∧
      rising.RaisesAt items 4 ∧ (falling.triggers items).length = 2 := by
    cases hrising
    cases hfalling
    exact ⟨⟨⟨1, 20, 1⟩, by decide +kernel⟩, ⟨⟨3, 5, 1⟩, by decide +kernel⟩,
      ⟨⟨4, 30, 1⟩, by decide +kernel⟩, by decide +kernel⟩
  obtain ⟨hfirst, hfall, hsecond, htwo⟩ := htriggers
  rw [htwo] at hmore
  exact ⟨hfirst, hfall, hsecond, hturns, htwo, hmore⟩

end EdgeCounter

end DigitiserSums
