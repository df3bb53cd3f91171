import DigitiserSums.Proofs.TriggerPlaces
import DigitiserSums.Proofs.WholeNumbers

/-!
# Edges of rounded sums

Beyond twenty-four binary digits a sum is rounded before it meets a threshold, and distinct sums may
become one number. Rounding keeps the order of numbers, though: whatever its precision does, a power
of two is between the rounded numbers that it was between before. So an edge is counted only where
the sums themselves go its way, and a run of sums that go one way has one edge at most.
-/

namespace DigitiserSums

/-! ## Rounding keeps the order -/

namespace Binary

theorem roundTo_one (n : Nat) :
    roundTo 24 n 1 = roundHalfEven n (2 ^ excess 24 n) * 2 ^ excess 24 n := by
  simp only [roundTo, Nat.div_one, Nat.shiftLeft_eq, Nat.one_mul]

theorem roundTo_of_excess_eq_zero {n : Nat} (h : excess 24 n = 0) : roundTo 24 n 1 = n := by
  rw [roundTo_one, h, Nat.pow_zero, roundHalfEven_one, Nat.mul_one]

/-- Rounding up may carry into a further digit, but only to the power of two itself. -/
theorem roundTo_le_two_pow {n m : Nat} (h : n < 2 ^ m) : roundTo 24 n 1 ≤ 2 ^ m := by
  rcases Nat.eq_zero_or_pos (excess 24 n) with hzero | hpos
  · rw [roundTo_of_excess_eq_zero hzero]
    exact Nat.le_of_lt h
  · have hn : n ≠ 0 := by
      rintro rfl
      exact absurd hpos (by decide)
    have hdigits : 24 + excess 24 n ≤ m := by
      have hlog := (Nat.log2_lt hn).2 h
      unfold excess at hpos ⊢
      omega
    have hlead : roundHalfEven n (2 ^ excess 24 n) ≤ 2 ^ 24 :=
      Nat.le_trans (roundHalfEven_le n _) (leading_lt n)
    calc roundTo 24 n 1 = roundHalfEven n (2 ^ excess 24 n) * 2 ^ excess 24 n := roundTo_one n
      _ ≤ 2 ^ 24 * 2 ^ excess 24 n := Nat.mul_le_mul_right _ hlead
      _ = 2 ^ (24 + excess 24 n) := (Nat.pow_add 2 24 _).symm
      _ ≤ 2 ^ m := Nat.pow_le_pow_right Nat.two_pos hdigits

theorem two_pow_le_roundTo {n m : Nat} (h : 2 ^ m ≤ n) : 2 ^ m ≤ roundTo 24 n 1 := by
  rcases Nat.eq_zero_or_pos (excess 24 n) with hzero | hpos
  · rwa [roundTo_of_excess_eq_zero hzero]
  · have hn : n ≠ 0 := Nat.ne_of_gt (Nat.lt_of_lt_of_le (Nat.two_pow_pos m) h)
    have hdigits : m ≤ 23 + excess 24 n := by
      have hlog := (Nat.le_log2 hn).2 h
      unfold excess at hpos ⊢
      omega
    have hlead : 2 ^ 23 ≤ roundHalfEven n (2 ^ excess 24 n) :=
      Nat.le_trans (le_leading hpos) (le_roundHalfEven n _)
    calc 2 ^ m ≤ 2 ^ (23 + excess 24 n) := Nat.pow_le_pow_right Nat.two_pos hdigits
      _ = 2 ^ 23 * 2 ^ excess 24 n := Nat.pow_add 2 23 _
      _ ≤ roundHalfEven n (2 ^ excess 24 n) * 2 ^ excess 24 n := Nat.mul_le_mul_right _ hlead
      _ = roundTo 24 n 1 := (roundTo_one n).symm

theorem roundTo_mono {a b : Nat} (h : a ≤ b) : roundTo 24 a 1 ≤ roundTo 24 b 1 := by
  by_cases hdigits : a.log2 = b.log2
  · -- Both have the same digits beyond the precision.
    have hexcess : excess 24 a = excess 24 b := by rw [excess, excess, hdigits]
    rw [roundTo_one, roundTo_one, hexcess]
    exact Nat.mul_le_mul_right _ (roundHalfEven_mono h)
  · -- A power of two lies between them.
    have hb : b ≠ 0 := by
      rintro rfl
      exact hdigits (by rw [Nat.le_zero.1 h])
    have hbelow : 2 ^ b.log2 ≤ b := Nat.log2_self_le hb
    have habove : a < 2 ^ b.log2 := by
      by_contra hge
      have ha : a ≠ 0 := Nat.ne_of_gt (Nat.lt_of_lt_of_le (Nat.two_pow_pos _) (Nat.not_lt.1 hge))
      have hle := (Nat.le_log2 ha).2 (Nat.not_lt.1 hge)
      have hge := (Nat.le_log2 hb).2 (Nat.le_trans (Nat.log2_self_le ha) h)
      omega
    exact Nat.le_trans (roundTo_le_two_pow habove) (two_pow_le_roundTo hbelow)

end Binary

theorem Single.stepsOfNat_mono {a b : Nat} (h : a ≤ b) : stepsOfNat a ≤ stepsOfNat b :=
  Nat.mul_le_mul_right _ (Binary.roundTo_mono h)

/-! ## The way of a kind -/

namespace EdgeKind

/-- The order of numbers in which crossings of the kind go upwards. -/
def Le : EdgeKind → Nat → Nat → Prop
  | rising, p, c => p ≤ c
  | falling, p, c => c ≤ p

def Lt : EdgeKind → Nat → Nat → Prop
  | rising, p, c => p < c
  | falling, p, c => c < p

instance (k : EdgeKind) (p c : Nat) : Decidable (k.Le p c) := by
  cases k <;> exact inferInstanceAs (Decidable (_ ≤ _))

instance (k : EdgeKind) (p c : Nat) : Decidable (k.Lt p c) := by
  cases k <;> exact inferInstanceAs (Decidable (_ < _))

variable {k : EdgeKind} {a b c : Nat}

theorem Le.refl (k : EdgeKind) (a : Nat) : k.Le a a := by
  cases k <;> exact Nat.le_refl a

theorem Le.trans (hab : k.Le a b) (hbc : k.Le b c) : k.Le a c := by
  cases k with
  | rising => exact Nat.le_trans hab hbc
  | falling => exact Nat.le_trans hbc hab

theorem not_lt : ¬ k.Lt a b ↔ k.Le b a := by
  cases k <;> exact Nat.not_lt

/-- Numbers further on are further on once they are rounded. -/
theorem Beyond.of_le {t : Int} (h : k.Beyond t (Single.stepsOfNat a)) (hab : k.Le a b) :
    k.Beyond t (Single.stepsOfNat b) := by
  cases k with
  | rising => exact Int.le_trans h (Int.ofNat_le.2 (Single.stepsOfNat_mono hab))
  | falling => exact Int.le_trans (Int.ofNat_le.2 (Single.stepsOfNat_mono hab)) h

end EdgeKind

/-- In a run that goes the way of a kind, each number is as far on as any before it. -/
theorem le_getD_of_isChain {k : EdgeKind} {run : List Nat} (h : run.IsChain k.Le) {i j : Nat}
    (hij : i ≤ j) (hj : j < run.length) : k.Le (run.getD i 0) (run.getD j 0) := by
  induction j, hij using Nat.le_induction with
  | base => exact EdgeKind.Le.refl k _
  | succ j hij ih =>
      have hstep := h.getElem j hj
      rw [← List.getD_eq_getElem _ 0, ← List.getD_eq_getElem _ 0] at hstep
      exact (ih (Nat.lt_of_succ_lt hj)).trans hstep

/-! ## Crossings in a run -/

namespace EdgeSettings

variable {e : EdgeSettings} {sums front run : List Nat} {i j m n : Nat}

/-- Sums cross only where they go the way of the kind. -/
theorem CrossesAt.lt (h : e.CrossesAt sums i) :
    e.kind.Lt (sums.getD (i - 1) 0) (sums.getD i 0) := by
  obtain ⟨-, -, hbefore, hbeyond⟩ := crossesAt_iff.1 h
  by_contra hle
  exact hbefore (EdgeKind.Beyond.of_le hbeyond (EdgeKind.not_lt.1 hle))

theorem beyondAt_append_right (h : front.length ≤ i) :
    e.BeyondAt (front ++ run) i ↔ e.BeyondAt run (i - front.length) := by
  unfold BeyondAt
  rw [List.getD_append_right _ _ _ _ h]

/-- In a run that goes the way of the kind, the sums stay beyond once they are. -/
theorem not_crossesAt_of_crossesAt (h : run.IsChain e.kind.Le) (hi : front.length ≤ i) (hij : i < j)
    (hcross : e.CrossesAt (front ++ run) i) : ¬ e.CrossesAt (front ++ run) j := by
  intro hagain
  obtain ⟨-, hj, hbefore, -⟩ := crossesAt_iff.1 hagain
  have hbeyond := (crossesAt_iff.1 hcross).2.2.2
  rw [List.length_append] at hj
  rw [beyondAt_append_right hi] at hbeyond
  rw [beyondAt_append_right (by omega)] at hbefore
  exact hbefore (hbeyond.of_le (le_getD_of_isChain h (by omega) (by omega)))

/-- In a run that goes the other way, no sum crosses from the one before it. -/
theorem not_crossesAt_of_isChain (h : run.IsChain fun p c => e.kind.Le c p)
    (hi : front.length < i) : ¬ e.CrossesAt (front ++ run) i := by
  intro hcross
  have hlt := hcross.lt
  have hlength := hcross.2.1
  rw [List.length_append] at hlength
  rw [List.getD_append_right _ _ _ _ (by omega), List.getD_append_right _ _ _ _ (by omega)] at hlt
  have hstep := h.getElem (i - 1 - front.length) (by omega)
  rw [← List.getD_eq_getElem _ 0, ← List.getD_eq_getElem _ 0,
    show i - 1 - front.length + 1 = i - front.length by omega] at hstep
  exact EdgeKind.not_lt.2 hstep hlt

theorem counted_eq_of_not_crossesAt (hmn : m ≤ n)
    (h : ∀ i, m ≤ i → i < n → ¬ e.CrossesAt sums i) : e.counted sums n = e.counted sums m := by
  induction n, hmn using Nat.le_induction with
  | base => rfl
  | succ n hmn ih =>
      rw [counted_succ, if_neg fun hcounts => h n hmn (Nat.lt_succ_self n) hcounts.1]
      exact ih fun i hi hin => h i hi (Nat.lt_succ_of_lt hin)

/-- Where there is one crossing at most, one counts at most. -/
theorem length_counted_le_succ (hmn : m ≤ n)
    (h : ∀ i j, m ≤ i → i < j → e.CrossesAt sums i → ¬ e.CrossesAt sums j) :
    (e.counted sums n).length ≤ (e.counted sums m).length + 1 := by
  by_cases hnone : ∀ i, m ≤ i → i < n → ¬ e.CrossesAt sums i
  · rw [counted_eq_of_not_crossesAt hmn hnone]
    omega
  · push Not at hnone
    obtain ⟨i, hmi, hin, hcross⟩ := hnone
    have hbefore : e.counted sums i = e.counted sums m :=
      counted_eq_of_not_crossesAt hmi fun j hmj hji hj => h j i hmj hji hj hcross
    have hafter : e.counted sums n = e.counted sums (i + 1) :=
      counted_eq_of_not_crossesAt hin fun j hij _ => h i j hmi hij hcross
    rw [hafter, counted_succ, hbefore]
    split
    · rw [List.length_append, List.length_singleton]
    · omega

end EdgeSettings

/-! ## Edges that are counted -/

namespace EdgeCounter

variable {c : EdgeCounter} {sums : List Nat}

/-- The edges that a counter has once it has taken sums: those of the triggers that it raised at
them and those left over. -/
def edgesAfter (c : EdgeCounter) (items : List (Position × Total)) : Nat :=
  c.settings.edgeNum.toNat * (c.triggers items).length + (scan signalAt c items).2.edges.toNat

theorem Holds.edgesAfter_add (h : c.Holds sums) (items : List (Position × Total)) :
    c.edgesAfter items + (c.settings.counted sums sums.length).length =
      c.edges.toNat + (c.settings.counted (sums ++ sumsOf items)
        (sums ++ sumsOf items).length).length := by
  have hgroups := h.length_triggers items
  have hedges := (h.scan items).edges_eq
  have hbefore := Nat.div_add_mod (c.settings.counted sums sums.length).length
    c.settings.edgeNum.toNat
  have hafter := Nat.div_add_mod (c.settings.counted (sums ++ sumsOf items)
    (sums ++ sumsOf items).length).length c.settings.edgeNum.toNat
  rw [settings_scan] at hedges
  rw [← hgroups, ← hedges, Nat.mul_add] at hafter
  rw [← h.edges_eq] at hbefore
  unfold edgesAfter
  omega

/-- An edge is counted only at a sum that goes the way of the kind from the one before it. -/
theorem Holds.lt_of_edge (h : c.Holds sums) {index : Position} {sum : Total}
    (hedge : c.edges.toNat < c.edgesAfter [(index, sum)]) :
    ∃ previous ∈ sums.getLast?, c.settings.kind.Lt previous sum.toNat := by
  have hadd := h.edgesAfter_add [(index, sum)]
  have hcounted := c.settings.counted_concat sums sum.toNat
  by_cases hcross : c.settings.CrossesAt (sums ++ [sum.toNat]) sums.length
  · obtain ⟨front, previous, rfl⟩ := List.eq_nil_or_concat' sums |>.resolve_left fun hnil => by
      rw [hnil] at hcross
      exact Nat.lt_irrefl 0 hcross.1
    have hlt := hcross.lt
    have hold : (front ++ [previous] ++ [sum.toNat]).getD ((front ++ [previous]).length - 1) 0 =
        previous := by simp
    have hnew : (front ++ [previous] ++ [sum.toNat]).getD (front ++ [previous]).length 0 =
        sum.toNat := by simp
    rw [hold, hnew] at hlt
    exact ⟨previous, by simp, hlt⟩
  · rw [if_neg fun hcounts => hcross hcounts.1] at hcounted
    simp only [sumsOf, List.map_cons, List.map_nil, List.length_append, List.length_singleton,
      hcounted] at hadd
    omega

theorem Holds.edgesAfter_le (h : c.Holds sums) {items : List (Position × Total)}
    (hrun : (sumsOf items).IsChain c.settings.kind.Le) :
    c.edgesAfter items ≤ c.edges.toNat + 1 := by
  have hadd := h.edgesAfter_add items
  have hlength : sums.length ≤ (sums ++ sumsOf items).length := by simp
  have hone : (c.settings.counted (sums ++ sumsOf items) (sums ++ sumsOf items).length).length ≤
      (c.settings.counted (sums ++ sumsOf items) sums.length).length + 1 :=
    EdgeSettings.length_counted_le_succ hlength fun _ _ hi hij =>
      EdgeSettings.not_crossesAt_of_crossesAt hrun hi hij
  rw [EdgeSettings.counted_append _ (Nat.le_refl _)] at hone
  omega

theorem Holds.edgesAfter_eq (h : c.Holds sums) {items : List (Position × Total)}
    (hrun : (sums.getLast?.toList ++ sumsOf items).IsChain fun p s => c.settings.kind.Le s p) :
    c.edgesAfter items = c.edges.toNat := by
  have hadd := h.edgesAfter_add items
  have hnone : ∀ i, sums.length ≤ i → i < (sums ++ sumsOf items).length →
      ¬ c.settings.CrossesAt (sums ++ sumsOf items) i := by
    intro i hi _ hcross
    rcases List.eq_nil_or_concat' sums with rfl | ⟨front, last, rfl⟩
    · have hnil : ([] : List Nat).length < i := hcross.1
      exact EdgeSettings.not_crossesAt_of_isChain hrun hnil hcross
    · have hlast : (front ++ [last]).getLast?.toList = [last] := by simp
      rw [hlast] at hrun
      rw [List.append_assoc] at hcross
      refine EdgeSettings.not_crossesAt_of_isChain hrun ?_ hcross
      rw [List.length_append, List.length_singleton] at hi
      omega
  rw [EdgeSettings.counted_eq_of_not_crossesAt (by simp) hnone,
    EdgeSettings.counted_append _ (Nat.le_refl _)] at hadd
  omega

/-- Sums of any size are taken by a counter, whatever it was shown before. It counts an edge only at
a sum that goes the way of its kind from the sum before, strictly and before any rounding. At sums
that go the way of the kind, each at least as far as the one before, it counts one edge at most; and
at sums that go the other way, the last sum before them included, it counts none. -/
theorem edges_follow_sums {settings : EdgeSettings} {start : EdgeCounter}
    (hstart : ofSettings settings = .ok start) (steps : List Step) :
    let c := start.after steps
    let last := (shown steps).getLast?
    (∀ index sum, c.edges.toNat < c.edgesAfter [(index, sum)] →
      ∃ previous ∈ last, settings.kind.Lt previous sum.toNat) ∧
    (∀ items, (sumsOf items).IsChain settings.kind.Le →
      c.edgesAfter items ≤ c.edges.toNat + 1) ∧
    ∀ items, (last.toList ++ sumsOf items).IsChain (fun p s => settings.kind.Le s p) →
      c.edgesAfter items = c.edges.toNat := by
  intro c last
  obtain ⟨rfl, hholds⟩ := holds_start hstart
  have h : c.Holds (shown steps) := hholds.after steps
  have hc : c.settings = start.settings := start.settings_after steps
  rw [← hc]
  exact ⟨fun _ _ hedge => h.lt_of_edge hedge, fun _ hrun => h.edgesAfter_le hrun,
    fun _ hrun => h.edgesAfter_eq hrun⟩

/-- The threshold is `2 ^ 24 + 2`; around it odd sums are rounded to a multiple of four. -/
theorem edges_follow_sums_of_large_sums :
    let settings : EdgeSettings := { threshold := ⟨0x4B800001⟩ }
    let steps : List Step := [.signal 0 16777215, .signal 1 16777217]
    let rise : List (Position × Total) :=
      [(2, 16777217), (3, 16777219), (4, 16777219), (5, 16777221)]
    let fall : List (Position × Total) := [(2, 16777217), (3, 16777216), (4, 16777215)]
    ∃ start, ofSettings settings = .ok start ∧
      (start.after steps).triggers rise = [⟨3, 16777219, 1⟩] ∧
      (start.after steps).edgesAfter rise ≤ 1 ∧ (start.after steps).edgesAfter fall = 0 := by
  intro settings steps rise fall
  obtain ⟨start, hstart, hedges, htriggers⟩ : ∃ start, ofSettings settings = .ok start ∧
      (start.after steps).edges.toNat = 0 ∧
      (start.after steps).triggers rise = [⟨3, 16777219, 1⟩] :=
    ⟨⟨settings, none, 0, 0, by decide, by decide⟩,
      (dif_neg (by decide)).trans (dif_pos (by decide)), by decide +kernel, by decide +kernel⟩
  obtain ⟨-, hrise, hfall⟩ := edges_follow_sums hstart steps
  rw [hedges] at hrise hfall
  exact ⟨start, hstart, htriggers, hrise rise (by decide), hfall fall (by decide)⟩

end EdgeCounter

end DigitiserSums
