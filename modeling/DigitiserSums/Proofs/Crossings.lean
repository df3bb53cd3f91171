import DigitiserSums.EdgeCounter
import Mathlib

/-!
# Counted crossings

What an edge counter should report, said with the whole list of sums at hand: a crossing is counted
unless an earlier counted one lies too near, and every so many counted crossings make a trigger. The
counter keeps one sum, one countdown and one count of all this, and `Holds` says how they stand for
it.
-/

namespace DigitiserSums

namespace EdgeSettings

variable (e : EdgeSettings)

/-- The sum at position `i` and the one before it lie on the two sides of the threshold. -/
def CrossesAt (sums : List Nat) (i : Nat) : Prop :=
  0 < i ∧ i < sums.length ∧
    e.kind.Crosses e.threshold.steps (Single.stepsOfNat (sums.getD (i - 1) 0))
      (Single.stepsOfNat (sums.getD i 0))

instance (sums : List Nat) (i : Nat) : Decidable (e.CrossesAt sums i) :=
  inferInstanceAs (Decidable (_ ∧ _ ∧ _))

/-- The positions below `i` of the crossings that count, in order. -/
def counted (sums : List Nat) : Nat → List Nat
  | 0 => []
  | i + 1 =>
      let earlier := counted sums i
      if e.CrossesAt sums i ∧ ∀ j ∈ earlier, e.settlingTime.toNat < i - j then earlier ++ [i]
      else earlier

/-- A crossing counts at position `i` and completes a trigger. -/
def TriggersAt (sums : List Nat) (i : Nat) : Prop :=
  i ∈ e.counted sums (i + 1) ∧ e.edgeNum.toNat ∣ (e.counted sums (i + 1)).length

instance (sums : List Nat) (i : Nat) : Decidable (e.TriggersAt sums i) :=
  inferInstanceAs (Decidable (_ ∧ _))

/-- The trigger that `sum` completes after the earlier sums, where positions number the sums. -/
def trigger? (earlier : List Nat) (sum : Nat) : Option Trigger :=
  if e.TriggersAt (earlier ++ [sum]) earlier.length then
    some ⟨.ofNat earlier.length, .ofNat sum, e.edgeNum⟩
  else none

variable {e}

theorem counted_succ (e : EdgeSettings) (sums : List Nat) (n : Nat) :
    e.counted sums (n + 1) =
      if e.CrossesAt sums n ∧ ∀ j ∈ e.counted sums n, e.settlingTime.toNat < n - j then
        e.counted sums n ++ [n]
      else e.counted sums n :=
  rfl

/-- What counts depends on where the sums cross and on the settling time alone. -/
theorem counted_congr {e e' : EdgeSettings} {sums sums' : List Nat}
    (hsettling : e'.settlingTime = e.settlingTime)
    (hcross : ∀ i, e.CrossesAt sums i ↔ e'.CrossesAt sums' i) (i : Nat) :
    e'.counted sums' i = e.counted sums i := by
  induction i with
  | zero => rfl
  | succ i ih => simp only [counted, ih, hsettling, hcross]

theorem triggersAt_congr {e e' : EdgeSettings} {sums sums' : List Nat}
    (hsettling : e'.settlingTime = e.settlingTime) (hnum : e'.edgeNum = e.edgeNum)
    (hcross : ∀ i, e.CrossesAt sums i ↔ e'.CrossesAt sums' i) (i : Nat) :
    e.TriggersAt sums i ↔ e'.TriggersAt sums' i := by
  unfold TriggersAt
  rw [counted_congr hsettling hcross, hnum]

theorem trigger?_congr {e e' : EdgeSettings} {earlier : List Nat} {sum : Nat}
    (hsettling : e'.settlingTime = e.settlingTime) (hnum : e'.edgeNum = e.edgeNum)
    (hcross : ∀ i, e.CrossesAt (earlier ++ [sum]) i ↔ e'.CrossesAt (earlier ++ [sum]) i) :
    e.trigger? earlier sum = e'.trigger? earlier sum := by
  simp only [trigger?, triggersAt_congr hsettling hnum hcross, hnum]

theorem mem_counted_succ_iff {sums : List Nat} {n i : Nat} :
    i ∈ e.counted sums (n + 1) ↔ i ∈ e.counted sums n ∨
      i = n ∧ e.CrossesAt sums n ∧ ∀ j ∈ e.counted sums n, e.settlingTime.toNat < n - j := by
  rw [counted_succ]
  split
  · next hcounts => rw [List.mem_append, List.mem_singleton, and_iff_left hcounts]
  · next hcounts => exact ⟨.inl, fun h => h.resolve_right fun hn => hcounts hn.2⟩

theorem lt_of_mem_counted {sums : List Nat} {i j : Nat} (h : j ∈ e.counted sums i) : j < i := by
  induction i with
  | zero => simp [counted] at h
  | succ i ih =>
      rcases mem_counted_succ_iff.1 h with h | ⟨rfl, -⟩
      · exact Nat.lt_succ_of_lt (ih h)
      · exact Nat.lt_succ_self j

/-! ## One more sum -/

theorem crossesAt_append {sums : List Nat} (more : List Nat) {i : Nat} (h : i < sums.length) :
    e.CrossesAt (sums ++ more) i ↔ e.CrossesAt sums i := by
  have hlen : i < (sums ++ more).length := by
    rw [List.length_append]
    omega
  unfold CrossesAt
  rw [List.getD_append _ _ _ _ h, List.getD_append _ _ _ _ (by omega)]
  simp only [h, hlen, true_and]

/-- Later sums do not change what was counted. -/
theorem counted_append {sums : List Nat} (more : List Nat) {i : Nat} (h : i ≤ sums.length) :
    e.counted (sums ++ more) i = e.counted sums i := by
  induction i with
  | zero => rfl
  | succ i ih =>
      simp only [counted, ih (by omega), crossesAt_append more (show i < sums.length by omega)]

theorem triggersAt_append {sums : List Nat} (more : List Nat) {i : Nat} (h : i < sums.length) :
    e.TriggersAt (sums ++ more) i ↔ e.TriggersAt sums i := by
  unfold TriggersAt
  rw [counted_append more (show i + 1 ≤ sums.length by omega)]

/-- The newest sum counts if it crosses and no counted crossing is near. -/
theorem counted_concat (sums : List Nat) (x : Nat) :
    e.counted (sums ++ [x]) (sums.length + 1) =
      if e.CrossesAt (sums ++ [x]) sums.length ∧
          ∀ j ∈ e.counted sums sums.length, e.settlingTime.toNat < sums.length - j then
        e.counted sums sums.length ++ [sums.length]
      else e.counted sums sums.length := by
  simp only [counted, counted_append [x] (Nat.le_refl sums.length)]

theorem not_mem_counted_self (sums : List Nat) (i : Nat) : i ∉ e.counted sums i :=
  fun h => Nat.lt_irrefl i (lt_of_mem_counted h)

end EdgeSettings

namespace EdgeCounter

variable {c : EdgeCounter} {sums : List Nat}

/-- The counter after `sums`. Its countdown reaches zero when the last counted crossing is no longer
near: it is the largest of what the counted crossings ask for. -/
structure Holds (c : EdgeCounter) (sums : List Nat) : Prop where
  previous_eq : c.previous.map UInt32.toNat = sums.getLast?
  edges_eq : c.edges.toNat = (c.settings.counted sums sums.length).length % c.settings.edgeNum.toNat
  settled : ∀ j ∈ c.settings.counted sums sums.length,
    j + c.settings.settlingTime.toNat + 1 ≤ sums.length + c.settling.toNat
  settling_eq : 0 < c.settling.toNat → ∃ j ∈ c.settings.counted sums sums.length,
    sums.length + c.settling.toNat = j + c.settings.settlingTime.toNat + 1

theorem toNat_edgeNum_pos (c : EdgeCounter) : 0 < c.settings.edgeNum.toNat :=
  UInt8.lt_iff_toNat_lt.1 (UInt8.pos_iff_ne_zero.2 c.edgeNum_ne_zero)

/-- A count that is short of the edges asked for has room for one more. -/
theorem toNat_edges_add_one_of_lt (h : c.edges.toNat < c.settings.edgeNum.toNat) :
    (c.edges + 1).toNat = c.edges.toNat + 1 := by
  have hmax := c.settings.edgeNum.toNat_lt
  rw [UInt8.toNat_add]
  exact Nat.mod_eq_of_lt (by rw [UInt8.toNat_one]; omega)

theorem holds_reset (c : EdgeCounter) : c.reset.Holds [] :=
  ⟨rfl, by simp [EdgeSettings.counted, reset], by simp [EdgeSettings.counted], by simp [reset]⟩

theorem holds_start {e : EdgeSettings} (h : ofSettings e = .ok c) :
    c.settings = e ∧ c.Holds [] := by
  obtain ⟨hsettings, hreset⟩ := reset_eq_of_ofSettings h
  exact ⟨hsettings, hreset ▸ c.holds_reset⟩

namespace Holds

theorem edges_lt (h : c.Holds sums) : c.edges.toNat < c.settings.edgeNum.toNat := by
  rw [h.edges_eq]
  exact Nat.mod_lt _ c.toNat_edgeNum_pos

/-- While the counter counts down, nothing counts; afterwards every crossing does. -/
theorem forall_far_iff (h : c.Holds sums) :
    (∀ j ∈ c.settings.counted sums sums.length,
      c.settings.settlingTime.toNat < sums.length - j) ↔ c.settling.toNat = 0 := by
  constructor
  · intro hall
    by_contra hne
    obtain ⟨j, hj, hsum⟩ := h.settling_eq (Nat.pos_of_ne_zero hne)
    have hfar := hall j hj
    omega
  · intro hz j hj
    have hset := h.settled j hj
    omega

/-- Whether the counter sees an edge is whether the last two sums cross. -/
theorem crossesAt_iff (h : c.Holds sums) (sum : Total) :
    c.settings.CrossesAt (sums ++ [sum.toNat]) sums.length ↔
      ∃ previous, c.previous = some previous ∧ c.IsEdge previous sum := by
  have hprev := h.previous_eq
  rcases List.eq_nil_or_concat' sums with rfl | ⟨front, last, rfl⟩
  · cases hc : c.previous with
    | none => simp [EdgeSettings.CrossesAt]
    | some previous => simp [hc] at hprev
  · cases hc : c.previous with
    | none => simp [hc] at hprev
    | some previous =>
        have hlast : previous.toNat = last := by simpa [hc] using hprev
        have hcur : (front ++ [last] ++ [sum.toNat]).getD (front ++ [last]).length 0 =
            sum.toNat := by
          rw [List.getD_append_right _ _ _ _ (Nat.le_refl _), Nat.sub_self]
          rfl
        have hold : (front ++ [last] ++ [sum.toNat]).getD ((front ++ [last]).length - 1) 0 =
            previous.toNat := by
          have hpos : (front ++ [last]).length - 1 = front.length := by simp
          rw [hpos, List.append_assoc, List.getD_append_right _ _ _ _ (Nat.le_refl _), Nat.sub_self,
            hlast]
          rfl
        unfold EdgeSettings.CrossesAt
        rw [hcur, hold]
        simp [IsEdge]

/-- A sum that counts as no edge brings the end of the countdown one nearer. -/
theorem pass (h : c.Holds sums) {next : EdgeCounter} {sum : Total}
    (hcounted : c.settings.counted (sums ++ [sum.toNat]) (sums.length + 1) =
      c.settings.counted sums sums.length)
    (hsettings : next.settings = c.settings) (hprevious : next.previous = some sum)
    (hedges : next.edges = c.edges) (hsettling : next.settling.toNat = c.settling.toNat - 1) :
    next.Holds (sums ++ [sum.toNat]) := by
  refine ⟨by simp [hprevious], ?_, ?_, ?_⟩
  · rw [hsettings, hedges, List.length_append, List.length_singleton, hcounted]
    exact h.edges_eq
  · rw [hsettings, hsettling, List.length_append, List.length_singleton, hcounted]
    intro j hj
    have hset := h.settled j hj
    omega
  · rw [hsettings, hsettling, List.length_append, List.length_singleton, hcounted]
    intro hpos
    obtain ⟨j, hj, hsum⟩ := h.settling_eq (by omega)
    exact ⟨j, hj, by omega⟩

/-- A sum that counts as an edge starts the countdown. -/
theorem count (h : c.Holds sums) {next : EdgeCounter} {sum : Total}
    (hcounted : c.settings.counted (sums ++ [sum.toNat]) (sums.length + 1) =
      c.settings.counted sums sums.length ++ [sums.length])
    (hsettings : next.settings = c.settings) (hprevious : next.previous = some sum)
    (hedges : next.edges.toNat = (c.edges.toNat + 1) % c.settings.edgeNum.toNat)
    (hsettling : next.settling = c.settings.settlingTime) :
    next.Holds (sums ++ [sum.toNat]) := by
  refine ⟨by simp [hprevious], ?_, ?_, ?_⟩
  · rw [hsettings, hedges, List.length_append, List.length_singleton, hcounted, List.length_append,
      List.length_singleton, h.edges_eq, Nat.mod_add_mod]
  · rw [hsettings, hsettling, List.length_append, List.length_singleton, hcounted]
    intro j hj
    rcases List.mem_append.1 hj with hj | hj
    · have hlt := EdgeSettings.lt_of_mem_counted hj
      omega
    · rw [List.mem_singleton.1 hj]
      omega
  · rw [hsettings, hsettling, List.length_append, List.length_singleton, hcounted]
    intro _
    exact ⟨sums.length, List.mem_append_right _ List.mem_cons_self, by omega⟩

/-- What a counter does with the next sum: masked or no edge, it passes; otherwise it counts. -/
theorem signal_eq (h : c.Holds sums) (index : Position) (sum : Total) :
    c.signal index sum =
      if 0 < c.settling then
        (none, { c with previous := some sum, settling := c.settling - 1 })
      else if c.settings.CrossesAt (sums ++ [sum.toNat]) sums.length then
        { c with previous := some sum }.countEdge index sum
      else (none, { c with previous := some sum }) := by
  unfold EdgeCounter.signal
  by_cases hmask : 0 < c.settling
  · rw [if_pos hmask, if_pos hmask]
  · rw [if_neg hmask, if_neg hmask]
    have hcross := h.crossesAt_iff sum
    cases hp : c.previous with
    | none =>
        rw [if_neg (by simp [hcross, hp])]
    | some previous =>
        by_cases hedge : c.IsEdge previous sum
        · rw [if_pos (hcross.2 ⟨previous, hp, hedge⟩)]
          simp [hedge]
        · rw [if_neg (by simp [hcross, hp, hedge])]
          simp [hedge]

/-- One edge more never wraps the count. -/
theorem toNat_edges_add_one (h : c.Holds sums) : (c.edges + 1).toNat = c.edges.toNat + 1 :=
  toNat_edges_add_one_of_lt h.edges_lt

theorem countEdge (h : c.Holds sums) (index : Position) (sum : Total)
    (hcounted : c.settings.counted (sums ++ [sum.toNat]) (sums.length + 1) =
      c.settings.counted sums sums.length ++ [sums.length]) :
    (({ c with previous := some sum } : EdgeCounter).countEdge index sum).1 =
        (if c.settings.TriggersAt (sums ++ [sum.toNat]) sums.length then
          some ⟨index, sum, c.settings.edgeNum⟩ else none) ∧
      (({ c with previous := some sum } : EdgeCounter).countEdge index sum).2.Holds
        (sums ++ [sum.toNat]) := by
  have hlt := h.edges_lt
  have hone := h.toNat_edges_add_one
  have htrigger : c.settings.TriggersAt (sums ++ [sum.toNat]) sums.length ↔
      c.edges + 1 = c.settings.edgeNum := by
    rw [EdgeSettings.TriggersAt, hcounted, ← UInt8.toNat_inj, hone, List.length_append,
      List.length_singleton, Nat.dvd_iff_mod_eq_zero, ← Nat.mod_add_mod, ← h.edges_eq]
    constructor
    · intro ht
      by_contra hne
      rw [Nat.mod_eq_of_lt (by omega)] at ht
      exact Nat.succ_ne_zero _ ht.2
    · intro hfull
      exact ⟨List.mem_append_right _ List.mem_cons_self, by rw [hfull, Nat.mod_self]⟩
  unfold EdgeCounter.countEdge
  by_cases hfull : c.edges + 1 = c.settings.edgeNum
  · rw [if_pos (htrigger.2 hfull)]
    simp only [if_pos hfull]
    refine ⟨by rw [hfull], h.count hcounted rfl rfl ?_ rfl⟩
    rw [← hone, hfull, Nat.mod_self]
    rfl
  · rw [if_neg (fun ht => hfull (htrigger.1 ht))]
    simp only [if_neg hfull]
    refine ⟨trivial, h.count hcounted rfl rfl ?_ rfl⟩
    rw [← UInt8.toNat_inj, hone] at hfull
    rw [hone, Nat.mod_eq_of_lt (by omega)]

/-- A counter gives a trigger exactly where the sums so far have one, and stays faithful to them. -/
theorem signal (h : c.Holds sums) (index : Position) (sum : Total) :
    (c.signal index sum).1 =
        (if c.settings.TriggersAt (sums ++ [sum.toNat]) sums.length then
          some ⟨index, sum, c.settings.edgeNum⟩ else none) ∧
      (c.signal index sum).2.Holds (sums ++ [sum.toNat]) := by
  have hnew := c.settings.counted_concat sums sum.toNat
  rw [h.signal_eq index sum]
  -- By the invariant, the sum counts if it crosses while the countdown stands at zero.
  by_cases hcount : c.settings.CrossesAt (sums ++ [sum.toNat]) sums.length ∧ c.settling.toNat = 0
  · have hcounted := hnew.trans (if_pos ⟨hcount.1, h.forall_far_iff.2 hcount.2⟩)
    rw [if_neg (by rw [UInt8.lt_iff_toNat_lt]; simp [hcount.2]), if_pos hcount.1]
    exact h.countEdge index sum hcounted
  · have hcounted := hnew.trans (if_neg fun hc => hcount ⟨hc.1, h.forall_far_iff.1 hc.2⟩)
    have hno : ¬ c.settings.TriggersAt (sums ++ [sum.toNat]) sums.length := by
      intro ht
      have hmem := ht.1
      rw [hcounted] at hmem
      exact EdgeSettings.not_mem_counted_self sums _ hmem
    rw [if_neg hno]
    by_cases hmask : 0 < c.settling
    · have hpos := UInt8.lt_iff_toNat_lt.1 hmask
      rw [if_pos hmask]
      refine ⟨rfl, h.pass hcounted rfl rfl rfl ?_⟩
      exact UInt8.toNat_sub_of_le _ _ (UInt8.le_iff_toNat_le.2 hpos)
    · have hzero : c.settling.toNat = 0 :=
        Nat.eq_zero_of_not_pos fun hpos => hmask (UInt8.lt_iff_toNat_lt.2 hpos)
      rw [if_neg hmask, if_neg fun hcross => hcount ⟨hcross, hzero⟩]
      exact ⟨rfl, h.pass hcounted rfl rfl rfl (by change c.settling.toNat = _; omega)⟩

end Holds

end EdgeCounter

end DigitiserSums
