import DigitiserSums.Proofs.Spacing

/-!
# Where triggers fall

The sums that a counter takes tell at which of them it raises a trigger. A sum is compared with the
one before it, so after a crossing the sums must first come back to the near side of the threshold:
crossings that count are at least two places apart, whatever the settling time. Triggers are as many
times as far apart as they take edges, and the first one comes no sooner than its edges allow.
-/

namespace DigitiserSums

/-! ## Sides of a threshold -/

namespace EdgeKind

/-- The value lies on the side that crossings of the kind lead to, the threshold included. -/
def Beyond : EdgeKind → (threshold value : Int) → Prop
  | rising, t, v => t ≤ v
  | falling, t, v => v ≤ t

instance (k : EdgeKind) (t v : Int) : Decidable (k.Beyond t v) := by
  cases k <;> exact inferInstanceAs (Decidable (_ ≤ _))

theorem crosses_iff (k : EdgeKind) (t p c : Int) :
    k.Crosses t p c ↔ ¬ k.Beyond t p ∧ k.Beyond t c := by
  cases k <;> simp only [Crosses, Beyond, Int.not_le]

end EdgeKind

namespace EdgeSettings

variable {e : EdgeSettings} {sums : List Nat} {i : Nat}

/-- The sum at position `i` lies on the side that crossings lead to. -/
def BeyondAt (e : EdgeSettings) (sums : List Nat) (i : Nat) : Prop :=
  e.kind.Beyond e.threshold.steps (Single.stepsOfNat (sums.getD i 0))

instance (e : EdgeSettings) (sums : List Nat) (i : Nat) : Decidable (e.BeyondAt sums i) :=
  inferInstanceAs (Decidable (EdgeKind.Beyond _ _ _))

/-- The sums cross at a position if they come to the far side there. -/
theorem crossesAt_iff :
    e.CrossesAt sums i ↔
      0 < i ∧ i < sums.length ∧ ¬ e.BeyondAt sums (i - 1) ∧ e.BeyondAt sums i := by
  unfold CrossesAt
  rw [EdgeKind.crosses_iff]
  rfl

theorem crossesAt_succ_iff :
    e.CrossesAt sums (i + 1) ↔
      i + 1 < sums.length ∧ ¬ e.BeyondAt sums i ∧ e.BeyondAt sums (i + 1) := by
  rw [crossesAt_iff, and_iff_right (Nat.succ_pos i), Nat.add_sub_cancel]

/-! ## The places of triggers -/

theorem TriggersAt.crossesAt (h : e.TriggersAt sums i) : e.CrossesAt sums i :=
  (mem_counted_iff.1 h.1).2.1

end EdgeSettings

namespace EdgeCounter

variable {c : EdgeCounter} {sums : List Nat}

/-- A trigger is raised at the `i`th of the sums that the counter takes. -/
def RaisesAt (c : EdgeCounter) (items : List (Position × Total)) (i : Nat) : Prop :=
  ∃ trigger, (scan signalAt c items).1[i]? = some (some trigger)

/-- A counter that has taken `sums` raises triggers where all the sums together call for them. -/
theorem Holds.raisesAt_iff (h : c.Holds sums) (items : List (Position × Total)) (i : Nat) :
    c.RaisesAt items i ↔ c.settings.TriggersAt (sums ++ sumsOf items) (sums.length + i) := by
  induction items generalizing c sums i with
  | nil =>
      refine ⟨fun ⟨_, hnone⟩ => (nomatch hnone), fun htriggers => ?_⟩
      have hlt := htriggers.crossesAt.2.1
      simp only [sumsOf, List.map_nil, List.append_nil] at hlt
      omega
  | cons item items ih =>
      obtain ⟨htrigger, hnext⟩ := h.signal item.1 item.2
      have hsums : sums ++ sumsOf (item :: items) = sums ++ [item.2.toNat] ++ sumsOf items := by
        simp [sumsOf]
      rw [hsums]
      cases i with
      | zero =>
          rw [Nat.add_zero, EdgeSettings.triggersAt_append _ (by simp)]
          simp only [RaisesAt, scan_cons, List.getElem?_cons_zero, Option.some_inj, signalAt,
            htrigger]
          split <;> simp [*]
      | succ i =>
          have hrest := ih hnext i
          rw [settings_signal, List.length_append, List.length_singleton, Nat.add_assoc,
            Nat.add_comm 1] at hrest
          exact hrest

end EdgeCounter

/-! ## The distance between crossings that count -/

/-- Of places that lie apart, later ones are as many distances away as there are places between. -/
theorem add_mul_le_of_pairwise {places : List Nat} {gap : Nat}
    (h : places.Pairwise fun i j => i + gap ≤ j) {a b i j : Nat} (hab : a ≤ b)
    (hi : places[a]? = some i) (hj : places[b]? = some j) : i + (b - a) * gap ≤ j := by
  induction b, hab using Nat.le_induction generalizing j with
  | base =>
      rw [hi] at hj
      cases hj
      simp
  | succ b hab ih =>
      obtain ⟨hb, rfl⟩ := List.getElem?_eq_some_iff.1 hj
      have hbefore := ih (List.getElem?_eq_getElem (show b < places.length by omega))
      have hlast := List.pairwise_iff_getElem.1 h b (b + 1) (by omega) hb (by omega)
      rw [Nat.sub_add_comm hab, Nat.succ_mul]
      omega

namespace EdgeSettings

variable {e : EdgeSettings} {sums : List Nat} {i j n : Nat}

/-- The least distance between crossings that count. -/
def gap (e : EdgeSettings) : Nat :=
  max 2 (e.settlingTime.toNat + 1)

/-- The sum that crossed lies on the far side, so the one after it does not cross. -/
theorem CrossesAt.not_succ (h : e.CrossesAt sums i) : ¬ e.CrossesAt sums (i + 1) :=
  fun hnext => (crossesAt_succ_iff.1 hnext).2.1 (crossesAt_iff.1 h).2.2.2

theorem add_gap_le_of_mem_counted (hi : i ∈ e.counted sums n) (hj : j ∈ e.counted sums n)
    (hij : i < j) : i + e.gap ≤ j := by
  have hfar := (mem_counted_iff.1 hj).2.2 i hi hij
  have hne : j ≠ i + 1 := by
    rintro rfl
    exact (mem_counted_iff.1 hi).2.1.not_succ (mem_counted_iff.1 hj).2.1
  unfold gap
  omega

theorem pairwise_counted (e : EdgeSettings) (sums : List Nat) (n : Nat) :
    (e.counted sums n).Pairwise fun i j => i + e.gap ≤ j :=
  (e.sorted_counted sums n).imp_of_mem fun hi hj hij => add_gap_le_of_mem_counted hi hj hij

/-- Looking at more places adds crossings that count behind those known. -/
theorem counted_prefix (e : EdgeSettings) (sums : List Nat) {m n : Nat} (h : m ≤ n) :
    e.counted sums m <+: e.counted sums n := by
  induction n, h using Nat.le_induction with
  | base => exact List.prefix_rfl
  | succ n _ ih =>
      rw [counted_succ]
      split
      · exact ih.trans (List.prefix_append _ _)
      · exact ih

/-- The crossing that completes a trigger has a number that the edges to a trigger divide, however
many places are looked at. -/
theorem TriggersAt.exists_number (h : e.TriggersAt sums i) (hn : i < n) :
    ∃ k, (e.counted sums n)[k]? = some i ∧ e.edgeNum.toNat ∣ k + 1 := by
  obtain ⟨k, hk, hdvd⟩ := triggersAt_iff_exists_number.1 h
  obtain ⟨hlt, hlast⟩ := List.getElem?_eq_some_iff.1 hk
  refine ⟨k, ?_, hdvd⟩
  rw [List.prefix_iff_getElem?.1 (e.counted_prefix sums hn) k hlt, hlast]

/-- No trigger comes before there is room for its edges. -/
theorem TriggersAt.le (h : e.TriggersAt sums i) : 1 + (e.edgeNum.toNat - 1) * e.gap ≤ i := by
  obtain ⟨k, hk, hdvd⟩ := h.exists_number (Nat.lt_succ_self i)
  obtain ⟨first, hfirst⟩ : ∃ first, (e.counted sums (i + 1))[0]? = some first :=
    ⟨_, List.getElem?_eq_getElem (List.length_pos_of_mem (List.mem_of_getElem? hk))⟩
  have hpos : 0 < first := (mem_counted_iff.1 (List.mem_of_getElem? hfirst)).2.1.1
  have hroom := add_mul_le_of_pairwise (e.pairwise_counted sums _) (Nat.zero_le k) hfirst hk
  have hedges := Nat.le_of_dvd (Nat.succ_pos k) hdvd
  have hmul : (e.edgeNum.toNat - 1) * e.gap ≤ (k - 0) * e.gap :=
    Nat.mul_le_mul_right e.gap (by omega)
  omega

/-- Between two triggers there is room for the edges of the second. -/
theorem TriggersAt.add_le (hi : e.TriggersAt sums i) (hj : e.TriggersAt sums j) (hij : i < j) :
    i + e.edgeNum.toNat * e.gap ≤ j := by
  obtain ⟨a, ha, hdvd⟩ := hi.exists_number (show i < j + 1 by omega)
  obtain ⟨b, hb, hdvd'⟩ := hj.exists_number (Nat.lt_succ_self j)
  have hab : a < b := by
    by_contra hle
    have hback := add_mul_le_of_pairwise (e.pairwise_counted sums _) (Nat.not_lt.1 hle) hb ha
    omega
  have hroom := add_mul_le_of_pairwise (e.pairwise_counted sums _) (Nat.le_of_lt hab) ha hb
  have hedges : e.edgeNum.toNat ≤ b - a := by
    refine Nat.le_of_dvd (by omega) ?_
    have hsub := Nat.dvd_sub hdvd' hdvd
    rwa [Nat.add_sub_add_right] at hsub
  have hmul := Nat.mul_le_mul_right e.gap hedges
  omega

end EdgeSettings

/-! ## The rate of triggers -/

namespace EdgeCounter

/-- However a counter has been used before, let it take sums without a reset. Each edge is at least
two sums, and more than the settling time, behind the one before it; so counted from the last reset
no trigger comes before there is room for its edges, and so much room lies between any two
triggers. -/
theorem triggers_apart {settings : EdgeSettings} {start : EdgeCounter}
    (hstart : ofSettings settings = .ok start) (steps : List Step)
    (items : List (Position × Total)) :
    let c := start.after steps
    let edges := settings.edgeNum.toNat
    let gap := max 2 (settings.settlingTime.toNat + 1)
    (∀ i, c.RaisesAt items i → 1 + (edges - 1) * gap ≤ (shown steps).length + i) ∧
      ∀ i j, i < j → c.RaisesAt items i → c.RaisesAt items j → i + edges * gap ≤ j := by
  intro c edges gap
  obtain ⟨hsettings, hholds⟩ := holds_start hstart
  have hc : c.settings = settings := (start.settings_after steps).trans hsettings
  have hraises := (hholds.after steps).raisesAt_iff items
  rw [hc] at hraises
  constructor
  · intro i hi
    exact ((hraises i).1 hi).le
  · intro i j hij hi hj
    have hroom := ((hraises i).1 hi).add_le ((hraises j).1 hj) (Nat.add_lt_add_left hij _)
    rw [Nat.add_assoc] at hroom
    exact Nat.le_of_add_le_add_left hroom

/-- Pulses three sums apart, two of them to a trigger: the bounds are met. -/
theorem triggers_apart_of_pulses :
    let settings : EdgeSettings :=
      { threshold := ⟨0x41200000⟩, settlingTime := 2, edgeNum := 2 }
    let items : List (Position × Total) :=
      [(0, 0), (1, 20), (2, 0), (3, 0), (4, 20), (5, 0), (6, 0), (7, 20), (8, 0), (9, 0), (10, 20)]
    ∃ start, ofSettings settings = .ok start ∧
      let c := start.after [.signal 0 0, .signal 1 20, .reset]
      c.RaisesAt items 4 ∧ c.RaisesAt items 10 ∧
      (∀ i, c.RaisesAt items i → 4 ≤ i) ∧
      ∀ i j, i < j → c.RaisesAt items i → c.RaisesAt items j → i + 6 ≤ j := by
  intro settings items
  obtain ⟨start, hstart, hfirst, hsecond⟩ : ∃ start, ofSettings settings = .ok start ∧
      (start.after [.signal 0 0, .signal 1 20, .reset]).RaisesAt items 4 ∧
      (start.after [.signal 0 0, .signal 1 20, .reset]).RaisesAt items 10 :=
    ⟨⟨settings, none, 0, 0, by decide, by decide⟩,
      (dif_neg (by decide)).trans (dif_pos (by decide)), ⟨⟨4, 20, 2⟩, by decide +kernel⟩,
      ⟨⟨10, 20, 2⟩, by decide +kernel⟩⟩
  obtain ⟨hearliest, happart⟩ := triggers_apart hstart [.signal 0 0, .signal 1 20, .reset] items
  refine ⟨start, hstart, hfirst, hsecond, fun i hi => ?_, happart⟩
  have hle := hearliest i hi
  simpa [shown, shownNext, settings] using hle

end EdgeCounter

end DigitiserSums
