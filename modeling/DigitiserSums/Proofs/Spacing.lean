import DigitiserSums.Proofs.Signals

/-!
# As many edges as a gap allows

The settling time keeps the crossings that count apart. A counter counts each crossing as soon as it
may, and in this way it counts as many as can be had: no choice of crossings with such a gap between
any two of them is larger. So a longer gap, or more edges to a trigger, never makes more triggers.
-/

namespace DigitiserSums

/-! ## Crossings with a gap -/

namespace EdgeSettings

variable {e e' : EdgeSettings} {sums : List Nat} {places : Finset Nat}

/-- Crossings of the sums, any two of them more than the settling time apart. -/
structure Spaced (e : EdgeSettings) (sums : List Nat) (places : Finset Nat) : Prop where
  crosses : ∀ i ∈ places, e.CrossesAt sums i
  apart : ∀ i ∈ places, ∀ j ∈ places, i < j → e.settlingTime.toNat < j - i

theorem Spaced.erase (h : e.Spaced sums places) (n : Nat) : e.Spaced sums (places.erase n) where
  crosses i hi := h.crosses i (Finset.mem_of_mem_erase hi)
  apart i hi j hj := h.apart i (Finset.mem_of_mem_erase hi) j (Finset.mem_of_mem_erase hj)

/-- A longer settling time leaves crossings apart that a shorter one wants apart. -/
theorem Spaced.of_le (h : e'.Spaced sums places) (hkind : e'.kind = e.kind)
    (hthreshold : e'.threshold = e.threshold) (hle : e.settlingTime ≤ e'.settlingTime) :
    e.Spaced sums places where
  crosses i hi := by
    have hcross := h.crosses i hi
    rwa [CrossesAt, hkind, hthreshold] at hcross
  apart i hi j hj hij := Nat.lt_of_le_of_lt (UInt8.le_iff_toNat_le.1 hle) (h.apart i hi j hj hij)

/-- The crossings that count are such a choice. -/
theorem spaced_counted (e : EdgeSettings) (sums : List Nat) (n : Nat) :
    e.Spaced sums (e.counted sums n).toFinset where
  crosses _ hi := (mem_counted_iff.1 (List.mem_toFinset.1 hi)).2.1
  apart i hi _ hj := (mem_counted_iff.1 (List.mem_toFinset.1 hj)).2.2 i (List.mem_toFinset.1 hi)

theorem card_toFinset_counted (e : EdgeSettings) (sums : List Nat) (n : Nat) :
    (e.counted sums n).toFinset.card = (e.counted sums n).length :=
  List.toFinset_card_of_nodup (e.sorted_counted sums n).nodup

/-- What counts below a place keeps counting when more places are looked at. -/
theorem length_counted_le (e : EdgeSettings) (sums : List Nat) {m n : Nat} (h : m ≤ n) :
    (e.counted sums m).length ≤ (e.counted sums n).length := by
  induction n, h using Nat.le_induction with
  | base => exact Nat.le_refl _
  | succ n _ ih =>
      rw [counted_succ]
      split
      · rw [List.length_append]
        omega
      · exact ih

theorem length_counted_lt_of_mem {n i : Nat} (h : i ∈ e.counted sums n) :
    (e.counted sums i).length < (e.counted sums n).length := by
  induction n with
  | zero => simp [counted] at h
  | succ n ih =>
      have hle := e.length_counted_le sums (show n ≤ n + 1 by omega)
      rcases mem_counted_succ_iff.1 h with h | ⟨rfl, hcounts⟩
      · exact Nat.lt_of_lt_of_le (ih h) hle
      · rw [counted_succ, if_pos hcounts, List.length_append, List.length_singleton]
        omega

/-- No choice with gaps has more places below `n` than count below `n`. -/
theorem Spaced.card_le (h : e.Spaced sums places) {n : Nat} (hlt : ∀ i ∈ places, i < n) :
    places.card ≤ (e.counted sums n).length := by
  induction n using Nat.strong_induction_on generalizing places with
  | h n ih =>
    by_cases hempty : places = ∅
    · simp [hempty]
    · -- The last place of the choice crosses, so it counts or lies in the gap of one that counts.
      obtain ⟨last, hlast, hmax⟩ : ∃ last ∈ places, ∀ i ∈ places, i ≤ last :=
        ⟨_, places.max'_mem (Finset.nonempty_of_ne_empty hempty), fun i hi => places.le_max' i hi⟩
      have hcard := Finset.card_erase_add_one hlast
      have hbound := hlt last hlast
      have hold := e.length_counted_le sums (show last + 1 ≤ n by omega)
      have hrest : ∀ i ∈ places.erase last, i < last ∧ e.settlingTime.toNat < last - i := by
        intro i hi
        have hmem := Finset.mem_of_mem_erase hi
        have hne := Finset.ne_of_mem_erase hi
        have hle := hmax i hmem
        exact ⟨by omega, h.apart i hmem last hlast (by omega)⟩
      by_cases hfar : ∀ j ∈ e.counted sums last, e.settlingTime.toNat < last - j
      · have hle := ih last hbound (h.erase last) fun i hi => (hrest i hi).1
        rw [counted_succ, if_pos ⟨h.crosses last hlast, hfar⟩, List.length_append,
          List.length_singleton] at hold
        omega
      · -- The one that counts takes its place, and the rest of the choice comes before that one.
        push Not at hfar
        obtain ⟨j, hj, hnear⟩ := hfar
        have hjlast := lt_of_mem_counted hj
        have hle := ih j (by omega) (h.erase last) fun i hi => by
          have hfar := hrest i hi
          omega
        have hone := length_counted_lt_of_mem hj
        have hmore := e.length_counted_le sums (show last ≤ n by omega)
        omega

/-- As many crossings count as a choice with gaps can have. -/
theorem isGreatest_length_counted (e : EdgeSettings) (sums : List Nat) :
    IsGreatest {k | ∃ places, e.Spaced sums places ∧ places.card = k}
      (e.counted sums sums.length).length := by
  constructor
  · exact ⟨_, e.spaced_counted sums sums.length, e.card_toFinset_counted sums sums.length⟩
  · rintro k ⟨places, h, rfl⟩
    exact h.card_le fun i hi => (h.crosses i hi).2.1

/-- With a longer settling time no more crossings count. -/
theorem length_counted_antitone (e e' : EdgeSettings) (hkind : e'.kind = e.kind)
    (hthreshold : e'.threshold = e.threshold) (hle : e.settlingTime ≤ e'.settlingTime)
    (sums : List Nat) :
    (e'.counted sums sums.length).length ≤ (e.counted sums sums.length).length := by
  rw [← e'.card_toFinset_counted]
  refine ((e'.spaced_counted sums _).of_le hkind hthreshold hle).card_le fun i hi => ?_
  exact lt_of_mem_counted (List.mem_toFinset.1 hi)

/-- A sum completes a group of crossings that count exactly if it completes a trigger. -/
theorem length_counted_concat_div (e : EdgeSettings) (sums : List Nat) (x : Nat) :
    (e.counted (sums ++ [x]) (sums.length + 1)).length / e.edgeNum.toNat =
      (e.counted sums sums.length).length / e.edgeNum.toNat +
        if e.TriggersAt (sums ++ [x]) sums.length then 1 else 0 := by
  by_cases hcounts : e.CrossesAt (sums ++ [x]) sums.length ∧
      ∀ j ∈ e.counted sums sums.length, e.settlingTime.toNat < sums.length - j
  · have hcounted := (counted_concat sums x).trans (if_pos hcounts)
    have htriggers : e.TriggersAt (sums ++ [x]) sums.length ↔
        e.edgeNum.toNat ∣ (e.counted sums sums.length).length + 1 := by
      simp [TriggersAt, hcounted]
    simp only [hcounted, htriggers, List.length_append, List.length_singleton, Nat.succ_div]
  · have hcounted := (counted_concat sums x).trans (if_neg hcounts)
    have hno : ¬ e.TriggersAt (sums ++ [x]) sums.length := fun h =>
      not_mem_counted_self sums _ (hcounted ▸ h.1)
    rw [hcounted, if_neg hno, Nat.add_zero]

end EdgeSettings

/-! ## What a counter makes of them -/

namespace EdgeCounter

variable {c : EdgeCounter} {sums : List Nat}

/-- The triggers that a counter raises while it takes sums with their places. -/
def triggers (c : EdgeCounter) (items : List (Position × Total)) : List Trigger :=
  Feed.results signalAt ⟨c, items⟩

def sumsOf (items : List (Position × Total)) : List Nat :=
  items.map fun item => item.2.toNat

theorem settings_scan (c : EdgeCounter) (items : List (Position × Total)) :
    (scan signalAt c items).2.settings = c.settings := by
  induction items generalizing c with
  | nil => rfl
  | cons item items ih => exact (ih _).trans (c.settings_signal item.1 item.2)

theorem Holds.scan (h : c.Holds sums) (items : List (Position × Total)) :
    (scan signalAt c items).2.Holds (sums ++ sumsOf items) := by
  induction items generalizing c sums with
  | nil => simpa [sumsOf] using h
  | cons item items ih =>
      have hrest := ih (h.signal item.1 item.2).2
      rwa [List.append_assoc] at hrest

/-- A trigger is raised for every full group of crossings that count. -/
theorem Holds.length_triggers (h : c.Holds sums) (items : List (Position × Total)) :
    (c.settings.counted sums sums.length).length / c.settings.edgeNum.toNat +
        (c.triggers items).length =
      (c.settings.counted (sums ++ sumsOf items) (sums ++ sumsOf items).length).length /
        c.settings.edgeNum.toNat := by
  induction items generalizing c sums with
  | nil => simp [triggers, Feed.results, sumsOf]
  | cons item items ih =>
      obtain ⟨htrigger, hnext⟩ := h.signal item.1 item.2
      have hone : (c.signal item.1 item.2).1.toList.length =
          if c.settings.TriggersAt (sums ++ [item.2.toNat]) sums.length then 1 else 0 := by
        rw [htrigger]
        split <;> rfl
      have hgroups := c.settings.length_counted_concat_div sums item.2.toNat
      have hrest := ih hnext
      rw [settings_signal, List.append_assoc, List.length_append, List.length_singleton, hgroups,
        ← hone, Nat.add_assoc, ← List.length_append] at hrest
      rw [triggers, Feed.results_cons]
      exact hrest

/-- A counter that takes sums from its start counts, in full triggers and edges left over, as many
edges as there can be crossings of these sums with a gap of more than the settling time between any
two. A longer settling time or more edges to a trigger give no more triggers. -/
theorem edges_isGreatest {settings : EdgeSettings} {start : EdgeCounter}
    (hstart : ofSettings settings = .ok start) (items : List (Position × Total)) :
    IsGreatest {k | ∃ places, settings.Spaced (sumsOf items) places ∧ places.card = k}
        (settings.edgeNum.toNat * (start.triggers items).length +
          (scan signalAt start items).2.edges.toNat) ∧
      ∀ settlingTime edgeNum, settings.settlingTime ≤ settlingTime → settings.edgeNum ≤ edgeNum →
        ∃ start', ofSettings { settings with settlingTime, edgeNum } = .ok start' ∧
          (start'.triggers items).length ≤ (start.triggers items).length := by
  have hgroups {e : EdgeSettings} {c : EdgeCounter} (hc : ofSettings e = .ok c) :
      (c.triggers items).length =
        (e.counted (sumsOf items) (sumsOf items).length).length / e.edgeNum.toNat := by
    obtain ⟨rfl, h⟩ := holds_start hc
    simpa [EdgeSettings.counted] using h.length_triggers items
  constructor
  · have hedges := ((holds_start hstart).2.scan items).edges_eq
    rw [settings_scan, (holds_start hstart).1, List.nil_append] at hedges
    rw [hgroups hstart, hedges, Nat.div_add_mod]
    exact settings.isGreatest_length_counted (sumsOf items)
  · intro settlingTime edgeNum hsettling hnum
    obtain ⟨hedges, hfinite⟩ := (ofSettings_isOk_iff settings).1 ⟨start, hstart⟩
    have hpos := UInt8.lt_iff_toNat_lt.1 (UInt8.pos_iff_ne_zero.2 hedges)
    have hle := UInt8.le_iff_toNat_le.1 hnum
    have hallowed : edgeNum ≠ 0 := UInt8.pos_iff_ne_zero.1
      (UInt8.lt_iff_toNat_lt.2 (Nat.lt_of_lt_of_le hpos hle))
    obtain ⟨start', hstart'⟩ :=
      (ofSettings_isOk_iff { settings with settlingTime, edgeNum }).2 ⟨hallowed, hfinite⟩
    refine ⟨start', hstart', ?_⟩
    rw [hgroups hstart, hgroups hstart']
    refine Nat.div_le_div ?_ hle (Nat.ne_of_gt hpos)
    exact settings.length_counted_antitone { settings with settlingTime, edgeNum } rfl rfl
      hsettling _

theorem edges_isGreatest_of_pulses :
    let settings : EdgeSettings := { threshold := ⟨0x41200000⟩, settlingTime := 2 }
    let items : List (Position × Total) :=
      [(0, 0), (1, 20), (2, 0), (3, 20), (4, 0), (5, 20), (6, 5), (7, 30)]
    ∃ start, ofSettings settings = .ok start ∧ (start.triggers items).length = 2 ∧
      (∀ places, settings.Spaced (sumsOf items) places → places.card ≤ 2) ∧
      ∃ start', ofSettings { settings with settlingTime := 5, edgeNum := 2 } = .ok start' ∧
        (start'.triggers items).length ≤ 2 := by
  intro settings items
  obtain ⟨start, hstart, htriggers, hedges⟩ : ∃ start, ofSettings settings = .ok start ∧
      (start.triggers items).length = 2 ∧ (scan signalAt start items).2.edges.toNat = 0 :=
    ⟨⟨settings, none, 0, 0, by decide, by decide⟩,
      (dif_neg (by decide)).trans (dif_pos (by decide)), by decide +kernel, by decide +kernel⟩
  obtain ⟨hgreatest, hfewer⟩ := edges_isGreatest hstart items
  rw [htriggers, hedges] at hgreatest
  rw [htriggers] at hfewer
  exact ⟨start, hstart, htriggers, fun places h => hgreatest.2 ⟨places, h, rfl⟩,
    hfewer 5 2 (by decide) (by decide)⟩

end EdgeCounter

end DigitiserSums
