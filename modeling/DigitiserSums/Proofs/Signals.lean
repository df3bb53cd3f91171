import DigitiserSums.Proofs.Crossings

/-!
# What an edge counter makes of its sums

A counter is shown sums and is reset now and then. Only the sums since the last reset matter, and of
them only which crossings count: going from left to right, those that come late enough after the last
one that counted. They are numbered, and every so many of them make a trigger.
-/

namespace DigitiserSums

/-! ## The crossings that count -/

namespace EdgeSettings

variable {e : EdgeSettings} {sums : List Nat}

/-- A crossing counts unless an earlier one that counts is near. -/
theorem mem_counted_iff {n i : Nat} :
    i ∈ e.counted sums n ↔ i < n ∧ e.CrossesAt sums i ∧
      ∀ j ∈ e.counted sums n, j < i → e.settlingTime.toNat < i - j := by
  induction n with
  | zero => simp [counted]
  | succ n ih =>
      constructor
      · intro hi
        have hlt := lt_of_mem_counted hi
        -- The newest position is not earlier than any that counts.
        have hearlier : ∀ j ∈ e.counted sums (n + 1), j < i → j ∈ e.counted sums n := by
          intro j hj hji
          rcases mem_counted_succ_iff.1 hj with hj | ⟨rfl, -⟩
          · exact hj
          · omega
        rcases mem_counted_succ_iff.1 hi with hi | ⟨rfl, hcross, hfar⟩
        · obtain ⟨-, hcross, hfar⟩ := ih.1 hi
          exact ⟨hlt, hcross, fun j hj hji => hfar j (hearlier j hj hji) hji⟩
        · exact ⟨hlt, hcross, fun j hj hji => hfar j (hearlier j hj hji)⟩
      · rintro ⟨hlt, hcross, hfar⟩
        have hfar' : ∀ j ∈ e.counted sums n, j < i → e.settlingTime.toNat < i - j :=
          fun j hj => hfar j (mem_counted_succ_iff.2 (.inl hj))
        rcases Nat.lt_succ_iff_lt_or_eq.1 hlt with hlt | rfl
        · exact mem_counted_succ_iff.2 (.inl (ih.2 ⟨hlt, hcross, hfar'⟩))
        · exact mem_counted_succ_iff.2
            (.inr ⟨rfl, hcross, fun j hj => hfar' j hj (lt_of_mem_counted hj)⟩)

theorem sorted_counted (e : EdgeSettings) (sums : List Nat) (n : Nat) :
    (e.counted sums n).Pairwise (· < ·) := by
  induction n with
  | zero => exact .nil
  | succ n ih =>
      rw [counted_succ]
      split
      · rw [List.pairwise_append]
        refine ⟨ih, List.pairwise_singleton _ _, fun i hi j hj => ?_⟩
        rw [List.mem_singleton.1 hj]
        exact lt_of_mem_counted hi
      · exact ih

theorem counted_succ_of_mem {i : Nat} (h : i ∈ e.counted sums (i + 1)) :
    e.counted sums (i + 1) = e.counted sums i ++ [i] := by
  rcases mem_counted_succ_iff.1 h with h | ⟨-, hcounts⟩
  · exact absurd h (not_mem_counted_self sums i)
  · rw [counted_succ, if_pos hcounts]

/-- The number of a crossing that counts is how many count up to it. -/
theorem getElem?_counted_eq_some_iff {i k : Nat} :
    (e.counted sums (i + 1))[k]? = some i ↔
      i ∈ e.counted sums (i + 1) ∧ k + 1 = (e.counted sums (i + 1)).length := by
  constructor
  · intro hk
    have hmem := List.mem_of_getElem? hk
    refine ⟨hmem, ?_⟩
    rw [counted_succ_of_mem hmem] at hk ⊢
    rw [List.length_append, List.length_singleton]
    rcases Nat.lt_or_ge k (e.counted sums i).length with hlt | hge
    · rw [List.getElem?_append_left hlt] at hk
      exact absurd (List.mem_of_getElem? hk) (not_mem_counted_self sums i)
    · rw [List.getElem?_append_right hge] at hk
      have hzero := (List.getElem?_eq_some_iff.1 hk).1
      rw [List.length_singleton] at hzero
      omega
  · rintro ⟨hmem, hk⟩
    rw [counted_succ_of_mem hmem, List.length_append, List.length_singleton] at hk
    rw [counted_succ_of_mem hmem, Nat.add_right_cancel hk]
    exact List.getElem?_concat_length

theorem triggersAt_iff_exists_number {i : Nat} :
    e.TriggersAt sums i ↔
      ∃ k, (e.counted sums (i + 1))[k]? = some i ∧ e.edgeNum.toNat ∣ k + 1 := by
  constructor
  · rintro ⟨hmem, hdvd⟩
    have hpos := List.length_pos_of_mem hmem
    have hk : (e.counted sums (i + 1)).length - 1 + 1 = (e.counted sums (i + 1)).length := by omega
    exact ⟨_, getElem?_counted_eq_some_iff.2 ⟨hmem, hk⟩, by rwa [hk]⟩
  · rintro ⟨k, hk, hdvd⟩
    obtain ⟨hmem, hlength⟩ := getElem?_counted_eq_some_iff.1 hk
    exact ⟨hmem, hlength ▸ hdvd⟩

end EdgeSettings

/-! ## Runs of a counter -/

namespace EdgeCounter

variable {c : EdgeCounter} {sums : List Nat}

/-- What may be done to a counter. -/
inductive Step where
  | signal (index : Position) (sum : Total)
  | reset
deriving DecidableEq, Repr

def next (c : EdgeCounter) : Step → EdgeCounter
  | .signal index sum => (c.signal index sum).2
  | .reset => c.reset

def after (c : EdgeCounter) (steps : List Step) : EdgeCounter :=
  steps.foldl next c

def shownNext (sums : List Nat) : Step → List Nat
  | .signal _ sum => sums ++ [sum.toNat]
  | .reset => []

/-- The sums that the steps showed since the last reset. -/
def shown (steps : List Step) : List Nat :=
  steps.foldl shownNext []

@[simp] theorem settings_next (c : EdgeCounter) (st : Step) : (c.next st).settings = c.settings := by
  cases st with
  | signal index sum => exact c.settings_signal index sum
  | reset => exact c.settings_reset

@[simp] theorem settings_after (c : EdgeCounter) (steps : List Step) :
    (c.after steps).settings = c.settings := by
  induction steps generalizing c with
  | nil => rfl
  | cons st steps ih => exact (ih (c.next st)).trans (c.settings_next st)

theorem Holds.next (h : c.Holds sums) (st : Step) : (c.next st).Holds (shownNext sums st) := by
  cases st with
  | signal index sum => exact (h.signal index sum).2
  | reset => exact c.holds_reset

theorem Holds.after (h : c.Holds sums) (steps : List Step) :
    (c.after steps).Holds (steps.foldl shownNext sums) :=
  List.foldl_rel h fun st _ _ _ hnext => hnext.next st

/-- A counter gives a trigger exactly for the sums whose crossing counts and has a number that its
settings divide. -/
theorem Holds.signal_eq_some_iff (h : c.Holds sums) (index : Position) (sum : Total)
    (trigger : Trigger) :
    (c.signal index sum).1 = some trigger ↔
      trigger = ⟨index, sum, c.settings.edgeNum⟩ ∧
        ∃ k, (c.settings.counted (sums ++ [sum.toNat]) (sums.length + 1))[k]? = some sums.length ∧
          c.settings.edgeNum.toNat ∣ k + 1 := by
  rw [(h.signal index sum).1, ← EdgeSettings.triggersAt_iff_exists_number]
  by_cases htriggers : c.settings.TriggersAt (sums ++ [sum.toNat]) sums.length
  · rw [if_pos htriggers, Option.some_inj]
    exact ⟨fun heq => ⟨heq.symm, htriggers⟩, fun heq => heq.1.symm⟩
  · rw [if_neg htriggers]
    exact ⟨fun hnone => (nomatch hnone), fun hsome => absurd hsome.2 htriggers⟩

/-- After any signals and resets, a counter has counted as many crossings beyond its last trigger as
count since the last reset, up to full triggers. The next sum gives a trigger exactly if its place is
that of a crossing that counts, and its number among them is a multiple of the edges asked for; the
trigger has the index and the sum that were given, and that number of edges. The crossings that count
are in order those to which no earlier one that counts is near. -/
theorem signal_after_steps {settings : EdgeSettings} {start : EdgeCounter}
    (hstart : ofSettings settings = .ok start) (steps : List Step) :
    let c := start.after steps
    let sums := shown steps
    c.edges.toNat =
        (settings.counted sums sums.length).length % settings.edgeNum.toNat ∧
      ∀ index sum,
        let all := sums ++ [sum.toNat]
        let counted := settings.counted all (sums.length + 1)
        counted.Pairwise (· < ·) ∧
        (∀ i, i ∈ counted ↔ settings.CrossesAt all i ∧
          ∀ j ∈ counted, j < i → settings.settlingTime.toNat < i - j) ∧
        ∀ trigger, (c.signal index sum).1 = some trigger ↔
          trigger = ⟨index, sum, settings.edgeNum⟩ ∧
            ∃ k, counted[k]? = some sums.length ∧ settings.edgeNum.toNat ∣ k + 1 := by
  obtain ⟨hsettings, hholds⟩ := holds_start hstart
  have h := hholds.after steps
  have hafter : (start.after steps).settings = settings :=
    (start.settings_after steps).trans hsettings
  refine ⟨?_, fun index sum => ⟨settings.sorted_counted _ _, fun i => ?_, fun trigger => ?_⟩⟩
  · have hedges := h.edges_eq
    rwa [hafter] at hedges
  · refine EdgeSettings.mem_counted_iff.trans ⟨And.right, fun hi => ⟨?_, hi⟩⟩
    simpa using hi.1.2.1
  · have hsignal := h.signal_eq_some_iff index sum trigger
    rwa [hafter] at hsignal

theorem signal_after_steps_of_two_edges :
    let settings : EdgeSettings :=
      { threshold := ⟨0x41200000⟩, settlingTime := 1, edgeNum := 2 }
    let steps : List Step :=
      [.signal 0 0, .signal 1 20, .reset, .signal 0 0, .signal 1 20, .signal 2 5, .signal 3 3]
    ∃ start, ofSettings settings = .ok start ∧ (start.after steps).edges.toNat = 1 ∧
      ((start.after steps).signal 77 10).1 = some ⟨77, 10, 2⟩ := by
  intro settings steps
  obtain ⟨start, hstart⟩ := (ofSettings_isOk_iff settings).2 ⟨by decide, by decide⟩
  obtain ⟨hedges, hsignal⟩ := signal_after_steps hstart steps
  refine ⟨start, hstart, hedges.trans (by decide +kernel), ?_⟩
  exact ((hsignal 77 10).2.2 ⟨77, 10, 2⟩).2 ⟨rfl, 1, by decide +kernel, by decide⟩

end EdgeCounter

end DigitiserSums
