import DigitiserSums.Proofs.Signals

/-!
# The states of an edge counter

An edge counter keeps a sum, a countdown and a count of edges, and a signal leaves by one of five
ways that change them differently. `Exits` has the ways, and each keeps the three fields consistent.
So the count stays short of the edges asked for, and testing it for equality is as good as testing
whether it got there.
-/

namespace DigitiserSums

namespace EdgeCounter

variable {c start : EdgeCounter} {settings : EdgeSettings} {index : Position} {sum : Total}
  {result : Option Trigger × EdgeCounter}

/-! ## One signal -/

/-- The ways out of a signal, each with what it gives and leaves. -/
inductive Exits (c : EdgeCounter) (index : Position) (sum : Total) :
    Option Trigger × EdgeCounter → Prop
  /-- The settling time is not over. -/
  | masked (hsettling : 0 < c.settling) :
      Exits c index sum (none, { c with previous := some sum, settling := c.settling - 1 })
  /-- There is no sum to compare with. -/
  | first (hsettling : c.settling = 0) (hprevious : c.previous = none) :
      Exits c index sum (none, { c with previous := some sum })
  | noEdge {previous : Total} (hsettling : c.settling = 0) (hprevious : c.previous = some previous)
      (hedge : ¬ c.IsEdge previous sum) :
      Exits c index sum (none, { c with previous := some sum })
  /-- An edge that is not the last one asked for. -/
  | edge {previous : Total} (hsettling : c.settling = 0) (hprevious : c.previous = some previous)
      (hedge : c.IsEdge previous sum) (hmore : c.edges + 1 ≠ c.settings.edgeNum) :
      Exits c index sum (none, { c with
        previous := some sum, settling := c.settings.settlingTime, edges := c.edges + 1 })
  | trigger {previous : Total} (hsettling : c.settling = 0)
      (hprevious : c.previous = some previous) (hedge : c.IsEdge previous sum)
      (hlast : c.edges + 1 = c.settings.edgeNum) :
      Exits c index sum (some ⟨index, sum, c.edges + 1⟩, { c with
        previous := some sum, settling := c.settings.settlingTime, edges := 0 })

theorem exits_signal (c : EdgeCounter) (index : Position) (sum : Total) :
    Exits c index sum (c.signal index sum) := by
  unfold signal
  by_cases hmask : 0 < c.settling
  · rw [if_pos hmask]
    exact .masked hmask
  · have hsettling : c.settling = 0 := not_not.1 (mt UInt8.pos_iff_ne_zero.2 hmask)
    rw [if_neg hmask]
    cases hprevious : c.previous with
    | none => exact .first hsettling hprevious
    | some previous =>
        by_cases hedge : c.IsEdge previous sum
        · simp only [if_pos hedge, countEdge]
          by_cases hlast : c.edges + 1 = c.settings.edgeNum
          · rw [if_pos hlast]
            exact .trigger hsettling hprevious hedge hlast
          · rw [if_neg hlast]
            exact .edge hsettling hprevious hedge hlast
        · simp only [if_neg hedge]
          exact .noEdge hsettling hprevious hedge

/-- The counter takes a sum for an edge: it is not ignoring sums, and the step from the previous sum
crosses the threshold. -/
def Counts (c : EdgeCounter) (sum : Total) : Prop :=
  c.settling = 0 ∧ ∃ previous, c.previous = some previous ∧ c.IsEdge previous sum

/-! ## Consistent states -/

/-- What the three fields of a counter keep to. -/
structure Consistent (c : EdgeCounter) : Prop where
  edges_lt : c.edges < c.settings.edgeNum
  settling_le : c.settling ≤ c.settings.settlingTime
  settling_eq_zero : c.previous = none → c.settling = 0
  edges_eq_zero : c.previous = none → c.edges = 0

theorem consistent_reset (c : EdgeCounter) : c.reset.Consistent :=
  ⟨UInt8.pos_iff_ne_zero.2 c.edgeNum_ne_zero, UInt8.zero_le, fun _ => rfl, fun _ => rfl⟩

namespace Consistent

/-- One edge more never wraps the count. -/
theorem toNat_edges_add_one (h : c.Consistent) : (c.edges + 1).toNat = c.edges.toNat + 1 :=
  toNat_edges_add_one_of_lt (UInt8.lt_iff_toNat_lt.1 h.edges_lt)

/-- Every way out of a signal leaves a consistent state. -/
theorem of_exits (h : c.Consistent) (hexits : Exits c index sum result) : result.2.Consistent := by
  cases hexits with
  | masked hsettling =>
      have hone : (1 : UInt8) ≤ c.settling :=
        UInt8.le_iff_toNat_le.2 (UInt8.lt_iff_toNat_lt.1 hsettling)
      have hle := UInt8.le_iff_toNat_le.1 h.settling_le
      refine ⟨h.edges_lt, UInt8.le_iff_toNat_le.2 ?_, nofun, nofun⟩
      rw [UInt8.toNat_sub_of_le _ _ hone]
      exact Nat.le_trans (Nat.sub_le _ _) hle
  | first => exact ⟨h.edges_lt, h.settling_le, nofun, nofun⟩
  | noEdge => exact ⟨h.edges_lt, h.settling_le, nofun, nofun⟩
  | edge _ _ _ hmore =>
      have hlt := UInt8.lt_iff_toNat_lt.1 h.edges_lt
      have hone := h.toNat_edges_add_one
      rw [ne_eq, ← UInt8.toNat_inj] at hmore
      refine ⟨UInt8.lt_iff_toNat_lt.2 ?_, UInt8.le_refl _, nofun, nofun⟩
      change (c.edges + 1).toNat < c.settings.edgeNum.toNat
      omega
  | trigger =>
      exact ⟨UInt8.pos_iff_ne_zero.2 c.edgeNum_ne_zero, UInt8.le_refl _, nofun, nofun⟩

theorem next (h : c.Consistent) (st : Step) : (c.next st).Consistent := by
  cases st with
  | signal index sum => exact h.of_exits (c.exits_signal index sum)
  | reset => exact c.consistent_reset

theorem after (h : c.Consistent) (steps : List Step) : (c.after steps).Consistent := by
  induction steps generalizing c with
  | nil => exact h
  | cons st steps ih => exact ih (h.next st)

/-- A trigger comes of an edge that brings the count to the edges asked for or beyond. -/
theorem eq_some_iff_of_exits (h : c.Consistent) (hexits : Exits c index sum result)
    (trigger : Trigger) :
    result.1 = some trigger ↔
      c.Counts sum ∧ c.settings.edgeNum.toNat ≤ c.edges.toNat + 1 ∧
        trigger = ⟨index, sum, c.settings.edgeNum⟩ := by
  have hone := h.toNat_edges_add_one
  have hlt := UInt8.lt_iff_toNat_lt.1 h.edges_lt
  cases hexits with
  | masked hsettling =>
      refine ⟨nofun, fun ⟨hcounts, _⟩ => ?_⟩
      exact absurd hcounts.1 (UInt8.pos_iff_ne_zero.1 hsettling)
  | first _ hprevious =>
      refine ⟨nofun, fun ⟨⟨_, _, hsome, _⟩, _⟩ => ?_⟩
      cases hprevious.symm.trans hsome
  | noEdge _ hprevious hedge =>
      refine ⟨nofun, fun ⟨⟨_, _, hsome, hcross⟩, _⟩ => ?_⟩
      cases hprevious.symm.trans hsome
      exact absurd hcross hedge
  | edge _ _ _ hmore =>
      -- A count that is short of the edges asked for could only be beyond them by reaching them.
      refine ⟨nofun, fun ⟨_, hle, _⟩ => ?_⟩
      exact absurd (UInt8.toNat_inj.1 (by omega)) hmore
  | trigger hsettling hprevious hedge hlast =>
      have hle : c.settings.edgeNum.toNat ≤ c.edges.toNat + 1 := by rw [← hlast, hone]
      rw [Option.some_inj, ← hlast]
      exact ⟨fun heq => ⟨⟨hsettling, _, hprevious, hedge⟩, hone.le, heq.symm⟩,
        fun hcounts => hcounts.2.2.symm⟩

end Consistent

/-! ## Runs -/

theorem Exits.reset_eq (h : Exits c index sum result) : result.2.reset = c.reset := by
  cases h <;> rfl

theorem reset_next (c : EdgeCounter) (st : Step) : (c.next st).reset = c.reset := by
  cases st with
  | signal index sum => exact (c.exits_signal index sum).reset_eq
  | reset => rfl

theorem reset_after (c : EdgeCounter) (steps : List Step) : (c.after steps).reset = c.reset := by
  induction steps generalizing c with
  | nil => rfl
  | cons st steps ih => exact (ih (c.next st)).trans (c.reset_next st)

/-- A counter lacks a previous sum just after its start and after a reset. -/
theorem previous_after_eq_none_iff (hstart : start.reset = start) (steps : List Step) :
    (start.after steps).previous = none ↔ ∀ st ∈ steps.getLast?, st = .reset := by
  rcases List.eq_nil_or_concat' steps with rfl | ⟨front, last, rfl⟩
  · rw [← hstart]
    exact ⟨fun _ => nofun, fun _ => rfl⟩
  · have hafter : start.after (front ++ [last]) = (start.after front).next last :=
      List.foldl_concat ..
    rw [hafter, List.getLast?_concat]
    cases last with
    | signal index sum => simp [next]
    | reset => simp [next, reset]

/-- After any signals and resets, a counter has counted fewer edges than make a trigger, ignores no
more sums than its settling time, and ignores none and has counted none while there is no previous
sum. One edge more does not wrap the count, and a trigger is given exactly for an edge that brings
it to the edges asked for or beyond. A previous sum is lacking exactly at the start and after a
reset, and to reset gives the counter as it was at its start. -/
theorem consistent_after_steps (hstart : ofSettings settings = .ok start) (steps : List Step) :
    let c := start.after steps
    c.settings = settings ∧ c.Consistent ∧ (c.edges + 1).toNat = c.edges.toNat + 1 ∧
      (∀ index sum trigger, (c.signal index sum).1 = some trigger ↔
        c.Counts sum ∧ settings.edgeNum.toNat ≤ c.edges.toNat + 1 ∧
          trigger = ⟨index, sum, settings.edgeNum⟩) ∧
      (c.settling = 0 ∧ c.previous = none ↔ ∀ st ∈ steps.getLast?, st = .reset) ∧
      c.reset = start := by
  obtain ⟨hsettings, hreset⟩ := reset_eq_of_ofSettings hstart
  have h : (start.after steps).Consistent := (hreset ▸ start.consistent_reset).after steps
  have hafter : (start.after steps).settings = settings :=
    (start.settings_after steps).trans hsettings
  have hprevious := previous_after_eq_none_iff hreset steps
  refine ⟨hafter, h, h.toNat_edges_add_one, fun index sum trigger => ?_, ?_,
    (start.reset_after steps).trans hreset⟩
  · have htrigger := h.eq_some_iff_of_exits (exits_signal _ index sum) trigger
    rwa [hafter] at htrigger
  · rw [← hprevious]
    exact ⟨And.right, fun hnone => ⟨h.settling_eq_zero hnone, hnone⟩⟩

theorem consistent_after_steps_of_two_edges :
    let settings : EdgeSettings :=
      { threshold := ⟨0x41200000⟩, settlingTime := 1, edgeNum := 2 }
    let steps : List Step := [.signal 0 0, .reset, .signal 7 0, .signal 8 20, .signal 9 5]
    ∃ start, ofSettings settings = .ok start ∧ (start.after steps).Consistent ∧
      (start.after steps).edges = 1 ∧ ((start.after steps).signal 77 10).1 = some ⟨77, 10, 2⟩ ∧
      (start.after steps).previous ≠ none ∧ (start.after steps).reset = start := by
  intro settings steps
  obtain ⟨start, hstart, hcounts, hedges⟩ : ∃ start, ofSettings settings = .ok start ∧
      (start.after steps).Counts 10 ∧ (start.after steps).edges = 1 :=
    ⟨⟨settings, none, 0, 0, by decide, by decide⟩,
      (dif_neg (by decide)).trans (dif_pos (by decide)),
      ⟨by decide +kernel, 5, by decide +kernel, by decide +kernel⟩, by decide +kernel⟩
  obtain ⟨-, hconsistent, -, htrigger, hfirst, hreset⟩ := consistent_after_steps hstart steps
  refine ⟨start, hstart, hconsistent, hedges, ?_, fun hnone => ?_, hreset⟩
  · exact (htrigger 77 10 _).2 ⟨hcounts, by rw [hedges]; decide, rfl⟩
  · cases hfirst.1 ⟨hcounts.1, hnone⟩ _ rfl

end EdgeCounter

end DigitiserSums
