import DigitiserSums.Proofs.Crossings
import DigitiserSums.Proofs.ExactValues

/-!
# Edges without rounding

An edge counter that works with numbers as they are: it compares whole sums with a rational
threshold, and its countdown and its counts have no limit. On sums below `2 ^ 24` an edge counter of
words does the same, step by step, and so the exact counter tells which sums call for a trigger.
-/

namespace DigitiserSums

structure ExactCounter where
  kind : EdgeKind
  threshold : ℚ
  settlingTime : Nat
  edgeNum : Nat
  /-- The number of sums since the start or the last reset. -/
  seen : Nat := 0
  previous : Option Nat := none
  /-- The number of sums still to be ignored. -/
  settling : Nat := 0
  /-- The number of edges since the last trigger. -/
  edges : Nat := 0
deriving DecidableEq

namespace ExactCounter

/-- The exact counter that looks for what the settings say. -/
def ofSettings (e : EdgeSettings) : ExactCounter where
  kind := e.kind
  threshold := e.threshold.value
  settlingTime := e.settlingTime.toNat
  edgeNum := e.edgeNum.toNat

def reset (c : ExactCounter) : ExactCounter :=
  { c with seen := 0, previous := none, settling := 0, edges := 0 }

/-- Counts one more edge, and makes a trigger of it if it is the last one asked for. -/
def countEdge (c : ExactCounter) (index sum : Nat) : Option Trigger × ExactCounter :=
  let c := { c with settling := c.settlingTime, edges := c.edges + 1 }
  if c.edges = c.edgeNum then
    (some ⟨.ofNat index, .ofNat sum, .ofNat c.edges⟩, { c with edges := 0 })
  else (none, c)

/-- Takes the next sum and gives a trigger if it completes one. -/
def signal (c : ExactCounter) (sum : Nat) : Option Trigger × ExactCounter :=
  let next := { c with seen := c.seen + 1, previous := some sum }
  if 0 < c.settling then (none, { next with settling := c.settling - 1 })
  else match c.previous with
    | none => (none, next)
    | some previous =>
      if c.kind.CrossesValue c.threshold previous sum then next.countEdge c.seen sum
      else (none, next)

/-- The counter after it took sums. -/
def after (c : ExactCounter) (sums : List Nat) : ExactCounter :=
  sums.foldl (fun c sum => (c.signal sum).2) c

variable {c : ExactCounter}

theorem after_concat (c : ExactCounter) (sums : List Nat) (sum : Nat) :
    c.after (sums ++ [sum]) = ((c.after sums).signal sum).2 := by
  simp [after]

@[simp] theorem reset_signal (c : ExactCounter) (sum : Nat) : (c.signal sum).2.reset = c.reset := by
  simp only [signal, countEdge]
  repeat' split
  all_goals rfl

@[simp] theorem reset_after (c : ExactCounter) (sums : List Nat) :
    (c.after sums).reset = c.reset := by
  induction sums generalizing c with
  | nil => rfl
  | cons sum sums ih => exact (ih _).trans (c.reset_signal sum)

end ExactCounter

namespace EdgeCounter

variable {c : EdgeCounter} {sums : List Nat} {sum : Total}

/-- What stands in the words of a counter that has taken so many sums. -/
def unbounded (c : EdgeCounter) (seen : Nat) : ExactCounter where
  kind := c.settings.kind
  threshold := c.settings.threshold.value
  settlingTime := c.settings.settlingTime.toNat
  edgeNum := c.settings.edgeNum.toNat
  seen
  previous := c.previous.map UInt32.toNat
  settling := c.settling.toNat
  edges := c.edges.toNat

/-- Small sums fit their word. -/
theorem toNat_ofNat_of_lt {n : Nat} (h : n < 2 ^ 24) : (UInt32.ofNat n).toNat = n :=
  UInt32.toNat_ofNat_of_lt' (Nat.lt_trans h (by decide))

theorem isEdge_iff {previous : Total} (hprevious : previous.toNat < 2 ^ 24)
    (hsum : sum.toNat < 2 ^ 24) :
    c.IsEdge previous sum ↔
      c.settings.kind.CrossesValue c.settings.threshold.value previous.toNat sum.toNat :=
  EdgeKind.crosses_iff_crossesValue _ _ hprevious hsum

namespace Holds

theorem countEdge_unbounded (h : c.Holds sums) (seen : Nat) (sum : Total) :
    ({ c.unbounded (seen + 1) with previous := some sum.toNat } : ExactCounter).countEdge
        seen sum.toNat =
      (({ c with previous := some sum } : EdgeCounter).countEdge (.ofNat seen) sum).map id
        fun next => next.unbounded (seen + 1) := by
  have hone := h.toNat_edges_add_one
  have hfull : c.edges + 1 = c.settings.edgeNum ↔ c.edges.toNat + 1 = c.settings.edgeNum.toNat := by
    rw [← UInt8.toNat_inj, hone]
  unfold EdgeCounter.countEdge ExactCounter.countEdge
  by_cases hlast : c.edges.toNat + 1 = c.settings.edgeNum.toNat
  · simp [unbounded, hlast, hfull.2 hlast]
  · simp [unbounded, hlast, mt hfull.1 hlast, hone]

/-- Small sums are taken exactly. -/
theorem signal_unbounded (h : c.Holds sums) (hsums : ∀ n ∈ sums, n < 2 ^ 24)
    (hsum : sum.toNat < 2 ^ 24) :
    (c.unbounded sums.length).signal sum.toNat =
      (c.signal (.ofNat sums.length) sum).map id fun next => next.unbounded (sums.length + 1) := by
  have hlast := h.previous_eq
  unfold EdgeCounter.signal ExactCounter.signal
  by_cases hmask : 0 < c.settling
  · have hpos : 0 < c.settling.toNat := UInt8.lt_iff_toNat_lt.1 hmask
    have hdown : (c.settling - 1).toNat = c.settling.toNat - 1 :=
      UInt8.toNat_sub_of_le _ _ (UInt8.le_iff_toNat_le.2 hpos)
    simp [unbounded, hmask, hpos, hdown]
  · have hzero : ¬ 0 < c.settling.toNat := fun hpos => hmask (UInt8.lt_iff_toNat_lt.2 hpos)
    cases hp : c.previous with
    | none => simp [unbounded, hmask, hzero, hp]
    | some previous =>
        have hmem : previous.toNat ∈ sums := by
          refine List.mem_of_getLast? ?_
          rw [← hlast, hp, Option.map_some]
        have hedge := c.isEdge_iff (hsums _ hmem) hsum
        by_cases hcross : c.IsEdge previous sum
        · have hcount := h.countEdge_unbounded sums.length sum
          simpa [unbounded, hmask, hzero, hp, hcross, hedge.1 hcross] using hcount
        · simp [unbounded, hmask, hzero, hp, hcross, mt hedge.2 hcross]

/-- The same said of a whole number, with the trigger that it calls for. -/
theorem signal_ofNat (h : c.Holds sums) (hsums : ∀ n ∈ sums, n < 2 ^ 24) {n : Nat}
    (hn : n < 2 ^ 24) :
    (c.unbounded sums.length).signal n =
        (c.settings.trigger? sums n,
          (c.signal (.ofNat sums.length) (.ofNat n)).2.unbounded (sums.length + 1)) ∧
      (c.signal (.ofNat sums.length) (.ofNat n)).2.Holds (sums ++ [n]) := by
  have hword := toNat_ofNat_of_lt hn
  have hsum : (UInt32.ofNat n).toNat < 2 ^ 24 := hword.symm ▸ hn
  have hsignal := h.signal_unbounded hsums hsum
  have hnext := h.signal (.ofNat sums.length) (.ofNat n)
  rw [hword] at hsignal hnext
  exact ⟨hsignal.trans (Prod.ext hnext.1 rfl), hnext.2⟩

end Holds

/-- After small sums, the words of the counter hold what the exact counter holds. -/
theorem exists_unbounded_eq {settings : EdgeSettings} {start : EdgeCounter}
    (hstart : ofSettings settings = .ok start) {sums : List Nat} (hsums : ∀ n ∈ sums, n < 2 ^ 24) :
    ∃ c : EdgeCounter, c.settings = settings ∧ c.Holds sums ∧
      c.unbounded sums.length = (ExactCounter.ofSettings settings).after sums := by
  induction sums using List.reverseRecOn with
  | nil =>
      obtain ⟨hsettings, hholds⟩ := holds_start hstart
      refine ⟨start, hsettings, hholds, ?_⟩
      rw [← (reset_eq_of_ofSettings hstart).2, ← hsettings]
      rfl
  | append_singleton sums n ih =>
      have hall := List.forall_mem_append.1 hsums
      obtain ⟨c, hsettings, hholds, hunbounded⟩ := ih hall.1
      obtain ⟨hsignal, hnext⟩ := hholds.signal_ofNat hall.1 (hall.2 n List.mem_cons_self)
      refine ⟨_, (c.settings_signal _ _).trans hsettings, hnext, ?_⟩
      rw [ExactCounter.after_concat, ← hunbounded, hsignal, List.length_append,
        List.length_singleton]

end EdgeCounter

/-- The exact counter gives the triggers that small sums call for. -/
theorem EdgeSettings.trigger?_eq_signal {e : EdgeSettings} (hnum : e.edgeNum ≠ 0)
    (hfinite : e.threshold.IsFinite) {sums : List Nat} (hsums : ∀ n ∈ sums, n < 2 ^ 24) {sum : Nat}
    (hsum : sum < 2 ^ 24) :
    e.trigger? sums sum = (((ExactCounter.ofSettings e).after sums).signal sum).1 := by
  obtain ⟨start, hstart⟩ := (EdgeCounter.ofSettings_isOk_iff e).2 ⟨hnum, hfinite⟩
  obtain ⟨c, rfl, hholds, hunbounded⟩ := EdgeCounter.exists_unbounded_eq hstart hsums
  rw [← hunbounded, (hholds.signal_ofNat hsums hsum).1]

end DigitiserSums
