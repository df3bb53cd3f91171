import DigitiserSums.Proofs.ExactCounter
import DigitiserSums.Proofs.Replies

/-!
# Exact triggers

The sums of a session are too small to be rounded, so its triggers are those of an exact counter
that is shown the sums of its replies. As the sums are whole, a threshold may be moved to the next
whole number on the far side, and no reply changes.
-/

namespace DigitiserSums

open Session

/-! ## Sums that are exact -/

/-- Small sums call for the same triggers when the threshold moves to the next whole number. -/
theorem EdgeSettings.trigger?_whole {e : EdgeSettings} {y : Single}
    (hy : y.value = e.kind.whole e.threshold.value) {earlier : List Nat}
    (hearlier : ∀ n ∈ earlier, n < 2 ^ 24) {sum : Nat} (hsum : sum < 2 ^ 24) :
    ({ e with threshold := y } : EdgeSettings).trigger? earlier sum = e.trigger? earlier sum := by
  have hall : ∀ n ∈ earlier ++ [sum], n < 2 ^ 24 :=
    List.forall_mem_append.2 ⟨hearlier, List.forall_mem_singleton.2 hsum⟩
  have hlt (i : Nat) (hi : i < (earlier ++ [sum]).length) :
      (earlier ++ [sum]).getD i 0 < 2 ^ 24 := by
    rw [List.getD_eq_getElem _ _ hi]
    exact hall _ (List.getElem_mem hi)
  refine trigger?_congr rfl rfl fun i => ?_
  refine and_congr_right fun hpos => and_congr_right fun hi => ?_
  have hprevious := hlt (i - 1) (by omega)
  rw [EdgeKind.crosses_iff_crossesValue _ _ hprevious (hlt i hi),
    EdgeKind.crosses_iff_crossesValue _ _ hprevious (hlt i hi), hy, EdgeKind.crossesValue_whole]

namespace SessionConfig

/-- An edge counter at work in a session: it and the aggregator were accepted. -/
structure Watches (config : SessionConfig) (edge : EdgeSettings) : Prop where
  edge_eq : config.edge = some edge
  edgeNum_ne_zero : edge.edgeNum ≠ 0
  isFinite_threshold : edge.threshold.IsFinite
  size_pos : 0 < config.aggregation.size
  size_le : config.aggregation.size ≤ 255

theorem watches_of_ofConfig {config : SessionConfig} {edge : EdgeSettings} {start : Session}
    (hedge : config.edge = some edge) (h : ofConfig config = .ok start) : config.Watches edge := by
  have hholds := holds_ofConfig h
  obtain ⟨counter, -, hsettings⟩ := Option.map_eq_some_iff.1 (hholds.settings_eq.trans hedge)
  exact ⟨hedge, hsettings ▸ counter.edgeNum_ne_zero, hsettings ▸ counter.isFinite_threshold,
    hholds.size_pos, hholds.size_le⟩

namespace Watches

variable {config : SessionConfig} {edge : EdgeSettings} {xs : List Sample} {x : Sample}

theorem size_mul_le (h : config.Watches edge) : config.aggregation.size * 1023 ≤ 255 * 1023 :=
  Nat.mul_le_mul_right 1023 h.size_le

theorem size_mul_lt (h : config.Watches edge) : config.aggregation.size * 1023 < 2 ^ 24 :=
  Nat.lt_of_le_of_lt h.size_mul_le (by decide)

theorem sums_nil (h : config.Watches edge) : config.sums [] = [] :=
  Aggregation.sums_nil h.size_pos

/-- The sums of a session are too small to be rounded. -/
theorem sums_lt (h : config.Watches edge) (hxs : ∀ x ∈ xs, x ≤ 1023) :
    ∀ sum ∈ config.sums xs, sum < 2 ^ 24 :=
  fun sum hsum => Nat.lt_of_le_of_lt (sums_le h.size_pos hxs sum hsum) h.size_mul_lt

theorem due_lt (h : config.Watches edge) (hxs : ∀ x ∈ xs, x ≤ 1023) (hx : x ≤ 1023) {sum : Nat}
    (hsum : config.aggregation.due (config.numbers (xs ++ [x])) = some sum) : sum < 2 ^ 24 :=
  Nat.lt_of_le_of_lt (due_le hxs hx hsum) h.size_mul_lt

theorem emission?_whole (h : config.Watches edge) {y : Single}
    (hy : y.value = edge.kind.whole edge.threshold.value) (hxs : ∀ x ∈ xs, x ≤ 1023)
    (hx : x ≤ 1023) :
    ({ config with edge := some { edge with threshold := y } } : SessionConfig).emission? xs x =
      config.emission? xs x := by
  unfold SessionConfig.emission?
  refine Option.map_congr fun sum hsum => ?_
  have htrigger := EdgeSettings.trigger?_whole hy (h.sums_lt hxs) (h.due_lt hxs hx hsum)
  rw [h.edge_eq]
  simp only [Option.bind_some, Emission.mk.injEq, true_and]
  exact htrigger

end Watches

end SessionConfig

/-! ## Following the replies -/

namespace ExactCounter

/-- Shows the counter a sum, if there is one. -/
def observe (c : ExactCounter) : Option Emission → Option Trigger × ExactCounter
  | none => (none, c)
  | some emission => c.signal emission.sum.toNat

/-- Follows a session through one reply: shows the counter the sum in it, and starts over when the
session does. -/
def follow (c : ExactCounter) : Reply → Option Trigger × ExactCounter
  | .reset => (none, c.reset)
  | reply => c.observe reply.emission?

end ExactCounter

namespace SessionConfig.Watches

variable {config : SessionConfig} {edge : EdgeSettings} {xs : List Sample} {x : Sample}

/-- An exact counter that was shown all sums so far gives the trigger of the next. -/
theorem observe_emission? (h : config.Watches edge) (hxs : ∀ x ∈ xs, x ≤ 1023) (hx : x ≤ 1023) :
    ((ExactCounter.ofSettings edge).after (config.sums xs)).observe (config.emission? xs x) =
      ((config.emission? xs x).bind Emission.trigger,
        (ExactCounter.ofSettings edge).after (config.sums (xs ++ [x]))) := by
  unfold SessionConfig.emission?
  rw [config.sums_concat]
  cases hsum : config.aggregation.due (config.numbers (xs ++ [x])) with
  | none => simp [ExactCounter.observe]
  | some sum =>
      have hlt := h.due_lt hxs hx hsum
      have hword := EdgeCounter.toNat_ofNat_of_lt hlt
      have htrigger :=
        EdgeSettings.trigger?_eq_signal h.edgeNum_ne_zero h.isFinite_threshold (h.sums_lt hxs) hlt
      simp only [Option.map_some, Option.toList_some, Option.bind_some, ExactCounter.observe, hword,
        ExactCounter.after_concat, h.edge_eq, htrigger]

/-- One step of the session. -/
theorem follow_reply (h : config.Watches edge) (hxs : ∀ x ∈ xs, x ≤ 1023) (st : Step) :
    ((ExactCounter.ofSettings edge).after (config.sums xs)).follow (config.reply xs st) =
      ((config.reply xs st).trigger?,
        (ExactCounter.ofSettings edge).after (config.sums (takenNext xs st))) := by
  by_cases hst : st = .reset
  · subst hst
    simp only [takenNext, h.sums_nil]
    exact congrArg (Prod.mk none) (ExactCounter.reset_after _ _)
  · have hfollow (c : ExactCounter) :
        c.follow (config.reply xs st) = c.observe (config.reply xs st).emission? := by
      cases st with
      | reset => contradiction
      | push x => rfl
      | processLine line => rfl
      | handleLine line => rfl
    rw [hfollow, Reply.trigger?, emission?_reply, takenNext_of_ne_reset hst]
    cases hx : st.inRange? with
    | none => simp [ExactCounter.observe]
    | some x => exact h.observe_emission? hxs (Step.le_of_inRange? hx)

/-- All steps of a run. -/
theorem scan_follow_replies (h : config.Watches edge) (hxs : ∀ x ∈ xs, x ≤ 1023)
    (steps : List Step) :
    (scan ExactCounter.follow ((ExactCounter.ofSettings edge).after (config.sums xs))
      (config.replies xs steps)).1 = (config.replies xs steps).map Reply.trigger? := by
  induction steps generalizing xs with
  | nil => rfl
  | cons st steps ih =>
      rw [replies, scan_cons, h.follow_reply hxs, List.map_cons, ih (takenNext_le hxs st)]

end SessionConfig.Watches

namespace Session

/-- In a session with an edge counter, no sum is larger than 255 full scales, so that none is
rounded, and whatever the steps, the triggers are those of the exact counter that follows the
replies. So the threshold may be replaced: there is a number for the next whole number on the far
side, and with any such number in its place a session gives the same replies to the same steps. -/
theorem triggers_exact {config : SessionConfig} {edge : EdgeSettings}
    (hedge : config.edge = some edge) {start : Session} (hstart : ofConfig config = .ok start) :
    (∀ steps, ∀ reply ∈ start.replies steps, ∀ emission ∈ reply.emission?,
      emission.sum.toNat ≤ 255 * 1023 ∧
        Single.valueOfNat emission.sum.toNat = emission.sum.toNat) ∧
    (∀ steps, (scan ExactCounter.follow (.ofSettings edge) (start.replies steps)).1 =
      (start.replies steps).map Reply.trigger?) ∧
    (∃ y : Single, y.IsFinite ∧ y.value = edge.kind.whole edge.threshold.value) ∧
    ∀ y : Single, y.IsFinite → y.value = edge.kind.whole edge.threshold.value →
      ∃ moved, ofConfig { config with edge := some { edge with threshold := y } } = .ok moved ∧
        ∀ steps, moved.replies steps = start.replies steps := by
  have hwatches := SessionConfig.watches_of_ofConfig hedge hstart
  have hnone : ∀ x ∈ ([] : List Sample), x ≤ 1023 := List.forall_mem_nil _
  refine ⟨?_, ?_, edge.kind.exists_value_eq_whole hwatches.isFinite_threshold, ?_⟩
  · intro steps reply hreply emission hemission
    rw [replies_of_ofConfig hstart] at hreply
    have hle := SessionConfig.sum_replies_le hnone steps reply hreply emission hemission
    exact ⟨Nat.le_trans hle hwatches.size_mul_le,
      Single.valueOfNat_of_lt (Nat.lt_of_le_of_lt hle hwatches.size_mul_lt)⟩
  · intro steps
    have hfollow := hwatches.scan_follow_replies hnone steps
    rw [hwatches.sums_nil] at hfollow
    rw [replies_of_ofConfig hstart]
    exact hfollow
  · intro y hfinite hy
    obtain ⟨pipeline, hpipeline, -⟩ := bind_eq_ok_iff.1 hstart
    obtain ⟨moved, hmoved⟩ := (ofConfig_of_edge
      { config with edge := some { edge with threshold := y } } rfl hwatches.edgeNum_ne_zero
      hfinite).2 pipeline hpipeline
    refine ⟨moved, hmoved, fun steps => ?_⟩
    rw [replies_of_ofConfig hmoved, replies_of_ofConfig hstart]
    exact SessionConfig.replies_congr (fun _ hxs _ hx => hwatches.emission?_whole hy hxs hx) hnone
      steps

/-- A threshold half way between 1000 and 1001. -/
theorem triggers_exact_of_half :
    let edge : EdgeSettings := { threshold := ⟨0x447A2000⟩ }
    let config : SessionConfig :=
      { aggregation := .movingSum 2, edge := some { threshold := ⟨0x447A2000⟩ } }
    let steps : List Step := [.push 500, .push 500, .handleLine " 501\r", .push 2000, .reset,
      .push 600, .push 400, .processLine "601"]
    let triggers : List (Option Trigger) :=
      [none, none, some ⟨1, 1001, 1⟩, none, none, none, none, some ⟨1, 1001, 1⟩]
    ∃ start moved, ofConfig config = .ok start ∧
      edge.threshold.value = 2001 / 2 ∧ (Single.ofInt 1001).IsFinite ∧
      (Single.ofInt 1001).value = 1001 ∧
      ofConfig { config with edge := some { edge with threshold := .ofInt 1001 } } = .ok moved ∧
      (start.replies steps).map Reply.trigger? = triggers ∧
      (scan ExactCounter.follow (.ofSettings edge) (start.replies steps)).1 = triggers ∧
      moved.replies steps = start.replies steps := by
  intro edge config steps triggers
  obtain ⟨start, hstart⟩ : ∃ start, ofConfig config = .ok start := ⟨_, rfl⟩
  have hedge : config.edge = some edge := rfl
  obtain ⟨-, hexact, -, hmoved⟩ := triggers_exact hedge hstart
  have hhalf : edge.threshold.value = 2001 / 2 := by decide +kernel
  have hdenotes : (Single.ofInt 1001).Denotes 1001 := Single.denotes_ofInt (by decide)
  have hwhole : edge.kind.whole edge.threshold.value = 1001 := by
    rw [hhalf]
    decide +kernel
  have hvalue : (Single.ofInt 1001).value = edge.kind.whole edge.threshold.value := by
    rw [hdenotes.value_eq, hwhole]
  obtain ⟨moved, hofConfig, hreplies⟩ := hmoved _ hdenotes.1 hvalue
  have htriggers : (start.replies steps).map Reply.trigger? = triggers := by
    cases hstart
    decide +kernel
  exact ⟨start, moved, hstart, hhalf, hdenotes.1, hdenotes.value_eq, hofConfig, htriggers,
    (hexact steps).trans htriggers, hreplies steps⟩

end Session

end DigitiserSums
