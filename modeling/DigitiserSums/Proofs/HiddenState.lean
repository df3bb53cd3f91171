import DigitiserSums.Proofs.History

/-!
# Counts and hidden state

A session counts the samples that it took and the sums that it gave, and apart from that its
aggregator keeps a count and a total of its own. After any steps they fit together: the counts tell
how far the block or the window under way has come, and its total is that of the newest samples.
-/

namespace DigitiserSums

namespace Pipeline

/-- The hidden state of a pipeline as it follows from the numbers of samples taken and of sums given,
and from the samples after folding. -/
def Matches (p : Pipeline) (received emitted : Nat) (numbers : List Nat) : Prop :=
  match p with
  | downsample d =>
    received = d.factor * emitted + d.pending ∧ d.pending < d.factor ∧
      d.total.toNat = newestSum d.pending numbers
  | movingSum m =>
    emitted = received + 1 - m.width ∧ (m.IsWarm ↔ m.width ≤ received) ∧
      m.total.toNat = newestSum (min m.width received) numbers

theorem Holds.matches {p : Pipeline} {xs : List Sample} (h : p.Holds xs) :
    p.Matches xs.length (p.aggregation.sums (p.rectifier.numbers xs)).length
      (p.rectifier.numbers xs) := by
  cases p with
  | downsample d =>
      have hpending : d.pending = xs.length % d.factor := Decimator.Holds.pending_eq h
      have hsums := Aggregation.length_sums_downsample d.factor (d.rectifier.numbers xs)
      have hblocks := Nat.div_add_mod xs.length d.factor
      rw [Rectifier.length_numbers] at hsums
      rw [← hsums, ← hpending] at hblocks
      exact ⟨hblocks.symm, d.pending_lt, Decimator.Holds.toNat_total h⟩
  | movingSum m =>
      have hfilled : m.filled = min xs.length m.width := MovingSum.Holds.filled_eq h
      have hsums := Aggregation.length_sums_movingSum m.width (m.rectifier.numbers xs)
      have htotal := MovingSum.Holds.toNat_total h
      rw [newestSum_eq_min] at htotal
      rw [Rectifier.length_numbers] at hsums htotal
      refine ⟨hsums, ?_, htotal⟩
      unfold MovingSum.IsWarm
      omega

theorem warmUp_eq (p : Pipeline) : Aggregator.warmUp p = p.aggregation.size - 1 := by
  cases p <;> rfl

end Pipeline

namespace Session

variable {s start : Session} {config : SessionConfig} {xs : List Sample}

theorem Holds.matches (h : s.Holds config xs) :
    s.pipeline.Matches xs.length (config.sums xs).length (config.numbers xs) := by
  have hmatches := h.pipeline.matches
  rwa [h.aggregation_eq, h.rectifier_eq, config.numbers_rectifier] at hmatches

/-- After any steps, a session is of the size it was configured with, and its hidden state follows
from the samples taken since its start or last reset and from the number of sums given since then.
The two counts show these numbers, exactly as long as they fit their words; up to then the hidden
state follows from the counts. -/
theorem counts_after_steps (hstart : ofConfig config = .ok start) (steps : List Step) :
    let s := start.after steps
    let numbers := config.numbers (taken steps)
    s.pipeline.aggregation = config.aggregation ∧
      Aggregator.warmUp s.pipeline = config.aggregation.size - 1 ∧
      (∃ emitted, s.pipeline.Matches numbers.length emitted numbers ∧
        s.samplesReceived = .ofNat numbers.length ∧ s.sumsEmitted = .ofNat emitted) ∧
      (numbers.length < UInt64.size →
        s.pipeline.Matches s.samplesReceived.toNat s.sumsEmitted.toNat numbers) := by
  have h := holds_after hstart steps
  have hmatches := h.matches
  intro s numbers
  have hlength : numbers.length = (taken steps).length := config.length_numbers _
  rw [hlength]
  refine ⟨h.aggregation_eq, ?_, ⟨_, hmatches, h.samplesReceived_eq, h.sumsEmitted_eq⟩, ?_⟩
  · rw [Pipeline.warmUp_eq, h.aggregation_eq]
  · intro hcount
    obtain ⟨hreceived, hemitted⟩ := h.toNat_counts hcount
    rw [hreceived, hemitted]
    exact hmatches

theorem counts_after_steps_of_blocks :
    let config : SessionConfig := { aggregation := .downsample 2, absoluteValue := true }
    let steps : List Step := [.push 1, .reset, .push 600, .push 2000, .push 0, .push 500]
    ∃ start, ofConfig config = .ok start ∧ (config.numbers (taken steps)).length < UInt64.size ∧
      (start.after steps).samplesReceived = 3 ∧ (start.after steps).sumsEmitted = 1 ∧
      (start.after steps).pipeline.Matches 3 1 [600, 1023, 523] := by
  intro config steps
  obtain ⟨start, hstart⟩ : ∃ start, ofConfig config = .ok start := ⟨_, rfl⟩
  have hcount : (config.numbers (taken steps)).length < UInt64.size := by decide
  have hmatches := (counts_after_steps hstart steps).2.2.2 hcount
  have hcounts : (start.after steps).samplesReceived = 3 ∧ (start.after steps).sumsEmitted = 1 := by
    cases hstart
    decide +kernel
  rw [hcounts.1, hcounts.2] at hmatches
  exact ⟨start, hstart, hcount, hcounts.1, hcounts.2, hmatches⟩

end Session

end DigitiserSums
