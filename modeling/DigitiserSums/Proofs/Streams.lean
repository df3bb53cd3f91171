import DigitiserSums.Proofs.History
import DigitiserSums.TriggerSource

/-!
# Pushing and pulling

A session takes samples one at a time as they are pushed, refuses those that are out of range and
counts its sums itself; a source of triggers pulls sums, and each sum pulls samples. Both are built
from the same parts, and on the same samples both give the same sums and the same triggers.
-/

namespace DigitiserSums

/-- The parts of a session: the aggregator first, then the edge counter if there is one. -/
def SessionConfig.parts (config : SessionConfig) :
    Except ConfigurationError (Pipeline × Option EdgeCounter) := do
  let pipeline ← Pipeline.ofAggregation config.aggregation config.rectifier
  let counter ← config.edge.mapM EdgeCounter.ofSettings
  return (pipeline, counter)

namespace Session

/-- What a session emits while samples are pushed, where those it refuses leave it as it is. -/
def emissions (s : Session) (samples : List Sample) : List Emission :=
  (scan (fun s x => s.orKeep (s.push x)) s samples).1.filterMap fun reply => reply.toOption.join

variable {s : Session}

theorem emissions_cons_of_ok {x : Sample} {reply : Option Emission × Session}
    (h : s.push x = .ok reply) (samples : List Sample) :
    s.emissions (x :: samples) = reply.1.toList ++ reply.2.emissions samples := by
  obtain ⟨emission, next⟩ := reply
  rw [emissions, scan_cons, h, List.filterMap_cons]
  cases emission <;> rfl

theorem emissions_cons_of_error {x : Sample} {e : SampleOutOfRange} (h : s.push x = .error e)
    (samples : List Sample) : s.emissions (x :: samples) = s.emissions samples := by
  rw [emissions, scan_cons, h]
  rfl

theorem sums_pipeline_cons (p : Pipeline) (x : Sample) (samples : List Sample) :
    Aggregator.sums p (x :: samples) =
      (p.push x).1.toList ++ Aggregator.sums (p.push x).2 samples :=
  Aggregator.sums_cons p x samples

/-- The sums pushed out are those that the aggregator gives for the samples in range. -/
theorem map_sum_emissions (s : Session) (samples : List Sample) :
    (s.emissions samples).map Emission.sum =
      Aggregator.sums s.pipeline (samples.filter (· ≤ 1023)) := by
  induction samples generalizing s with
  | nil => rfl
  | cons x samples ih =>
      by_cases hx : x ≤ 1023
      · rw [List.filter_cons_of_pos (by simpa using hx), sums_pipeline_cons,
          emissions_cons_of_ok (s.push_eq_ok hx), List.map_append, ih]
        cases (s.pipeline.push x).1 <;> rfl
      · rw [List.filter_cons_of_neg (by simpa using hx),
          emissions_cons_of_error (s.push_eq_error hx), ih]

theorem advance_some {c : EdgeCounter} (h : s.edgeCounter = some c) (sum : Total)
    (pipeline : Pipeline) :
    s.advance (some sum) pipeline =
      (some ⟨s.samplesReceived, sum, (c.signal s.sumsEmitted sum).1⟩,
        { pipeline
          edgeCounter := some (c.signal s.sumsEmitted sum).2
          samplesReceived := s.samplesReceived + 1
          sumsEmitted := s.sumsEmitted + 1 }) := by
  simp [advance, watch, h]

/-- The triggers pushed out are those of the edge counter on these sums, numbered from the number of
sums emitted before. -/
theorem filterMap_trigger_emissions {c : EdgeCounter} (h : s.edgeCounter = some c)
    (samples : List Sample) :
    (s.emissions samples).filterMap Emission.trigger =
      (c.signalAll s.sumsEmitted
        (Aggregator.sums s.pipeline (samples.filter (· ≤ 1023)))).1.filterMap id := by
  induction samples generalizing s c with
  | nil => rfl
  | cons x samples ih =>
      by_cases hx : x ≤ 1023
      · rw [List.filter_cons_of_pos (by simpa using hx), sums_pipeline_cons,
          emissions_cons_of_ok (s.push_eq_ok hx), List.filterMap_append]
        cases hsum : (s.pipeline.push x).1 with
        | none => exact ih h
        | some sum =>
            -- The sum gets the place of the session's count, and the next sum the place behind it.
            rw [advance_some h, ih rfl]
            cases htrigger : (c.signal s.sumsEmitted sum).1 <;>
              simp [EdgeCounter.signalAll, EdgeCounter.numbered, EdgeCounter.signalAt, htrigger]
      · rw [List.filter_cons_of_neg (by simpa using hx),
          emissions_cons_of_error (s.push_eq_error hx), ih h]

/-- Without an edge counter there are no triggers. -/
theorem trigger_emissions_of_none (h : s.edgeCounter = none) (samples : List Sample) :
    ∀ e ∈ s.emissions samples, e.trigger = none := by
  induction samples generalizing s with
  | nil => exact nofun
  | cons x samples ih =>
      by_cases hx : x ≤ 1023
      · rw [emissions_cons_of_ok (s.push_eq_ok hx), List.forall_mem_append]
        cases hsum : (s.pipeline.push x).1 with
        | none => exact ⟨nofun, ih h⟩
        | some sum => exact ⟨by simp [advance, watch, h], ih (by simp [advance, watch, h])⟩
      · rw [emissions_cons_of_error (s.push_eq_error hx)]
        exact ih h

/-- A session is its parts at the start of both counts. -/
theorem ofConfig_eq_map_parts (config : SessionConfig) :
    ofConfig config = config.parts.map fun (pipeline, edgeCounter) =>
      { pipeline, edgeCounter, samplesReceived := 0, sumsEmitted := 0 } := by
  unfold ofConfig SessionConfig.parts
  cases Pipeline.ofAggregation config.aggregation config.rectifier with
  | error e => rfl
  | ok pipeline => cases config.edge.mapM EdgeCounter.ofSettings <;> rfl

/-- A session is refused for the reason that its parts are. Otherwise the aggregator, asked for its
sums, gives those of the emissions; and the edge counter, asked for its triggers, gives those of the
emissions, whether it takes the sums from a list or each from the aggregator when it needs one. -/
theorem pulled_eq_pushed (config : SessionConfig) (samples : List Sample) :
    (∀ e, ofConfig config = .error e ↔ config.parts = .error e) ∧
    ∀ pipeline edgeCounter, config.parts = .ok (pipeline, edgeCounter) →
      let source : Aggregator.Source Pipeline := ⟨pipeline, samples.filter (· ≤ 1023)⟩
      ∃ s, ofConfig config = .ok s ∧
        source.drain.1 = (s.emissions samples).map Emission.sum ∧
        match edgeCounter with
        | none => ∀ e ∈ s.emissions samples, e.trigger = none
        | some counter =>
          let triggers := (s.emissions samples).filterMap Emission.trigger
          (Feed.drain EdgeCounter.signalAt
            ⟨counter, EdgeCounter.numbered 0 source.drain.1⟩).1 = triggers ∧
          (TriggerSource.drain ⟨counter, 0, source⟩).1 = triggers := by
  rw [ofConfig_eq_map_parts]
  constructor
  · intro e
    cases config.parts <;> simp [Except.map]
  · intro pipeline edgeCounter hparts source
    have hsums : source.drain.1 = Aggregator.sums pipeline (samples.filter (· ≤ 1023)) :=
      Feed.drain_fst _ _
    refine ⟨_, by rw [hparts]; rfl, ?_, ?_⟩
    · rw [map_sum_emissions, hsums]
    · cases edgeCounter with
      | none => exact trigger_emissions_of_none rfl samples
      | some counter =>
          have htriggers := filterMap_trigger_emissions (s := ⟨pipeline, some counter, 0, 0⟩) rfl
            samples
          constructor
          · rw [htriggers, hsums, Feed.drain_fst]
            rfl
          · rw [htriggers, TriggerSource.drain_fst]
            rfl

theorem pulled_eq_pushed_of_blocks :
    let config : SessionConfig :=
      { aggregation := .downsample 2, edge := some { threshold := ⟨0x41200000⟩ } }
    let samples : List Sample := [1, 2, 2000, 10, 20, 3]
    ∃ pipeline counter s, config.parts = .ok (pipeline, some counter) ∧
      ofConfig config = .ok s ∧ (s.emissions samples).map Emission.sum = [3, 30] ∧
      (TriggerSource.drain ⟨counter, 0, ⟨pipeline, samples.filter (· ≤ 1023)⟩⟩).1 =
        [⟨1, 30, 1⟩] := by
  intro config samples
  obtain ⟨pipeline, counter, hparts⟩ :
      ∃ pipeline counter, config.parts = .ok (pipeline, some counter) := ⟨_, _, rfl⟩
  obtain ⟨s, hs, hsums, -, htriggers⟩ := (pulled_eq_pushed config samples).2 _ _ hparts
  cases hparts
  cases hs
  exact ⟨_, _, _, rfl, rfl, hsums.symm.trans (by decide), htriggers.trans (by decide +kernel)⟩

end Session

end DigitiserSums
