import DigitiserSums.EdgeCounter
import DigitiserSums.Pipeline

/-!
# Sessions

A session is a pipeline, followed by an edge counter if one is configured, with the numbers of
samples taken and of sums emitted since its start or last reset.
-/

namespace DigitiserSums

structure SessionConfig where
  aggregation : Aggregation
  /-- Whether samples are folded. -/
  absoluteValue : Bool := false
  foldPolicy : FoldPolicy := default
  /-- What the edge counter looks for, if there is one. -/
  edge : Option EdgeSettings := none
deriving DecidableEq, Repr

def SessionConfig.rectifier (config : SessionConfig) : Rectifier deployedWidth where
  enabled := config.absoluteValue
  policy := config.foldPolicy

/-- A sum given by a session. -/
structure Emission where
  /-- The place of the sample that completed the sum. -/
  sampleIndex : Position
  sum : Total
  trigger : Option Trigger
deriving DecidableEq, Repr

/-- A pipeline and perhaps an edge counter at work. -/
structure Session where
  pipeline : Pipeline
  edgeCounter : Option EdgeCounter
  samplesReceived : Position
  sumsEmitted : Position
deriving Repr

namespace Session

/-- A session at its start. The aggregator is checked before the edge counter. -/
def ofConfig (config : SessionConfig) : Except ConfigurationError Session := do
  let pipeline ← Pipeline.ofAggregation config.aggregation config.rectifier
  let edgeCounter ← config.edge.mapM EdgeCounter.ofSettings
  return { pipeline, edgeCounter, samplesReceived := 0, sumsEmitted := 0 }

/-- Shows a sum to the edge counter, if there is one. -/
def watch (s : Session) (sum : Total) : Option Trigger × Option EdgeCounter :=
  match s.edgeCounter with
  | none => (none, none)
  | some counter =>
    let (trigger, counter) := counter.signal s.sumsEmitted sum
    (trigger, some counter)

/-- The session after the pipeline has taken a sample and emitted `sum`, or nothing. -/
def advance (s : Session) (sum : Option Total) (pipeline : Pipeline) : Option Emission × Session :=
  let next := { s with pipeline, samplesReceived := s.samplesReceived + 1 }
  match sum with
  | none => (none, next)
  | some sum =>
    let (trigger, edgeCounter) := s.watch sum
    (some ⟨s.samplesReceived, sum, trigger⟩,
      { next with edgeCounter, sumsEmitted := s.sumsEmitted + 1 })

/-- Takes a sample. One that is out of range is refused and there is no next state. -/
def push (s : Session) (x : Sample) : Except SampleOutOfRange (Option Emission × Session) :=
  (Aggregator.tryPush s.pipeline x).map fun (sum, pipeline) => s.advance sum pipeline

/-- Forgets everything since the start and keeps the configuration. -/
def reset (s : Session) : Session where
  pipeline := s.pipeline.restart
  edgeCounter := s.edgeCounter.map EdgeCounter.reset
  samplesReceived := 0
  sumsEmitted := 0

/-- Only the width of the sample decides whether it is refused. -/
theorem push_eq_error_iff (s : Session) (x : Sample) (e : SampleOutOfRange) :
    s.push x = .error e ↔ deployedWidth.fullScale < x ∧ e = ⟨x, deployedWidth.fullScale⟩ := by
  simp only [push, Aggregator.tryPush, Aggregator.check, Rectifier.check]
  split <;> simp [Except.map, eq_comm, *]

end Session

end DigitiserSums
