import DigitiserSums.Decimator
import DigitiserSums.MovingSum

/-!
# The deployed aggregators

A pipeline is one of the two aggregators at the width and sizes of the deployed program.
-/

namespace DigitiserSums

def deployedLimit : BlockLimit deployedWidth :=
  ⟨deployedMaxFactor, by decide⟩

def deployedCapacity : Capacity where
  slots := deployedMaxWindow

/-- Which aggregator a pipeline uses, and its size. -/
inductive Aggregation where
  /-- One sum per block of so many samples. -/
  | downsample (factor : Nat)
  /-- The sum of so many newest samples, at every sample. -/
  | movingSum (width : Nat)
deriving DecidableEq, Repr

inductive Pipeline where
  | downsample (decimator : Decimator deployedWidth deployedLimit)
  | movingSum (summer : MovingSum deployedWidth deployedCapacity)
deriving Repr

namespace Pipeline

/-- The aggregator that is asked for, if its size is allowed. -/
def ofAggregation (aggregation : Aggregation) (rectifier : Rectifier deployedWidth) :
    Except ConfigurationError Pipeline :=
  match aggregation with
  | .downsample factor => (Decimator.ofFactor factor rectifier).map .downsample
  | .movingSum width => (MovingSum.ofWidth width rectifier).map .movingSum

def push : Pipeline → Sample → Option Total × Pipeline
  | downsample d, s => ((d.push s).1, downsample (d.push s).2)
  | movingSum m, s => ((m.push s).1, movingSum (m.push s).2)

/-- The transform applied to each sample. -/
def rectifier : Pipeline → Rectifier deployedWidth
  | downsample d => d.rectifier
  | movingSum m => m.rectifier

def restart : Pipeline → Pipeline
  | downsample d => downsample d.restart
  | movingSum m => movingSum m.restart

instance : Aggregator Pipeline where
  push := push
  check p := p.rectifier.check
  restart := restart
  warmUp
    | downsample d => Aggregator.warmUp d
    | movingSum m => Aggregator.warmUp m

@[simp] theorem rectifier_push (p : Pipeline) (s : Sample) :
    (p.push s).2.rectifier = p.rectifier := by
  cases p <;> simp [push, rectifier]

@[simp] theorem rectifier_restart (p : Pipeline) : p.restart.rectifier = p.rectifier := by
  cases p <;> rfl

end Pipeline

end DigitiserSums
