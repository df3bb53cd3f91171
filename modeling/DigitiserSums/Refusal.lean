import DigitiserSums.Binary.Single
import DigitiserSums.Sample

/-!
# Why a configuration or a sample is refused

Each cause is a constructor; its wording is in `message`.
-/

namespace DigitiserSums

/-- Why a pipeline or an edge counter cannot be built. -/
inductive ConfigurationError where
  | zeroFactor
  | factorTooLarge (value max : Nat)
  | zeroWidth
  | widthTooLarge (value max : Nat)
  | zeroEdges
  | nonFiniteThreshold (threshold : Single)
deriving DecidableEq, Repr

namespace ConfigurationError

def message : ConfigurationError → String
  | zeroFactor => "Downsample factor must be at least 1"
  | factorTooLarge value max => s!"Downsample factor {value} exceeds the maximum of {max}"
  | zeroWidth => "Window width must be at least 1"
  | widthTooLarge value max => s!"Window width {value} exceeds the buffer capacity of {max}"
  | zeroEdges => "Edge count per trigger must be at least 1"
  | nonFiniteThreshold threshold =>
    s!"Edge trigger threshold must be finite, got {threshold.nonFiniteText}"

end ConfigurationError

/-- A code wider than the digitiser's. -/
structure SampleOutOfRange where
  sample : Sample
  max : Sample
deriving DecidableEq, Repr

def SampleOutOfRange.message (e : SampleOutOfRange) : String :=
  s!"Sample {e.sample.toNat} is outside the range 0..={e.max.toNat}"

end DigitiserSums
