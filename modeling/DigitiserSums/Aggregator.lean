import DigitiserSums.Refusal
import DigitiserSums.Scan

/-!
# Aggregators

An aggregator takes samples one at a time and now and then emits a sum. A sample that `check`
refuses is not taken: `tryPush` then has no next state to give.
-/

namespace DigitiserSums

/-- Takes samples one at a time and now and then emits a sum. -/
class Aggregator (α : Type) where
  /-- Takes a sample, which should lie in range, and emits the sum that is due after it. -/
  push : α → Sample → Option Total × α
  check : α → Sample → Except SampleOutOfRange Sample
  /-- Forgets every sample and keeps the configuration. -/
  restart : α → α
  /-- The number of pushes after a restart that emit nothing. -/
  warmUp : α → Nat

namespace Aggregator

variable {α : Type} [Aggregator α]

def tryPush (a : α) (s : Sample) : Except SampleOutOfRange (Option Total × α) :=
  (check a s).map (push a)

def pushAll (a : α) (samples : List Sample) : List (Option Total) × α :=
  scan push a samples

/-- The sums that samples give, without the pushes that emit nothing. -/
def sums (a : α) (samples : List Sample) : List Total :=
  (pushAll a samples).1.filterMap id

theorem tryPush_of_check_ok {a : α} {s t : Sample} (h : check a s = .ok t) :
    tryPush a s = .ok (push a t) := by
  simp [tryPush, h, Except.map]

theorem tryPush_of_check_error {a : α} {s : Sample} {e : SampleOutOfRange}
    (h : check a s = .error e) : tryPush a s = .error e := by
  simp [tryPush, h, Except.map]

theorem sums_cons (a : α) (x : Sample) (samples : List Sample) :
    sums a (x :: samples) = (push a x).1.toList ++ sums (push a x).2 samples :=
  Feed.results_cons push a x samples

/-- The samples that an aggregator has still to take. -/
abbrev Source (α : Type) := Feed α Sample

/-- The sums that samples give, one at a time and no sample sooner than needed. -/
abbrev Source.next (f : Source α) : Option Total × Source α :=
  Feed.next push f

abbrev Source.take (f : Source α) (n : Nat) : List Total × Source α :=
  Feed.take push n f

abbrev Source.drain (f : Source α) : List Total × Source α :=
  Feed.drain push f

end Aggregator

end DigitiserSums
