import DigitiserSums.Aggregator
import DigitiserSums.Rectifier

/-!
# Block sums

A decimator emits one sum per block of `factor` rectified samples. Blocks do not overlap and are
aligned to the last restart.
-/

namespace DigitiserSums

/-- The longest block of samples of a width that cannot overflow a total. -/
structure BlockLimit (w : SampleWidth) where
  max : Nat
  max_fit : max * (w.codes - 1) < UInt32.size
deriving Repr

def BlockLimit.checkFactor {w : SampleWidth} (limit : BlockLimit w) (factor : Nat) :
    Except ConfigurationError { n : Nat // 0 < n ∧ n ≤ limit.max } :=
  if hz : factor = 0 then .error .zeroFactor
  else if hl : limit.max < factor then .error (.factorTooLarge factor limit.max)
  else .ok ⟨factor, by omega⟩

/-- Sums blocks of samples. -/
structure Decimator (w : SampleWidth) (limit : BlockLimit w) where
  rectifier : Rectifier w
  /-- The number of samples of a block. -/
  factor : Nat
  /-- The number of samples of the block under way. -/
  pending : Nat
  /-- The sum of the block under way. -/
  total : Total
  factor_pos : 0 < factor
  factor_le : factor ≤ limit.max
  pending_lt : pending < factor
deriving Repr

namespace Decimator

variable {w : SampleWidth} {limit : BlockLimit w}

def fresh (rectifier : Rectifier w) (factor : Nat) (hp : 0 < factor) (hl : factor ≤ limit.max) :
    Decimator w limit where
  rectifier := rectifier
  factor := factor
  pending := 0
  total := 0
  factor_pos := hp
  factor_le := hl
  pending_lt := hp

def ofFactor (factor : Nat) (rectifier : Rectifier w) :
    Except ConfigurationError (Decimator w limit) :=
  (limit.checkFactor factor).map fun n => fresh rectifier n.1 n.2.1 n.2.2

/-- Starts over with a new block length; a refused length changes nothing. -/
def reset (d : Decimator w limit) (factor : Nat) : Except ConfigurationError (Decimator w limit) :=
  ofFactor factor d.rectifier

def restart (d : Decimator w limit) : Decimator w limit :=
  fresh d.rectifier d.factor d.factor_pos d.factor_le

/-- Adds a sample to the block under way and emits the sum if that completes the block. -/
def push (d : Decimator w limit) (s : Sample) : Option Total × Decimator w limit :=
  let total := d.total + (d.rectifier.rectify s).toUInt32
  if h : d.pending + 1 = d.factor then
    (some total, { d with pending := 0, total := 0, pending_lt := d.factor_pos })
  else
    (none, { d with
      pending := d.pending + 1
      total := total
      pending_lt := by have := d.pending_lt; omega })

instance : Aggregator (Decimator w limit) where
  push := push
  check d := d.rectifier.check
  restart := restart
  warmUp d := d.factor - 1

theorem ofFactor_of_allowed (r : Rectifier w) {factor : Nat} (h : 1 ≤ factor ∧ factor ≤ limit.max) :
    (ofFactor factor r : Except _ (Decimator w limit)) = .ok (fresh r factor h.1 h.2) := by
  have hzero : factor ≠ 0 := by omega
  rw [ofFactor, BlockLimit.checkFactor, dif_neg hzero, dif_neg (Nat.not_lt.2 h.2)]
  rfl

theorem ofFactor_of_not_allowed (r : Rectifier w) {factor : Nat}
    (h : ¬ (1 ≤ factor ∧ factor ≤ limit.max)) :
    (ofFactor factor r : Except _ (Decimator w limit)) =
      .error (if factor = 0 then .zeroFactor else .factorTooLarge factor limit.max) := by
  rw [ofFactor, BlockLimit.checkFactor]
  by_cases hzero : factor = 0
  · rw [dif_pos hzero, if_pos hzero]
    rfl
  · rw [dif_neg hzero, dif_pos (show limit.max < factor by omega), if_neg hzero]
    rfl

/-- A decimator that can be had has an allowed block length and no sample yet. -/
theorem eq_fresh_of_ofFactor {r : Rectifier w} {factor : Nat} {d : Decimator w limit}
    (h : ofFactor factor r = .ok d) :
    ∃ hallowed : 1 ≤ factor ∧ factor ≤ limit.max, d = fresh r factor hallowed.1 hallowed.2 := by
  by_cases hallowed : 1 ≤ factor ∧ factor ≤ limit.max
  · rw [ofFactor_of_allowed r hallowed] at h
    cases h
    exact ⟨hallowed, rfl⟩
  · rw [ofFactor_of_not_allowed r hallowed] at h
    cases h

@[simp] theorem factor_push (d : Decimator w limit) (s : Sample) :
    (d.push s).2.factor = d.factor := by
  simp only [push]
  split <;> rfl

@[simp] theorem rectifier_push (d : Decimator w limit) (s : Sample) :
    (d.push s).2.rectifier = d.rectifier := by
  simp only [push]
  split <;> rfl

/-- The samples of the block under way are those since the last full block. -/
theorem pending_push (d : Decimator w limit) (s : Sample) :
    (d.push s).2.pending = (d.pending + 1) % d.factor := by
  have hp := d.factor_pos
  have hl := d.pending_lt
  simp only [push]
  split
  · next h => simp [h]
  · have hlt : d.pending + 1 < d.factor := by omega
    exact (Nat.mod_eq_of_lt hlt).symm

end Decimator

end DigitiserSums
