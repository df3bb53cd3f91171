import DigitiserSums.Aggregator
import DigitiserSums.Rectifier
import DigitiserSums.RingBuffer

/-!
# Moving sums

Once its window has filled, a moving sum emits the total of the newest `width` rectified samples at
every push.
-/

namespace DigitiserSums

/-- Sums the newest samples. -/
structure MovingSum (w : SampleWidth) (c : Capacity) where
  rectifier : Rectifier w
  buffer : RingBuffer c
  /-- The number of samples taken, up to the width of the window. -/
  filled : Nat
  filled_le : filled ≤ buffer.width
deriving Repr

namespace MovingSum

variable {w : SampleWidth} {c : Capacity}

def fresh (rectifier : Rectifier w) (buffer : RingBuffer c) : MovingSum w c where
  rectifier := rectifier
  buffer := buffer
  filled := 0
  filled_le := Nat.zero_le _

def ofWidth (width : Nat) (rectifier : Rectifier w) : Except ConfigurationError (MovingSum w c) :=
  (RingBuffer.ofWidth width).map (fresh rectifier)

/-- Starts over with a new width; a refused width changes nothing. -/
def reset (m : MovingSum w c) (width : Nat) : Except ConfigurationError (MovingSum w c) :=
  (m.buffer.setWidth width).map (fresh m.rectifier)

def restart (m : MovingSum w c) : MovingSum w c :=
  fresh m.rectifier m.buffer.clear

def width (m : MovingSum w c) : Nat :=
  m.buffer.width

/-- The total of the window, of zeros where it has not filled yet. -/
def total (m : MovingSum w c) : Total :=
  m.buffer.total

def IsWarm (m : MovingSum w c) : Prop :=
  m.filled = m.width

instance (m : MovingSum w c) : Decidable m.IsWarm :=
  inferInstanceAs (Decidable (_ = _))

/-- Keeps a sample and emits the total once the window has filled. The parts are taken out first, so
that the ring is written in place. -/
def push : MovingSum w c → Sample → Option Total × MovingSum w c
  | ⟨rectifier, buffer, filled, _⟩, s =>
    let width := buffer.width
    let filled := min (filled + 1) width
    let after := (buffer.push (rectifier.rectify s)).2
    (if filled = width then some after.total else none,
      { rectifier, buffer := after, filled, filled_le := Nat.min_le_right _ _ })

instance : Aggregator (MovingSum w c) where
  push := push
  check m := m.rectifier.check
  restart := restart
  warmUp m := m.width - 1

theorem ofWidth_of_allowed (r : Rectifier w) {width : Nat} (h : 1 ≤ width ∧ width ≤ c.slots) :
    (ofWidth width r : Except _ (MovingSum w c)) =
      .ok (fresh r (RingBuffer.zeros width h.1 h.2)) := by
  rw [ofWidth, RingBuffer.ofWidth_of_allowed h]
  rfl

theorem ofWidth_of_not_allowed (r : Rectifier w) {width : Nat}
    (h : ¬ (1 ≤ width ∧ width ≤ c.slots)) :
    (ofWidth width r : Except _ (MovingSum w c)) =
      .error (if width = 0 then .zeroWidth else .widthTooLarge width c.slots) := by
  rw [ofWidth, RingBuffer.ofWidth_of_not_allowed h]
  rfl

/-- A moving sum that can be had has an allowed window, of zeros. -/
theorem eq_fresh_of_ofWidth {r : Rectifier w} {width : Nat} {m : MovingSum w c}
    (h : ofWidth width r = .ok m) :
    ∃ hallowed : 1 ≤ width ∧ width ≤ c.slots,
      m = fresh r (RingBuffer.zeros width hallowed.1 hallowed.2) := by
  by_cases hallowed : 1 ≤ width ∧ width ≤ c.slots
  · rw [ofWidth_of_allowed r hallowed] at h
    cases h
    exact ⟨hallowed, rfl⟩
  · rw [ofWidth_of_not_allowed r hallowed] at h
    cases h

@[simp] theorem width_push (m : MovingSum w c) (s : Sample) : (m.push s).2.width = m.width :=
  rfl

@[simp] theorem rectifier_push (m : MovingSum w c) (s : Sample) :
    (m.push s).2.rectifier = m.rectifier :=
  rfl

theorem filled_push (m : MovingSum w c) (s : Sample) :
    (m.push s).2.filled = min (m.filled + 1) m.width :=
  rfl

/-- What a push emits is the total after it, and it emits exactly when the window is then full. -/
theorem push_fst (m : MovingSum w c) (s : Sample) :
    (m.push s).1 = if (m.push s).2.IsWarm then some (m.push s).2.total else none :=
  rfl

end MovingSum

end DigitiserSums
