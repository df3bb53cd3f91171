import DigitiserSums.Refusal

/-!
# A ring of recent samples with a window total

The ring keeps as many samples as it has slots. The newest `width` of them are the window, and their
total is kept up to date by adding what enters the window and taking away what leaves it. The ring
is seen through `sampleAt age`, the sample pushed `age` pushes ago: a push puts its sample at age
zero and makes every other sample one push older.
-/

namespace DigitiserSums

/-- A number of slots whose samples cannot overflow a total. -/
structure Capacity where
  slots : Nat
  slots_pos : 0 < slots := by decide
  slots_fit : slots * (UInt16.size - 1) < UInt32.size := by decide
deriving Repr

namespace Capacity

/-- The slot reached from slot zero by `i` steps around the ring. -/
def slot (c : Capacity) (i : Nat) : Fin c.slots :=
  ⟨i % c.slots, Nat.mod_lt _ c.slots_pos⟩

theorem slot_add_slots (c : Capacity) (i : Nat) : c.slot (i + c.slots) = c.slot i := by
  simp [slot]

def checkWidth (c : Capacity) (width : Nat) :
    Except ConfigurationError { n : Nat // 0 < n ∧ n ≤ c.slots } :=
  if hz : width = 0 then .error .zeroWidth
  else if hl : c.slots < width then .error (.widthTooLarge width c.slots)
  else .ok ⟨width, by omega⟩

end Capacity

/-- The most recent samples of a stream, and the total of the window of the newest ones. -/
structure RingBuffer (c : Capacity) where
  /-- The samples, each in the slot that it was written to. -/
  slots : Vector Sample c.slots
  /-- The slot that the next push writes. -/
  head : Fin c.slots
  width : Nat
  total : Total
  width_pos : 0 < width
  width_le : width ≤ c.slots
deriving Repr

namespace RingBuffer

variable {c : Capacity}

def zeros (width : Nat) (hp : 0 < width) (hl : width ≤ c.slots) : RingBuffer c where
  slots := .replicate c.slots 0
  head := c.slot 0
  width := width
  total := 0
  width_pos := hp
  width_le := hl

/-- A ring of zeros, refused unless the window has a sample and fits the slots. -/
def ofWidth (width : Nat) : Except ConfigurationError (RingBuffer c) :=
  (c.checkWidth width).map fun w => zeros w.1 w.2.1 w.2.2

/-- Forgets every sample and keeps the width of the window. -/
def clear (b : RingBuffer c) : RingBuffer c :=
  zeros b.width b.width_pos b.width_le

/-- Forgets every sample and gives the window a new width; a refused width changes nothing. -/
def setWidth (_ : RingBuffer c) (width : Nat) : Except ConfigurationError (RingBuffer c) :=
  ofWidth width

/-- The sample pushed `age` pushes ago, for ages below the number of slots. -/
def sampleAt (b : RingBuffer c) (age : Nat) : Sample :=
  b.slots[c.slot (b.head + 2 * c.slots - 1 - age)]

/-- The sample pushed `age` pushes ago, if it is still there. Samples beyond the window are. -/
def get? (b : RingBuffer c) (age : Nat) : Option Sample :=
  if age < c.slots then some (b.sampleAt age) else none

/-- The samples of the window, the newest first. -/
def window (b : RingBuffer c) : List Sample :=
  (List.range b.width).map b.sampleAt

/-- Makes `value` the newest sample and gives the one that left the window. The latter is read
before the slot is written, as the two are one slot when the window takes the whole ring. -/
def push (b : RingBuffer c) (value : Sample) : Sample × RingBuffer c :=
  let evicted := b.slots[c.slot (b.head + c.slots - b.width)]
  (evicted,
    { b with
      slots := b.slots.set b.head value
      head := c.slot (b.head + 1)
      total := b.total - evicted.toUInt32 + value.toUInt32 })

theorem ofWidth_of_allowed {width : Nat} (h : 1 ≤ width ∧ width ≤ c.slots) :
    (ofWidth width : Except _ (RingBuffer c)) = .ok (zeros width h.1 h.2) := by
  have hzero : width ≠ 0 := by omega
  rw [ofWidth, Capacity.checkWidth, dif_neg hzero, dif_neg (Nat.not_lt.2 h.2)]
  rfl

theorem ofWidth_of_not_allowed {width : Nat} (h : ¬ (1 ≤ width ∧ width ≤ c.slots)) :
    (ofWidth width : Except _ (RingBuffer c)) =
      .error (if width = 0 then .zeroWidth else .widthTooLarge width c.slots) := by
  rw [ofWidth, Capacity.checkWidth]
  by_cases hzero : width = 0
  · rw [dif_pos hzero, if_pos hzero]
    rfl
  · rw [dif_neg hzero, dif_pos (show c.slots < width by omega), if_neg hzero]
    rfl

@[simp] theorem width_push (b : RingBuffer c) (value : Sample) : (b.push value).2.width = b.width :=
  rfl

/-- The sample that leaves the window is its oldest. -/
theorem push_fst (b : RingBuffer c) (value : Sample) :
    (b.push value).1 = b.sampleAt (b.width - 1) := by
  have hp := b.width_pos
  have hl := b.width_le
  have hs : c.slot (b.head + c.slots - b.width) =
      c.slot (b.head + 2 * c.slots - 1 - (b.width - 1)) := by
    rw [show b.head + 2 * c.slots - 1 - (b.width - 1) = b.head + c.slots - b.width + c.slots by
        omega,
      Capacity.slot_add_slots]
  simp only [push, sampleAt, hs]

theorem sampleAt_zeros {width : Nat} (hp : 0 < width) (hl : width ≤ c.slots) (age : Nat) :
    (zeros width hp hl : RingBuffer c).sampleAt age = 0 := by
  simp [sampleAt, zeros]

theorem sampleAt_push_zero (b : RingBuffer c) (value : Sample) :
    (b.push value).2.sampleAt 0 = value := by
  have hp := c.slots_pos
  have hh := b.head.isLt
  have hs : c.slot ((c.slot (b.head + 1)).val + 2 * c.slots - 1 - 0) = b.head := by
    apply Fin.ext
    simp only [Capacity.slot]
    rcases Nat.lt_or_ge (b.head + 1) c.slots with h | h
    · rw [Nat.mod_eq_of_lt h,
        show b.head + 1 + 2 * c.slots - 1 - 0 = b.head + c.slots * 2 by omega,
        Nat.add_mul_mod_self_left, Nat.mod_eq_of_lt hh]
    · have he : b.head.val + 1 = c.slots := by omega
      rw [he, Nat.mod_self, show 0 + 2 * c.slots - 1 - 0 = b.head + c.slots by omega,
        Nat.add_mod_right, Nat.mod_eq_of_lt hh]
  simp only [sampleAt, push, hs, Fin.getElem_fin, Vector.getElem_set_self]

/-- A push makes every other sample one push older. -/
theorem sampleAt_push_succ (b : RingBuffer c) (value : Sample) {age : Nat} (h : age + 1 < c.slots) :
    (b.push value).2.sampleAt (age + 1) = b.sampleAt age := by
  have hh := b.head.isLt
  have hs : c.slot ((c.slot (b.head + 1)).val + 2 * c.slots - 1 - (age + 1)) =
      c.slot (b.head + 2 * c.slots - 1 - age) := by
    apply Fin.ext
    simp only [Capacity.slot]
    rcases Nat.lt_or_ge (b.head + 1) c.slots with hlt | hge
    · rw [Nat.mod_eq_of_lt hlt]
      congr 1
      omega
    · have he : b.head.val + 1 = c.slots := by omega
      rw [he, Nat.mod_self, show b.head + 2 * c.slots - 1 - age =
        0 + 2 * c.slots - 1 - (age + 1) + c.slots by omega, Nat.add_mod_right]
  have hne : (b.head : Nat) ≠ (c.slot (b.head + 2 * c.slots - 1 - age)).val := by
    simp only [Capacity.slot]
    intro heq
    rcases Nat.lt_or_ge age b.head with hlt | hge
    · rw [show b.head + 2 * c.slots - 1 - age = (b.head - 1 - age) + c.slots * 2 by omega,
        Nat.add_mul_mod_self_left, Nat.mod_eq_of_lt (by omega)] at heq
      omega
    · rw [show b.head + 2 * c.slots - 1 - age = (b.head + c.slots - 1 - age) + c.slots by omega,
        Nat.add_mod_right, Nat.mod_eq_of_lt (by omega)] at heq
      omega
  simp only [sampleAt, push, hs, Fin.getElem_fin]
  exact Vector.getElem_set_ne _ _ hne

end RingBuffer

end DigitiserSums
