import DigitiserSums.Proofs.Checked

/-!
# Sizes that change

A ring may be given another width at any time and then starts over, and so may a moving sum. Either
is described by the stretch since its last start: the size in force and the samples that came. What
is refused on the way, be it a size or a sample, is no part of it.
-/

namespace DigitiserSums

/-! ## Stretches -/

/-- The size that a start set or kept, and the samples since then, the newest last. -/
structure Stretch where
  size : Nat
  samples : List Sample := []

namespace Stretch

def take (t : Stretch) (x : Sample) : Stretch :=
  { t with samples := t.samples ++ [x] }

def restart (t : Stretch) : Stretch :=
  { size := t.size }

/-- A size from one to `max` starts the next stretch; any other changes nothing. -/
def resize (t : Stretch) (max size : Nat) : Stretch :=
  if 1 ≤ size ∧ size ≤ max then { size } else t

/-- The sample that came `age` samples ago. Zeros came before the first. -/
def sampleAt (t : Stretch) (age : Nat) : Sample :=
  t.samples.reverse.getD age 0

theorem newestSum_samples (t : Stretch) (n : Nat) :
    newestSum n (t.samples.map UInt16.toNat) =
      ((List.range n).map fun age => (t.sampleAt age).toNat).sum := by
  rw [newestSum_eq_sum_range, ← List.map_reverse]
  refine congrArg List.sum (List.map_congr_left fun age _ => ?_)
  exact List.getD_map t.samples.reverse 0 UInt16.toNat

end Stretch

/-! ## Rings -/

namespace RingBuffer

variable {c : Capacity} {b : RingBuffer c} {t : Stretch} {width : Nat}

/-- What may be done to a ring. -/
inductive Step where
  | push (value : Sample)
  | setWidth (width : Nat)
  | clear
deriving DecidableEq, Repr

/-- The ring after a step. A refused width leaves it as it was. -/
def next (b : RingBuffer c) : Step → RingBuffer c
  | .push value => (b.push value).2
  | .setWidth width => (b.setWidth width).toOption.getD b
  | .clear => b.clear

def after (b : RingBuffer c) (steps : List Step) : RingBuffer c :=
  steps.foldl next b

/-- The stretch after a step. -/
def extend (c : Capacity) (t : Stretch) : Step → Stretch
  | .push value => t.take value
  | .setWidth width => t.resize c.slots width
  | .clear => t.restart

/-- The stretch of a ring that started with a width. -/
def stretch (c : Capacity) (width : Nat) (steps : List Step) : Stretch :=
  steps.foldl (extend c) { size := width }

theorem next_setWidth_of_not_allowed (b : RingBuffer c) (h : ¬ (1 ≤ width ∧ width ≤ c.slots)) :
    b.next (.setWidth width) = b := by
  rw [next, setWidth, ofWidth_of_not_allowed h]
  rfl

/-- The ring after a stretch, its window as wide as was asked for. -/
structure HoldsStretch (b : RingBuffer c) (t : Stretch) : Prop where
  width_eq : b.width = t.size
  samples : b.Holds t.samples

theorem holdsStretch_zeros (h : 1 ≤ width ∧ width ≤ c.slots) :
    (zeros width h.1 h.2 : RingBuffer c).HoldsStretch { size := width } :=
  ⟨rfl, holds_zeros h.1 h.2⟩

namespace HoldsStretch

theorem setWidth (h : b.HoldsStretch t) (width : Nat) :
    (b.next (.setWidth width)).HoldsStretch (t.resize c.slots width) := by
  by_cases hallowed : 1 ≤ width ∧ width ≤ c.slots
  · rw [next, RingBuffer.setWidth, ofWidth_of_allowed hallowed, Stretch.resize, if_pos hallowed]
    exact holdsStretch_zeros hallowed
  · rw [b.next_setWidth_of_not_allowed hallowed, Stretch.resize, if_neg hallowed]
    exact h

theorem next (h : b.HoldsStretch t) (st : Step) : (b.next st).HoldsStretch (extend c t st) := by
  cases st with
  | push value => exact ⟨h.width_eq, h.samples.push value⟩
  | setWidth width => exact h.setWidth width
  | clear => exact ⟨h.width_eq, b.holds_clear⟩

theorem after (h : b.HoldsStretch t) (steps : List Step) :
    (b.after steps).HoldsStretch (steps.foldl (extend c) t) :=
  List.foldl_rel h fun st _ _ _ hnext => hnext.next st

theorem toNat_total (h : b.HoldsStretch t) :
    b.total.toNat = ((List.range t.size).map fun age => (t.sampleAt age).toNat).sum := by
  rw [h.samples.toNat_total, h.width_eq, t.newestSum_samples]

theorem window_eq (h : b.HoldsStretch t) : b.window = (List.range t.size).map t.sampleAt := by
  have hwidth := b.width_le
  rw [h.width_eq] at hwidth
  rw [window, h.width_eq]
  refine List.map_congr_left fun age hage => ?_
  exact h.samples.sampleAt_eq age (Nat.lt_of_lt_of_le (List.mem_range.1 hage) hwidth)

theorem get?_eq (h : b.HoldsStretch t) (age : Nat) :
    b.get? age = if age < c.slots then some (t.sampleAt age) else none := by
  by_cases hage : age < c.slots
  · rw [get?, if_pos hage, if_pos hage, h.samples.sampleAt_eq age hage]
    rfl
  · rw [get?, if_neg hage, if_neg hage]

theorem push_fst (h : b.HoldsStretch t) (value : Sample) :
    (b.push value).1 = t.sampleAt (t.size - 1) := by
  have hpos := b.width_pos
  have hle := b.width_le
  rw [RingBuffer.push_fst, h.samples.sampleAt_eq _ (by omega), h.width_eq]
  rfl

end HoldsStretch

/-- A ring with an allowed width can be had, and after any steps it shows the stretch since its last
start. Its total is the exact sum of its window, its window has the newest samples of the stretch and
zeros where there are none yet, and further back the ring still has every sample that a slot is left
for. The next push stays in range and hands out the oldest sample of the window. A width that is not
allowed is refused for its reason and changes nothing. -/
theorem window_after_steps (hwidth : 1 ≤ width ∧ width ≤ c.slots) :
    ∃ start : RingBuffer c, ofWidth width = .ok start ∧ ∀ steps : List Step,
      let b := start.after steps
      let t := stretch c width steps
      b.width = t.size ∧
      b.total.toNat = ((List.range t.size).map fun age => (t.sampleAt age).toNat).sum ∧
      b.window = (List.range t.size).map t.sampleAt ∧
      (∀ age, b.get? age = if age < c.slots then some (t.sampleAt age) else none) ∧
      (∀ value, b.push? value = some (b.push value) ∧
        (b.push value).1 = t.sampleAt (t.size - 1)) ∧
      ∀ width', ¬ (1 ≤ width' ∧ width' ≤ c.slots) →
        b.setWidth width' =
            .error (if width' = 0 then .zeroWidth else .widthTooLarge width' c.slots) ∧
          b.next (.setWidth width') = b := by
  refine ⟨zeros width hwidth.1 hwidth.2, ofWidth_of_allowed hwidth, fun steps => ?_⟩
  have h := (holdsStretch_zeros hwidth).after steps
  exact ⟨h.width_eq, h.toNat_total, h.window_eq, h.get?_eq,
    fun value => ⟨h.samples.push?_eq value, h.push_fst value⟩,
    fun _ hrefused => ⟨ofWidth_of_not_allowed hrefused, next_setWidth_of_not_allowed _ hrefused⟩⟩

theorem window_after_steps_of_four_slots :
    let c : Capacity := { slots := 4 }
    let steps : List Step :=
      [.push 7, .setWidth 3, .push 10, .push 20, .setWidth 5, .push 30, .push 65535]
    (1 ≤ 2 ∧ 2 ≤ c.slots) ∧ ∃ start : RingBuffer c, ofWidth 2 = .ok start ∧
      (start.after steps).total.toNat = 65585 ∧
      (start.after steps).window = [65535, 30, 20] ∧
      (start.after steps).get? 3 = some 10 ∧ (start.after steps).get? 4 = none ∧
      ((start.after steps).push 5).1 = 20 ∧
      (start.after steps).setWidth 5 = .error (.widthTooLarge 5 4) := by
  intro c steps
  have hallowed : 1 ≤ 2 ∧ 2 ≤ c.slots := by decide
  obtain ⟨start, hstart, hsteps⟩ := window_after_steps hallowed
  obtain ⟨-, htotal, hwindow, hget, hpush, hrefused⟩ := hsteps steps
  exact ⟨hallowed, start, hstart, htotal.trans (by decide), hwindow.trans (by decide),
    (hget 3).trans (by decide), (hget 4).trans (by decide), (hpush 5).2.trans (by decide),
    (hrefused 5 (by decide)).1⟩

end RingBuffer

/-! ## Aggregators -/

/-- An aggregator that may be given another size, and starts over if the size is allowed. -/
class Resizable (α : Type) extends Aggregator α where
  reset : α → Nat → Except ConfigurationError α

instance {w : SampleWidth} {limit : BlockLimit w} : Resizable (Decimator w limit) where
  reset := Decimator.reset

instance {w : SampleWidth} {c : Capacity} : Resizable (MovingSum w c) where
  reset := MovingSum.reset

namespace Aggregator

variable {α : Type}

/-- Only a sample in range is taken by a push that checks. -/
theorem tryPush_eq_of_check [Aggregator α] {w : SampleWidth} {a : α} {r : Rectifier w}
    (h : ∀ x, check a x = r.check x) (x : Sample) :
    tryPush a x = if x ≤ w.fullScale then .ok (push a x) else .error ⟨x, w.fullScale⟩ := by
  by_cases hx : x ≤ w.fullScale
  · rw [if_pos hx, tryPush_of_check_ok ((h x).trans ((r.check_eq_ok_iff x x).2 ⟨rfl, hx⟩))]
  · rw [if_neg hx, tryPush_of_check_error ((h x).trans (if_pos (UInt16.not_le.1 hx)))]

/-- What may be done to an aggregator. -/
inductive Step where
  /-- The sample is taken, in range or not. -/
  | push (x : Sample)
  /-- The sample is taken if it is in range. -/
  | tryPush (x : Sample)
  | restart
  | reset (size : Nat)
deriving DecidableEq, Repr

variable [Resizable α]

/-- The aggregator after a step. A refused sample or size leaves it as it was. -/
def next (a : α) : Step → α
  | .push x => (push a x).2
  | .tryPush x => ((tryPush a x).map Prod.snd).toOption.getD a
  | .restart => restart a
  | .reset size => (Resizable.reset a size).toOption.getD a

def after (a : α) (steps : List Step) : α :=
  steps.foldl next a

/-- What a step gives. -/
inductive Reply where
  | pushed (sum : Option Total)
  | tried (result : Except SampleOutOfRange (Option Total))
  | restarted
  | resized (result : Except ConfigurationError Unit)

/-- One step with what it gives. -/
def step (a : α) : Step → Reply × α
  | .push x => (.pushed (push a x).1, (push a x).2)
  | .tryPush x =>
    match tryPush a x with
    | .error e => (.tried (.error e), a)
    | .ok (sum, a) => (.tried (.ok sum), a)
  | .restart => (.restarted, restart a)
  | .reset size =>
    match Resizable.reset a size with
    | .error e => (.resized (.error e), a)
    | .ok a => (.resized (.ok ()), a)

theorem step_snd (a : α) (st : Step) : (step a st).2 = next a st := by
  cases st with
  | push x => rfl
  | tryPush x =>
      simp only [step, next]
      cases tryPush a x <;> rfl
  | restart => rfl
  | reset size =>
      simp only [step, next]
      cases Resizable.reset a size <;> rfl

theorem scan_step_snd (a : α) (steps : List Step) : (scan step a steps).2 = after a steps := by
  induction steps generalizing a with
  | nil => rfl
  | cons st steps ih =>
      rw [scan_cons, step_snd, ih]
      rfl

/-- The stretch after a step, where samples are in range up to `top` and sizes allowed up to
`max`. -/
def extend (top : Sample) (max : Nat) (t : Stretch) : Step → Stretch
  | .push x => t.take x
  | .tryPush x => if x ≤ top then t.take x else t
  | .restart => t.restart
  | .reset size => t.resize max size

/-- The stretch of an aggregator that started with a size. -/
def stretch (top : Sample) (max size : Nat) (steps : List Step) : Stretch :=
  steps.foldl (extend top max) { size }

end Aggregator

/-! ## Moving sums -/

namespace MovingSum

open Aggregator

variable {w : SampleWidth} {c : Capacity} {m : MovingSum w c} {r : Rectifier w} {t : Stretch}
  {width : Nat}

theorem reset_eq_ofWidth (m : MovingSum w c) (width : Nat) :
    Resizable.reset m width = ofWidth width m.rectifier :=
  rfl

theorem tryPush_eq (m : MovingSum w c) (x : Sample) :
    tryPush m x = if x ≤ w.fullScale then .ok (m.push x) else .error ⟨x, w.fullScale⟩ :=
  tryPush_eq_of_check (fun _ => rfl) x

/-- The moving sum after a stretch, its window as wide as was asked for. -/
structure HoldsStretch (m : MovingSum w c) (r : Rectifier w) (t : Stretch) : Prop where
  width_eq : m.width = t.size
  rectifier_eq : m.rectifier = r
  samples : m.Holds t.samples

theorem holdsStretch_fresh (r : Rectifier w) (h : 1 ≤ width ∧ width ≤ c.slots) :
    (fresh r (RingBuffer.zeros width h.1 h.2) : MovingSum w c).HoldsStretch r { size := width } :=
  ⟨rfl, rfl, holds_fresh r (RingBuffer.holds_zeros h.1 h.2)⟩

namespace HoldsStretch

theorem push (h : m.HoldsStretch r t) (x : Sample) : (m.push x).2.HoldsStretch r (t.take x) :=
  ⟨h.width_eq, h.rectifier_eq, h.samples.push x⟩

theorem tryPush (h : m.HoldsStretch r t) (x : Sample) :
    (next m (.tryPush x)).HoldsStretch r (if x ≤ w.fullScale then t.take x else t) := by
  rw [Aggregator.next, m.tryPush_eq]
  by_cases hx : x ≤ w.fullScale
  · rw [if_pos hx, if_pos hx]
    exact h.push x
  · rw [if_neg hx, if_neg hx]
    exact h

theorem reset (h : m.HoldsStretch r t) (width : Nat) :
    (next m (.reset width)).HoldsStretch r (t.resize c.slots width) := by
  rw [Aggregator.next, m.reset_eq_ofWidth, h.rectifier_eq, Stretch.resize]
  by_cases hallowed : 1 ≤ width ∧ width ≤ c.slots
  · rw [ofWidth_of_allowed r hallowed, if_pos hallowed]
    exact holdsStretch_fresh r hallowed
  · rw [ofWidth_of_not_allowed r hallowed, if_neg hallowed]
    exact h

theorem next (h : m.HoldsStretch r t) (st : Step) :
    (next m st).HoldsStretch r (extend w.fullScale c.slots t st) := by
  cases st with
  | push x => exact h.push x
  | tryPush x => exact h.tryPush x
  | restart => exact ⟨h.width_eq, h.rectifier_eq, m.holds_restart⟩
  | reset width => exact h.reset width

theorem after (h : m.HoldsStretch r t) (steps : List Step) :
    (after m steps).HoldsStretch r (steps.foldl (extend w.fullScale c.slots) t) :=
  List.foldl_rel (r := (HoldsStretch · r ·)) h fun st _ _ _ hnext => hnext.next st

theorem isWarm_iff (h : m.HoldsStretch r t) : m.IsWarm ↔ t.size ≤ t.samples.length := by
  have hfilled := h.samples.filled_eq
  have hwidth := h.width_eq
  unfold IsWarm
  omega

theorem push_fst (h : m.HoldsStretch r t) (x : Sample) :
    (m.push x).1.map UInt32.toNat =
      if t.samples.length + 1 < t.size then none
      else some (newestSum t.size (r.numbers (t.samples ++ [x]))) := by
  rw [h.samples.push_fst x, h.width_eq, h.rectifier_eq]
  simp only [Aggregation.due, Rectifier.length_numbers, List.length_append, List.length_singleton]
  by_cases hfull : t.size ≤ t.samples.length + 1
  · rw [if_pos hfull, if_neg (Nat.not_lt.2 hfull)]
  · rw [if_neg hfull, if_pos (Nat.lt_of_not_le hfull)]

end HoldsStretch

/-- A moving sum with an allowed width can be had, and after any steps it is described by the stretch
since its last start. It is warm once there are as many samples as its window is wide. A push of any
sample stays in range, and emits nothing before that many samples came and from then on the exact sum
of the newest ones after folding. A push that checks does the same with a sample in range, and
refuses any other. -/
theorem sums_after_steps (r : Rectifier w) (hwidth : 1 ≤ width ∧ width ≤ c.slots) :
    ∃ start : MovingSum w c, ofWidth width r = .ok start ∧ ∀ steps : List Step,
      let m := after start steps
      let t := stretch w.fullScale c.slots width steps
      m.width = t.size ∧
      (m.IsWarm ↔ t.size ≤ t.samples.length) ∧
      (∀ x, m.push? x = some (m.push x) ∧
        (m.push x).1.map UInt32.toNat =
          if t.samples.length + 1 < t.size then none
          else some (newestSum t.size (r.numbers (t.samples ++ [x])))) ∧
      ∀ x, tryPush m x =
        if x ≤ w.fullScale then .ok (m.push x) else .error ⟨x, w.fullScale⟩ := by
  refine ⟨_, ofWidth_of_allowed r hwidth, fun steps => ?_⟩
  have h := (holdsStretch_fresh r hwidth).after steps
  exact ⟨h.width_eq, h.isWarm_iff, fun x => ⟨h.samples.push?_eq x, h.push_fst x⟩,
    fun x => tryPush_eq _ x⟩

theorem sums_after_steps_of_reset :
    let c : Capacity := { slots := 4 }
    let r : Rectifier deployedWidth := { enabled := true }
    let steps : List Step :=
      [.push 500, .push 2000, .tryPush 1024, .reset 5, .reset 2, .push 65535]
    (1 ≤ 3 ∧ 3 ≤ c.slots) ∧ ∃ start : MovingSum deployedWidth c, ofWidth 3 r = .ok start ∧
      ¬ (after start steps).IsWarm ∧
      ((after start steps).push 100).1.map UInt32.toNat = some (65535 + 923) ∧
      tryPush (after start steps) 1024 = .error ⟨1024, 1023⟩ := by
  intro c r steps
  have hallowed : 1 ≤ 3 ∧ 3 ≤ c.slots := by decide
  obtain ⟨start, hstart, hsteps⟩ := sums_after_steps r hallowed
  obtain ⟨-, hwarm, hpush, htry⟩ := hsteps steps
  exact ⟨hallowed, start, hstart, fun h => absurd (hwarm.1 h) (by decide),
    (hpush 100).2.trans (by decide), (htry 1024).trans (if_neg (by decide))⟩

end MovingSum

end DigitiserSums
