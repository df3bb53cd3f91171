import DigitiserSums.Proofs.Resizing

/-!
# Starting over

An aggregator starts over with the size that it has, or with another one if that is allowed. Done in
place this takes several assignments, and a refusal takes none of them back. They are written out
here one by one: they leave either all fields as they were or those of a new aggregator, so that
nothing in between and nothing of the samples before can be seen later.
-/

namespace DigitiserSums

/-! ## Assignments -/

/-- Assignments to the fields of a state. A refusal ends them and leaves the fields as they are by
then. -/
abbrev Assigning (σ : Type) := EStateM ConfigurationError σ

/-- What assignments leave that do all or nothing: the fields of a new state or, after a refusal,
those of the old one. -/
def allOrNothing {α σ : Type} (fields : α → σ) (old : α) :
    Except ConfigurationError α → EStateM.Result ConfigurationError σ Unit
  | .ok new => .ok () (fields new)
  | .error e => .error e (fields old)

namespace RingBuffer

variable {c : Capacity}

/-- The fields of a ring, without the bounds on them. -/
structure Fields (c : Capacity) where
  slots : Vector Sample c.slots
  head : Nat
  width : Nat
  total : Total

def fields (b : RingBuffer c) : Fields c :=
  ⟨b.slots, b.head, b.width, b.total⟩

theorem fields_injective : Function.Injective (fields : RingBuffer c → Fields c) := by
  rintro ⟨slots, head, width, total, _, _⟩ ⟨_, head', _, _, _, _⟩ h
  obtain ⟨hslots, hhead, hwidth, htotal⟩ := Fields.mk.inj h
  cases Fin.ext hhead
  cases hslots
  cases hwidth
  cases htotal
  rfl

def assignClear : Assigning (Fields c) Unit := do
  modify ({ · with slots := .replicate c.slots 0 })
  modify ({ · with head := 0 })
  modify ({ · with total := 0 })

def assignWidth (width : Nat) : Assigning (Fields c) Unit := do
  let allowed ← ofExcept (c.checkWidth width)
  modify ({ · with width := allowed.val })
  assignClear

theorem run_assignWidth (b : RingBuffer c) (width : Nat) :
    (assignWidth width).run b.fields = allOrNothing fields b (b.setWidth width) := by
  rw [assignWidth, setWidth, ofWidth]
  cases c.checkWidth width <;> rfl

end RingBuffer

namespace Decimator

variable {w : SampleWidth} {limit : BlockLimit w}

/-- The fields of a decimator, without the bounds on them. -/
structure Fields (w : SampleWidth) where
  rectifier : Rectifier w
  factor : Nat
  pending : Nat
  total : Total

def fields (d : Decimator w limit) : Fields w :=
  ⟨d.rectifier, d.factor, d.pending, d.total⟩

theorem fields_injective : Function.Injective (fields : Decimator w limit → Fields w) := by
  rintro ⟨_, _, _, _, _, _, _⟩ ⟨_, _, _, _, _, _, _⟩ h
  cases h
  rfl

def assignRestart : Assigning (Fields w) Unit := do
  modify ({ · with pending := 0 })
  modify ({ · with total := 0 })

def assignFactor (limit : BlockLimit w) (factor : Nat) : Assigning (Fields w) Unit := do
  let allowed ← ofExcept (limit.checkFactor factor)
  modify ({ · with factor := allowed.val })
  assignRestart

theorem run_assignRestart (d : Decimator w limit) :
    assignRestart.run d.fields = .ok () d.restart.fields :=
  rfl

theorem run_assignFactor (d : Decimator w limit) (factor : Nat) :
    (assignFactor limit factor).run d.fields = allOrNothing fields d (d.reset factor) := by
  rw [assignFactor, reset, ofFactor]
  cases limit.checkFactor factor <;> rfl

end Decimator

namespace MovingSum

variable {w : SampleWidth} {c : Capacity}

/-- The fields of a moving sum, those of its ring among them. -/
structure Fields (w : SampleWidth) (c : Capacity) where
  rectifier : Rectifier w
  buffer : RingBuffer.Fields c
  filled : Nat

def fields (m : MovingSum w c) : Fields w c :=
  ⟨m.rectifier, m.buffer.fields, m.filled⟩

theorem fields_injective : Function.Injective (fields : MovingSum w c → Fields w c) := by
  rintro ⟨_, _, _, _⟩ ⟨_, _, _, _⟩ h
  obtain ⟨hrectifier, hbuffer, hfilled⟩ := Fields.mk.inj h
  cases hrectifier
  cases RingBuffer.fields_injective hbuffer
  cases hfilled
  rfl

/-- Assigns to the fields of the ring. What a refusal leaves of them stays. -/
def inBuffer (part : Assigning (RingBuffer.Fields c) Unit) : Assigning (Fields w c) Unit := fun m =>
  match part.run m.buffer with
  | .ok () buffer => .ok () { m with buffer }
  | .error e buffer => .error e { m with buffer }

def assignRestart : Assigning (Fields w c) Unit := do
  inBuffer RingBuffer.assignClear
  modify ({ · with filled := 0 })

def assignWidth (width : Nat) : Assigning (Fields w c) Unit := do
  inBuffer (RingBuffer.assignWidth width)
  modify ({ · with filled := 0 })

theorem run_inBuffer {part : Assigning (RingBuffer.Fields c) Unit} {m : MovingSum w c}
    {outcome : Except ConfigurationError (RingBuffer c)}
    (h : part.run m.buffer.fields = allOrNothing RingBuffer.fields m.buffer outcome) :
    (inBuffer part).run m.fields =
      allOrNothing (fun b => { m.fields with buffer := b.fields }) m.buffer outcome := by
  have hrun : (inBuffer part).run m.fields =
      match part.run m.buffer.fields with
      | .ok () buffer => .ok () { m.fields with buffer }
      | .error e buffer => .error e { m.fields with buffer } := rfl
  rw [hrun, h]
  cases outcome <;> rfl

theorem run_assignRestart (m : MovingSum w c) :
    assignRestart.run m.fields = .ok () m.restart.fields :=
  rfl

theorem run_assignWidth (m : MovingSum w c) (width : Nat) :
    (assignWidth width).run m.fields = allOrNothing fields m (m.reset width) := by
  have hbuffer := run_inBuffer (m.buffer.run_assignWidth width)
  rw [assignWidth, EStateM.run_bind, hbuffer, reset]
  cases m.buffer.setWidth width <;> rfl

end MovingSum

/-! ## Renewal -/

/-- How aggregators of a kind are built, and how they start over in place. -/
structure Renewal (α σ : Type) where
  build : Nat → Except ConfigurationError α
  size : α → Nat
  fields : α → σ
  assignSize : Nat → Assigning σ Unit
  assignRestart : Assigning σ Unit
  /-- The fields are all that there is of an aggregator. -/
  fields_injective : Function.Injective fields

namespace Aggregator

variable {α σ : Type} [Resizable α] {a : α}

/-- An aggregator that starts over as a new one. -/
structure Renews (v : Renewal α σ) (a : α) : Prop where
  /-- A size that cannot be built is refused for the reason that building is, and the aggregator
  goes on as if it had not been asked for. -/
  refused : ∀ size e, v.build size = .error e →
    Resizable.reset a size = .error e ∧
    (v.assignSize size).run (v.fields a) = .error e (v.fields a) ∧
    ∀ later, scan step a (.reset size :: later) =
      (.resized (.error e) :: (scan step a later).1, (scan step a later).2)
  /-- A size that can be built leaves a new aggregator. -/
  allowed : ∀ size new, v.build size = .ok new →
    Resizable.reset a size = .ok new ∧
    (v.assignSize size).run (v.fields a) = .ok () (v.fields new) ∧
    ∀ later, scan step a (.reset size :: later) =
      (.resized (.ok ()) :: (scan step new later).1, (scan step new later).2)
  /-- To restart is to reset to the size in force. -/
  restarted : Resizable.reset a (v.size a) = .ok (restart a) ∧
    v.assignRestart.run (v.fields a) = .ok () (v.fields (restart a))

/-- What holds of an aggregator and is kept by every push, restart and allowed reset holds after any
steps. -/
theorem after_of_kept {P : α → Prop} (hpush : ∀ a x, P a → P (push a x).2)
    (hrestart : ∀ a, P a → P (restart a))
    (hreset : ∀ a size b, P a → Resizable.reset a size = .ok b → P b) (h : P a)
    (steps : List Step) : P (after a steps) := by
  induction steps generalizing a with
  | nil => exact h
  | cons st steps ih =>
      refine ih ?_
      cases st with
      | push x => exact hpush a x h
      | tryPush x =>
          cases hcheck : check a x with
          | error e =>
              rw [next, tryPush_of_check_error hcheck]
              exact h
          | ok y =>
              rw [next, tryPush_of_check_ok hcheck]
              exact hpush a y h
      | restart => exact hrestart a h
      | reset size =>
          cases hsize : Resizable.reset a size with
          | error e =>
              rw [next, hsize]
              exact h
          | ok b =>
              rw [next, hsize]
              exact hreset a size b h hsize

theorem Renews.of_reset {v : Renewal α σ} (hbuild : ∀ size, Resizable.reset a size = v.build size)
    (hassign : ∀ size, (v.assignSize size).run (v.fields a) =
      allOrNothing v.fields a (Resizable.reset a size))
    (hrestart : Resizable.reset a (v.size a) = .ok (restart a))
    (hassignRestart : v.assignRestart.run (v.fields a) = .ok () (v.fields (restart a))) :
    Renews v a where
  refused size e h := by
    have hreset := (hbuild size).trans h
    refine ⟨hreset, ?_, fun later => ?_⟩
    · rw [hassign, hreset]
      rfl
    · rw [scan_cons, step, hreset]
  allowed size new h := by
    have hreset := (hbuild size).trans h
    refine ⟨hreset, ?_, fun later => ?_⟩
    · rw [hassign, hreset]
      rfl
    · rw [scan_cons, step, hreset]
  restarted := ⟨hrestart, hassignRestart⟩

end Aggregator

namespace Decimator

open Aggregator

variable {w : SampleWidth} {limit : BlockLimit w} {d : Decimator w limit} {r : Rectifier w}
  {factor : Nat}

theorem rectifier_of_ofFactor (h : ofFactor factor r = .ok d) : d.rectifier = r := by
  obtain ⟨_, rfl⟩ := eq_fresh_of_ofFactor h
  rfl

theorem rectifier_after (d : Decimator w limit) (steps : List Step) :
    (after d steps).rectifier = d.rectifier :=
  after_of_kept (P := fun a : Decimator w limit => a.rectifier = d.rectifier)
    (fun a x h => (a.rectifier_push x).trans h)
    (fun _ h => h) (fun _ _ _ h hreset => (rectifier_of_ofFactor hreset).trans h) rfl steps

/-- Decimators that fold alike. -/
def renewal (r : Rectifier w) : Renewal (Decimator w limit) (Fields w) where
  build factor := ofFactor factor r
  size d := d.factor
  fields := fields
  assignSize := assignFactor limit
  assignRestart := assignRestart
  fields_injective := fields_injective

theorem reset_factor (d : Decimator w limit) : Resizable.reset d d.factor = .ok d.restart :=
  ofFactor_of_allowed d.rectifier ⟨d.factor_pos, d.factor_le⟩

theorem renews (h : d.rectifier = r) : Renews (renewal r) d :=
  .of_reset (fun factor => congrArg (ofFactor factor) h) d.run_assignFactor d.reset_factor
    d.run_assignRestart

end Decimator

namespace MovingSum

open Aggregator

variable {w : SampleWidth} {c : Capacity} {m : MovingSum w c} {r : Rectifier w} {width : Nat}

theorem rectifier_of_ofWidth (h : ofWidth width r = .ok m) : m.rectifier = r := by
  obtain ⟨_, rfl⟩ := eq_fresh_of_ofWidth h
  rfl

theorem rectifier_after (m : MovingSum w c) (steps : List Step) :
    (after m steps).rectifier = m.rectifier :=
  after_of_kept (P := fun a : MovingSum w c => a.rectifier = m.rectifier)
    (fun _ _ h => h) (fun _ h => h)
    (fun _ _ _ h hreset => (rectifier_of_ofWidth hreset).trans h) rfl steps

/-- Moving sums that fold alike. -/
def renewal (r : Rectifier w) : Renewal (MovingSum w c) (Fields w c) where
  build width := ofWidth width r
  size m := m.width
  fields := fields
  assignSize := assignWidth
  assignRestart := assignRestart
  fields_injective := fields_injective

theorem reset_width (m : MovingSum w c) : Resizable.reset m m.width = .ok m.restart :=
  ofWidth_of_allowed m.rectifier ⟨m.buffer.width_pos, m.buffer.width_le⟩

theorem renews (h : m.rectifier = r) : Renews (renewal r) m :=
  .of_reset (fun width => congrArg (ofWidth width) h) m.run_assignWidth m.reset_width
    m.run_assignRestart

end MovingSum

namespace Aggregator

/-- Whatever steps an aggregator took, it starts over as a new one that folds like it does. -/
theorem renews_after_steps :
    (∀ (w : SampleWidth) (limit : BlockLimit w) (r : Rectifier w) (factor : Nat)
      (start : Decimator w limit), Decimator.ofFactor factor r = .ok start →
      ∀ steps, Renews (Decimator.renewal r) (after start steps)) ∧
    ∀ (w : SampleWidth) (c : Capacity) (r : Rectifier w) (width : Nat) (start : MovingSum w c),
      MovingSum.ofWidth width r = .ok start →
      ∀ steps, Renews (MovingSum.renewal r) (after start steps) := by
  constructor
  · intro w limit r factor start hstart steps
    exact Decimator.renews ((start.rectifier_after steps).trans
      (Decimator.rectifier_of_ofFactor hstart))
  · intro w c r width start hstart steps
    exact MovingSum.renews ((start.rectifier_after steps).trans
      (MovingSum.rectifier_of_ofWidth hstart))

theorem renews_after_steps_of_three :
    let c : Capacity := { slots := 4 }
    let r : Rectifier deployedWidth := { enabled := true }
    let steps : List Step := [.push 500, .push 60000, .tryPush 1024, .reset 0, .reset 4, .push 1]
    ∃ (d : Decimator deployedWidth deployedLimit) (m : MovingSum deployedWidth c),
      Decimator.ofFactor 3 r = .ok d ∧ MovingSum.ofWidth 3 r = .ok m ∧
      Resizable.reset (after d steps) 0 = .error .zeroFactor ∧
      (Decimator.assignFactor deployedLimit 3).run (after d steps).fields = .ok () d.fields ∧
      (MovingSum.assignWidth 5).run (after m steps).fields =
        .error (.widthTooLarge 5 4) (after m steps).fields ∧
      Resizable.reset (after m steps) 3 = .ok m := by
  intro c r steps
  have hfactor : 1 ≤ 3 ∧ 3 ≤ deployedLimit.max := by decide
  have hwidth : 1 ≤ 3 ∧ 3 ≤ c.slots := by decide
  have hd := Decimator.ofFactor_of_allowed r hfactor
  have hm := MovingSum.ofWidth_of_allowed r hwidth
  have hdecimator := renews_after_steps.1 _ _ _ _ _ hd steps
  have hsum := renews_after_steps.2 _ _ _ _ _ hm steps
  exact ⟨_, _, hd, hm, (hdecimator.refused 0 _ rfl).1, (hdecimator.allowed 3 _ hd).2.1,
    (hsum.refused 5 _ rfl).2.1, (hsum.allowed 3 _ hm).1⟩

end Aggregator

end DigitiserSums
