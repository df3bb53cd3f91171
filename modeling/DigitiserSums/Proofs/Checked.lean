import DigitiserSums.Proofs.History

/-!
# Arithmetic that stays in range

The steps of a session once more, worked out in natural numbers with every operation checked: an
addition that leaves its word, a subtraction below zero, a remainder by zero and a slot outside the
ring give nothing. In every reachable session each step gives something, and it is what the words
give.
-/

namespace DigitiserSums

/-! ## Checked operations -/

/-- A sum that must lie below `size`. -/
def checkedAdd (size a b : Nat) : Option Nat :=
  if a + b < size then some (a + b) else none

/-- A difference that must not lie below zero. -/
def checkedSub (a b : Nat) : Option Nat :=
  if b ≤ a then some (a - b) else none

/-- A remainder whose modulus must not be zero. -/
def checkedMod (a b : Nat) : Option Nat :=
  if b = 0 then none else some (a % b)

theorem checkedAdd_eq {size a b : Nat} (h : a + b < size) : checkedAdd size a b = some (a + b) :=
  if_pos h

theorem checkedSub_eq {a b : Nat} (h : b ≤ a) : checkedSub a b = some (a - b) :=
  if_pos h

theorem checkedMod_eq {a b : Nat} (h : 0 < b) : checkedMod a b = some (a % b) :=
  if_neg (Nat.ne_of_gt h)

/-- A slot that must be one of the ring. -/
def Capacity.slot? (c : Capacity) (i : Nat) : Option (Fin c.slots) :=
  if h : i < c.slots then some ⟨i, h⟩ else none

theorem Capacity.slot?_mod (c : Capacity) (i : Nat) : c.slot? (i % c.slots) = some (c.slot i) :=
  dif_pos (Nat.mod_lt i c.slots_pos)

theorem Capacity.slots_lt (c : Capacity) : c.slots < UInt32.size := by
  have hfit := c.slots_fit
  have hone : c.slots * 1 ≤ c.slots * (UInt16.size - 1) := Nat.mul_le_mul_left _ (by decide)
  omega

/-- There are two codes at least, so a block has no more samples than a total can count. -/
theorem BlockLimit.max_lt {w : SampleWidth} (limit : BlockLimit w) : limit.max < UInt32.size := by
  have hfit := limit.max_fit
  have hhalf := w.half_pos
  have hcodes := w.codes_eq
  have hone : limit.max * 1 ≤ limit.max * (w.codes - 1) := Nat.mul_le_mul_left _ (by omega)
  omega

/-! ## Rectifiers -/

namespace Rectifier

variable {w : SampleWidth}

def rectify? (r : Rectifier w) (s : Sample) : Option Sample :=
  if !r.enabled || w.midpoint ≤ s then some s
  else match r.policy with
    | .reflect => (checkedSub w.fullScale.toNat s.toNat).map .ofNat
    | .offset => (checkedAdd UInt16.size s.toNat w.midpoint.toNat).map .ofNat

theorem rectify?_eq (r : Rectifier w) (s : Sample) : r.rectify? s = some (r.rectify s) := by
  have htop := w.toNat_fullScale_eq
  have hmax : w.fullScale.toNat < UInt16.size := w.fullScale.toNat_lt
  unfold rectify? rectify
  by_cases hkeep : (!r.enabled || decide (w.midpoint ≤ s)) = true
  · rw [if_pos hkeep, if_pos hkeep]
  · have hlow : s.toNat < w.midpoint.toNat := by
      simp only [Bool.or_eq_true, decide_eq_true_eq, not_or] at hkeep
      exact UInt16.lt_iff_toNat_lt.1 (UInt16.not_le.1 hkeep.2)
    rw [if_neg hkeep, if_neg hkeep]
    cases r.policy with
    | reflect =>
        have hle : s ≤ w.fullScale := UInt16.le_iff_toNat_le.2 (by omega)
        simp only [checkedSub_eq (UInt16.le_iff_toNat_le.1 hle), Option.map_some]
        rw [← UInt16.toNat_sub_of_le _ _ hle, UInt16.ofNat_toNat]
    | offset =>
        have hlt : s.toNat + w.midpoint.toNat < UInt16.size := by omega
        simp only [checkedAdd_eq hlt, Option.map_some]
        rw [UInt16.ofNat_add, UInt16.ofNat_toNat, UInt16.ofNat_toNat]

end Rectifier

/-! ## Rings -/

namespace RingBuffer

variable {c : Capacity} {b : RingBuffer c} {xs : List Sample}

theorem head_lt (b : RingBuffer c) : b.head.val < c.slots :=
  b.head.isLt

def push? (b : RingBuffer c) (value : Sample) : Option (Sample × RingBuffer c) := do
  let ahead ← checkedAdd UInt64.size b.head c.slots
  let behind ← checkedSub ahead b.width
  let oldest ← c.slot? (← checkedMod behind c.slots)
  let evicted := b.slots[oldest]
  let next ← checkedAdd UInt64.size b.head 1
  let head ← c.slot? (← checkedMod next c.slots)
  let kept ← checkedSub b.total.toNat evicted.toNat
  let total ← checkedAdd UInt32.size kept value.toNat
  return (evicted, { b with
    slots := b.slots.set b.head value b.head_lt, head, total := .ofNat total })

theorem Holds.push?_eq (h : b.Holds xs) (value : Sample) : b.push? value = some (b.push value) := by
  have hslots := c.slots_lt
  have hsize : UInt32.size + UInt32.size < UInt64.size := by decide
  have hhead := b.head_lt
  have hwidth := b.width_le
  have hpos := c.slots_pos
  have hkept := h.toNat_evicted_le value
  have hfits := h.toNat_total_sub_add_lt value
  have htotal := h.toNat_total_push value
  have hahead : b.head.val + c.slots < UInt64.size := by omega
  have hbehind : b.width ≤ b.head.val + c.slots := by omega
  have hnext : b.head.val + 1 < UInt64.size := by omega
  have heq : UInt32.ofNat (b.total.toNat - (b.push value).1.toNat + value.toNat) =
      (b.push value).2.total := by
    rw [← htotal, UInt32.ofNat_toNat]
  unfold push?
  simp only [checkedAdd_eq hahead, checkedSub_eq hbehind, checkedMod_eq hpos, c.slot?_mod,
    checkedAdd_eq hnext, Option.bind_eq_bind, Option.bind_some]
  change (checkedSub b.total.toNat (b.push value).1.toNat).bind _ = _
  simp only [checkedSub_eq hkept, Option.bind_some, checkedAdd_eq hfits, heq]
  rfl

end RingBuffer

/-! ## Aggregators -/

namespace Decimator

variable {w : SampleWidth} {limit : BlockLimit w} {d : Decimator w limit} {xs : List Sample}

/-- The block under way must moreover stay short of its length. -/
def push? (d : Decimator w limit) (s : Sample) : Option (Option Total × Decimator w limit) := do
  let folded ← d.rectifier.rectify? s
  let total ← checkedAdd UInt32.size d.total.toNat folded.toNat
  let last ← checkedSub d.factor 1
  if d.pending = last then
    return (some (.ofNat total), { d with pending := 0, total := 0, pending_lt := d.factor_pos })
  else
    let pending ← checkedAdd UInt64.size d.pending 1
    if h : pending < d.factor then
      return (none, { d with pending, total := .ofNat total, pending_lt := h })
    else none

theorem Holds.push?_eq (h : d.Holds xs) {s : Sample} (hs : s ≤ w.fullScale) :
    d.push? s = some (d.push s) := by
  have hmax := limit.max_lt
  have hsize : UInt32.size < UInt64.size := by decide
  have hpos := d.factor_pos
  have hlt := d.pending_lt
  have hle := d.factor_le
  have htotal := h.toNat_total_add_lt hs
  have heq : UInt32.ofNat (d.total.toNat + (d.rectifier.rectify s).toNat) =
      d.total + (d.rectifier.rectify s).toUInt32 := by
    rw [UInt32.ofNat_add, UInt32.ofNat_toNat, UInt32.ofNat_uInt16ToNat]
  have hnext : d.pending + 1 < UInt64.size := by omega
  unfold push? Decimator.push
  simp only [d.rectifier.rectify?_eq, checkedAdd_eq htotal, checkedSub_eq hpos,
    Option.bind_eq_bind, Option.bind_some, heq]
  by_cases hfull : d.pending + 1 = d.factor
  · rw [if_pos (by omega), dif_pos hfull]
    rfl
  · have hroom : d.pending + 1 < d.factor := by omega
    rw [if_neg (by omega), dif_neg hfull, checkedAdd_eq hnext, Option.bind_some, dif_pos hroom]
    rfl

end Decimator

namespace MovingSum

variable {w : SampleWidth} {c : Capacity} {m : MovingSum w c} {xs : List Sample}

def fill? (m : MovingSum w c) : Option Nat :=
  if m.filled < m.width then checkedAdd UInt64.size m.filled 1 else some m.filled

/-- No more samples may be counted than the window holds. -/
def push? (m : MovingSum w c) (s : Sample) : Option (Option Total × MovingSum w c) := do
  let folded ← m.rectifier.rectify? s
  let (_, buffer) ← m.buffer.push? folded
  let filled ← m.fill?
  if h : filled ≤ buffer.width then
    return (if filled = buffer.width then some buffer.total else none,
      { m with buffer, filled, filled_le := h })
  else none

theorem fill?_eq (m : MovingSum w c) : m.fill? = some (min (m.filled + 1) m.width) := by
  have hslots := c.slots_lt
  have hsize : UInt32.size < UInt64.size := by decide
  have hle : m.filled ≤ m.width := m.filled_le
  have hwidth : m.width ≤ c.slots := m.buffer.width_le
  unfold fill?
  by_cases hroom : m.filled < m.width
  · have hlt : m.filled + 1 < UInt64.size := by omega
    rw [if_pos hroom, checkedAdd_eq hlt, Nat.min_eq_left hroom]
  · rw [if_neg hroom, Nat.min_eq_right (by omega)]
    exact congrArg some (by omega)

theorem Holds.push?_eq (h : m.Holds xs) (s : Sample) : m.push? s = some (m.push s) := by
  unfold push?
  simp only [m.rectifier.rectify?_eq, h.buffer.push?_eq, m.fill?_eq, Option.bind_eq_bind,
    Option.bind_some]
  exact dif_pos (Nat.min_le_right _ _)

end MovingSum

namespace Pipeline

variable {p : Pipeline} {xs : List Sample}

def push? : Pipeline → Sample → Option (Option Total × Pipeline)
  | downsample d, s => (d.push? s).map fun (sum, d) => (sum, downsample d)
  | movingSum m, s => (m.push? s).map fun (sum, m) => (sum, movingSum m)

/-- The number of pushes after a restart that emit nothing, one less than the size. -/
def warmUp? : Pipeline → Option Nat
  | downsample d => checkedSub d.factor 1
  | movingSum m => checkedSub m.width 1

theorem Holds.push?_eq (h : p.Holds xs) {s : Sample} (hs : s ≤ deployedWidth.fullScale) :
    p.push? s = some (p.push s) := by
  cases p with
  | downsample d =>
      simp only [push?, Decimator.Holds.push?_eq h hs, Option.map_some]
      rfl
  | movingSum m =>
      simp only [push?, MovingSum.Holds.push?_eq h s, Option.map_some]
      rfl

theorem warmUp?_eq (p : Pipeline) : p.warmUp? = some (Aggregator.warmUp p) := by
  cases p with
  | downsample d => exact checkedSub_eq d.factor_pos
  | movingSum m => exact checkedSub_eq m.buffer.width_pos

end Pipeline

/-! ## Edge counters -/

namespace EdgeCounter

variable {c : EdgeCounter} {sums : List Nat}

def countEdge? (e : EdgeCounter) (index : Position) (sum : Total) :
    Option (Option Trigger × EdgeCounter) := do
  let edges ← checkedAdd UInt8.size e.edges.toNat 1
  let e := { e with settling := e.settings.settlingTime }
  if edges = e.settings.edgeNum.toNat then
    return (some ⟨index, sum, .ofNat edges⟩, { e with edges := 0 })
  else return (none, { e with edges := .ofNat edges })

def signal? (e : EdgeCounter) (index : Position) (sum : Total) :
    Option (Option Trigger × EdgeCounter) := do
  let next := { e with previous := some sum }
  if 0 < e.settling then
    let settling ← checkedSub e.settling.toNat 1
    return (none, { next with settling := .ofNat settling })
  else match e.previous with
    | none => return (none, next)
    | some previous =>
      if e.IsEdge previous sum then next.countEdge? index sum else return (none, next)

theorem Holds.signal?_eq (h : c.Holds sums) (index : Position) (sum : Total) :
    c.signal? index sum = some (c.signal index sum) := by
  have hone := h.toNat_edges_add_one
  have hedges : c.edges.toNat + 1 < UInt8.size := hone ▸ (c.edges + 1).toNat_lt
  have hcount : ({ c with previous := some sum } : EdgeCounter).countEdge? index sum =
      some (({ c with previous := some sum } : EdgeCounter).countEdge index sum) := by
    have heq : UInt8.ofNat (c.edges.toNat + 1) = c.edges + 1 := by rw [← hone, UInt8.ofNat_toNat]
    have hiff : c.edges.toNat + 1 = c.settings.edgeNum.toNat ↔
        c.edges + 1 = c.settings.edgeNum := by
      rw [← hone, UInt8.toNat_inj]
    unfold countEdge? EdgeCounter.countEdge
    simp only [checkedAdd_eq hedges, Option.bind_eq_bind, Option.bind_some, heq, hiff]
    by_cases hfull : c.edges + 1 = c.settings.edgeNum
    · rw [if_pos hfull, if_pos hfull]
      rfl
    · rw [if_neg hfull, if_neg hfull]
      rfl
  unfold signal? EdgeCounter.signal
  by_cases hmask : 0 < c.settling
  · have hle : (1 : UInt8) ≤ c.settling := UInt8.le_iff_toNat_le.2 (UInt8.lt_iff_toNat_lt.1 hmask)
    have hsub := checkedSub_eq (UInt8.le_iff_toNat_le.1 hle)
    rw [UInt8.toNat_one] at hsub
    have heq : UInt8.ofNat (c.settling.toNat - 1) = c.settling - 1 := by
      have hnat := UInt8.toNat_sub_of_le _ _ hle
      rw [UInt8.toNat_one] at hnat
      rw [← hnat, UInt8.ofNat_toNat]
    rw [if_pos hmask, if_pos hmask]
    simp only [hsub, Option.bind_eq_bind, Option.bind_some, heq]
    rfl
  · rw [if_neg hmask, if_neg hmask]
    cases c.previous with
    | none => rfl
    | some previous =>
        by_cases hedge : c.IsEdge previous sum
        · simpa only [if_pos hedge] using hcount
        · simp only [if_neg hedge]
          rfl

end EdgeCounter

/-! ## Sessions -/

namespace Session

variable {s : Session} {config : SessionConfig} {xs : List Sample}

def watch? (s : Session) (sum : Total) : Option (Option Trigger × Option EdgeCounter) :=
  match s.edgeCounter with
  | none => some (none, none)
  | some counter =>
    (counter.signal? s.sumsEmitted sum).map fun (trigger, counter) => (trigger, some counter)

def advance? (s : Session) (sum : Option Total) (pipeline : Pipeline) :
    Option (Option Emission × Session) := do
  let received ← checkedAdd UInt64.size s.samplesReceived.toNat 1
  let next := { s with pipeline, samplesReceived := .ofNat received }
  match sum with
  | none => return (none, next)
  | some sum =>
    let (trigger, edgeCounter) ← s.watch? sum
    let emitted ← checkedAdd UInt64.size s.sumsEmitted.toNat 1
    return (some ⟨s.samplesReceived, sum, trigger⟩,
      { next with edgeCounter, sumsEmitted := .ofNat emitted })

def push? (s : Session) (x : Sample) :
    Option (Except SampleOutOfRange (Option Emission × Session)) :=
  match Aggregator.check s.pipeline x with
  | .error e => some (.error e)
  | .ok x => do
    let (sum, pipeline) ← s.pipeline.push? x
    (s.advance? sum pipeline).map .ok

def processLine? (s : Session) (line : String) :
    Option (Except LineFault (Option Emission × Session)) :=
  let text := Text.trim line.toList
  match sampleOfText text with
  | .error fault => some (.error (.unreadable text fault))
  | .ok x => (s.push? x).map (·.mapError .outOfRange)

def handleLine? (s : Session) (line : String) : Option (LineOutcome × Session) :=
  if Text.trim line.toList = [] then some (.blank, s)
  else (s.processLine? line).map fun result =>
    match result with
    | .error fault => (.failed fault, s)
    | .ok (emission, s) => (.taken emission, s)

def step? (s : Session) : Step → Option (Reply × Session)
  | .push x => (s.push? x).map fun result => (s.orKeep result).map .pushed id
  | .processLine line => (s.processLine? line).map fun result => (s.orKeep result).map .processed id
  | .handleLine line => (s.handleLine? line).map (·.map .handled id)
  | .reset => some (.reset, s.reset)

/-- A run of checked steps; it gives nothing as soon as one of them gives nothing. -/
def run? (s : Session) : List Step → Option (List Reply × Session)
  | [] => some ([], s)
  | st :: steps => do
    let (reply, s) ← s.step? st
    let (replies, s) ← s.run? steps
    return (reply :: replies, s)

namespace Holds

theorem watch?_eq (h : s.Holds config xs) (sum : Total) : s.watch? sum = some (s.watch sum) := by
  unfold watch? Session.watch
  cases hc : s.edgeCounter with
  | none => rfl
  | some c =>
      simp only [(h.edgeCounter c hc).signal?_eq, Option.map_some]

theorem advance?_eq (h : s.Holds config xs) (hcount : xs.length + 1 < UInt64.size)
    (sum : Option Total) (pipeline : Pipeline) :
    s.advance? sum pipeline = some (s.advance sum pipeline) := by
  have hsums := h.length_sums_le
  obtain ⟨hexact, hexact'⟩ := h.toNat_counts (by omega)
  have hreceived : s.samplesReceived.toNat + 1 < UInt64.size := by omega
  have hemitted : s.sumsEmitted.toNat + 1 < UInt64.size := by omega
  have hnext (n : Position) : UInt64.ofNat (n.toNat + 1) = n + 1 := by
    rw [UInt64.ofNat_add, UInt64.ofNat_toNat]
    rfl
  unfold advance? Session.advance
  simp only [checkedAdd_eq hreceived, Option.bind_eq_bind, Option.bind_some, hnext]
  cases sum with
  | none => rfl
  | some sum =>
      simp only [h.watch?_eq, checkedAdd_eq hemitted, Option.bind_some, hnext]
      rfl

theorem push?_eq (h : s.Holds config xs) (hcount : xs.length + 1 < UInt64.size) (x : Sample) :
    s.push? x = some (s.push x) := by
  unfold push?
  by_cases hx : x ≤ 1023
  · have hx' : x ≤ deployedWidth.fullScale := fullScale_eq ▸ hx
    have hcheck : Aggregator.check s.pipeline x = .ok x :=
      (Rectifier.check_eq_ok_iff _ _ _).2 ⟨rfl, hx'⟩
    rw [hcheck, s.push_eq_ok hx]
    simp only [h.pipeline.push?_eq hx', h.advance?_eq hcount, Option.bind_eq_bind,
      Option.bind_some, Option.map_some]
  · have hcheck : Aggregator.check s.pipeline x = .error ⟨x, 1023⟩ := by
      rw [← fullScale_eq] at hx ⊢
      exact if_pos (UInt16.not_le.1 hx)
    rw [hcheck, s.push_eq_error hx]

theorem processLine?_eq (h : s.Holds config xs) {line : String}
    (hcount : ∀ x, sampleOfText (Text.trim line.toList) = .ok x → xs.length + 1 < UInt64.size) :
    s.processLine? line = some (s.processLine line) := by
  cases ht : sampleOfText (Text.trim line.toList) with
  | error fault =>
      rw [s.processLine_of_error ht]
      simp only [processLine?, ht]
  | ok x =>
      rw [s.processLine_of_ok ht]
      simp only [processLine?, ht, h.push?_eq (hcount x ht), Option.map_some]

theorem handleLine?_eq (h : s.Holds config xs) {line : String}
    (hcount : ∀ x, sampleOfText (Text.trim line.toList) = .ok x → xs.length + 1 < UInt64.size) :
    s.handleLine? line = some (s.handleLine line) := by
  unfold handleLine? Session.handleLine
  by_cases hblank : Text.trim line.toList = []
  · rw [if_pos hblank, if_pos hblank]
  · rw [if_neg hblank, if_neg hblank, h.processLine?_eq hcount]
    rfl

/-- A checked step gives what the step gives, while there is a place for the sample it brings. -/
theorem step?_eq (h : s.Holds config xs) {st : Step}
    (hcount : ∀ x ∈ st.sample?, xs.length + 1 < UInt64.size) : s.step? st = some (s.step st) := by
  have hline (line : String)
      (hc : ∀ x ∈ (sampleOfText (Text.trim line.toList)).toOption, xs.length + 1 < UInt64.size) :
      ∀ x, sampleOfText (Text.trim line.toList) = .ok x → xs.length + 1 < UInt64.size := by
    intro x hx
    exact hc x (by simp [hx, Except.toOption])
  cases st with
  | push x => simp only [step?, h.push?_eq (hcount x rfl), Option.map_some, Session.step]
  | processLine line =>
      simp only [step?, h.processLine?_eq (hline line hcount), Option.map_some, Session.step]
  | handleLine line =>
      simp only [step?, h.handleLine?_eq (hline line hcount), Option.map_some, Session.step]
  | reset => rfl

theorem length_takenNext_le (xs : List Sample) (st : Step) :
    (takenNext xs st).length ≤ xs.length + st.sample?.toList.length := by
  have hfilter := List.length_filter_le (fun x : Sample => decide (x ≤ 1023)) st.sample?.toList
  have hadd := Nat.add_le_add_left hfilter xs.length
  cases st with
  | reset => exact Nat.zero_le _
  | push x => simpa only [takenNext, List.length_append] using hadd
  | processLine line => simpa only [takenNext, List.length_append] using hadd
  | handleLine line => simpa only [takenNext, List.length_append] using hadd

theorem run?_eq (h : s.Holds config xs) {steps : List Step}
    (hcount : xs.length + (steps.filterMap Step.sample?).length < UInt64.size) :
    s.run? steps = some (scan Session.step s steps) := by
  -- The bound falls as samples are taken, and a reset only gives places back.
  induction steps generalizing s xs with
  | nil => rfl
  | cons st steps ih =>
      have hmap : ((st :: steps).filterMap Step.sample?).length =
          st.sample?.toList.length + (steps.filterMap Step.sample?).length := by
        cases hs : st.sample? <;> simp [hs, Nat.add_comm]
      rw [hmap] at hcount
      have hstep : s.step? st = some (s.step st) := by
        apply h.step?_eq
        intro x hx
        rw [Option.mem_def.1 hx] at hcount
        simp only [Option.toList_some, List.length_singleton] at hcount
        omega
      have hrest := ih (h.step st) (by
        have hle := length_takenNext_le xs st
        omega)
      simp only [run?, hstep, hrest, Option.bind_eq_bind, Option.bind_some]
      rfl

end Holds

/-- From its start on, a session works within the range of its words: checking every operation of a
run changes nothing, and neither does checking how long the warm-up is. -/
theorem run?_ofConfig {start : Session} (hstart : ofConfig config = .ok start) (steps : List Step)
    (hcount : (steps.filterMap Step.sample?).length < UInt64.size) :
    start.run? steps = some (scan step start steps) ∧
      (start.after steps).pipeline.warmUp? =
        some (Aggregator.warmUp (start.after steps).pipeline) := by
  refine ⟨(holds_ofConfig hstart).run?_eq ?_, Pipeline.warmUp?_eq _⟩
  simpa using hcount

theorem run?_movingSum :
    let config : SessionConfig :=
      { aggregation := .movingSum 2, absoluteValue := true, foldPolicy := .offset,
        edge := some { threshold := ⟨0x44960000⟩, settlingTime := 1, edgeNum := 2 } }
    let steps : List Step :=
      [.push 500, .handleLine " 600\r", .processLine "x", .push 1023, .reset, .push 2000, .push 0]
    ∃ start, ofConfig config = .ok start ∧ (steps.filterMap Step.sample?).length < UInt64.size ∧
      start.run? steps = some (scan step start steps) := by
  intro config steps
  obtain ⟨start, hstart⟩ : ∃ start, ofConfig config = .ok start := ⟨_, rfl⟩
  have hcount : (steps.filterMap Step.sample?).length < UInt64.size :=
    Nat.lt_of_le_of_lt (List.length_filterMap_le _ _) (by decide)
  exact ⟨start, hstart, hcount, (run?_ofConfig hstart steps hcount).1⟩

end Session

end DigitiserSums
