import DigitiserSums.Refusal
import DigitiserSums.Scan

/-!
# Counting threshold crossings

An edge counter watches a stream of sums. A crossing of the threshold in the wanted direction is an
edge; after an edge, crossings are ignored for the settling time; every `edgeNum` edges make a
trigger. Sums are rounded to 32-bit binary numbers before they meet the threshold, and compared by
exact value.
-/

namespace DigitiserSums

/-- Which crossings count. -/
inductive EdgeKind where
  /-- From below the threshold to it or above. -/
  | rising
  /-- From above the threshold to it or below. -/
  | falling
deriving DecidableEq, Repr

namespace EdgeKind

instance : Inhabited EdgeKind := ⟨rising⟩

def all : List EdgeKind := [rising, falling]

/-- The name of a kind in descriptions and on the command line. -/
def name : EdgeKind → String
  | rising => "rising-edge"
  | falling => "falling-edge"

theorem mem_all (k : EdgeKind) : k ∈ all := by
  cases k <;> simp [all]

/-- Whether going from `previous` to `current` crosses `threshold`. -/
def Crosses : EdgeKind → (threshold previous current : Int) → Prop
  | rising, t, p, c => p < t ∧ t ≤ c
  | falling, t, p, c => t < p ∧ c ≤ t

instance (k : EdgeKind) (t p c : Int) : Decidable (k.Crosses t p c) := by
  cases k <;> exact inferInstanceAs (Decidable (_ ∧ _))

/-- A falling crossing is a rising one upside down. -/
theorem crosses_falling_iff (t p c : Int) :
    falling.Crosses t p c ↔ rising.Crosses (-t) (-p) (-c) := by
  simp only [Crosses]
  omega

end EdgeKind

structure EdgeSettings where
  threshold : Single
  kind : EdgeKind := default
  /-- For how many sums after an edge crossings are ignored. -/
  settlingTime : UInt8 := 0
  /-- How many edges make a trigger. -/
  edgeNum : UInt8 := 1
deriving DecidableEq, Repr

/-- Says that the last of the edges asked for was found. -/
structure Trigger where
  /-- The place of the sum that completed the edge. -/
  index : Position
  sum : Total
  edges : UInt8
deriving DecidableEq, Repr

structure EdgeCounter where
  settings : EdgeSettings
  previous : Option Total
  /-- The number of sums still to be ignored. -/
  settling : UInt8
  /-- The number of edges since the last trigger. -/
  edges : UInt8
  edgeNum_ne_zero : settings.edgeNum ≠ 0
  isFinite_threshold : settings.threshold.IsFinite
deriving Repr

namespace EdgeCounter

/-- A counter that has seen no sum. A count of zero edges is refused before a threshold that is not
finite. -/
def ofSettings (settings : EdgeSettings) : Except ConfigurationError EdgeCounter :=
  if he : settings.edgeNum = 0 then .error .zeroEdges
  else if ht : settings.threshold.IsFinite then
    .ok { settings, previous := none, settling := 0, edges := 0,
          edgeNum_ne_zero := he, isFinite_threshold := ht }
  else .error (.nonFiniteThreshold settings.threshold)

def reset (e : EdgeCounter) : EdgeCounter :=
  { e with previous := none, settling := 0, edges := 0 }

/-- Whether two consecutive sums cross the threshold. -/
def IsEdge (e : EdgeCounter) (previous current : Total) : Prop :=
  e.settings.kind.Crosses e.settings.threshold.steps
    (Single.stepsOfNat previous.toNat) (Single.stepsOfNat current.toNat)

instance (e : EdgeCounter) (p c : Total) : Decidable (e.IsEdge p c) :=
  inferInstanceAs (Decidable (EdgeKind.Crosses _ _ _ _))

/-- Counts one more edge, and makes a trigger of it if it is the last one asked for. -/
def countEdge (e : EdgeCounter) (index : Position) (sum : Total) : Option Trigger × EdgeCounter :=
  let edges := e.edges + 1
  let e := { e with settling := e.settings.settlingTime }
  if edges = e.settings.edgeNum then (some ⟨index, sum, edges⟩, { e with edges := 0 })
  else (none, { e with edges })

/-- Takes the next sum and gives a trigger if it completes one. Ignored sums are still remembered as
the previous one. -/
def signal (e : EdgeCounter) (index : Position) (sum : Total) : Option Trigger × EdgeCounter :=
  let next := { e with previous := some sum }
  if 0 < e.settling then (none, { next with settling := e.settling - 1 })
  else match e.previous with
    | none => (none, next)
    | some previous =>
      if e.IsEdge previous sum then next.countEdge index sum else (none, next)

def signalAt (e : EdgeCounter) (item : Position × Total) : Option Trigger × EdgeCounter :=
  e.signal item.1 item.2

def numbered (first : Position) : List Total → List (Position × Total)
  | [] => []
  | sum :: sums => (first, sum) :: numbered (first + 1) sums

/-- Takes sums in order, with their places counted from `first`. -/
def signalAll (e : EdgeCounter) (first : Position) (sums : List Total) :
    List (Option Trigger) × EdgeCounter :=
  scan signalAt e (numbered first sums)

/-- The sums with places that an edge counter has still to take. -/
abbrev Source := Feed EdgeCounter (Position × Total)

@[simp] theorem settings_reset (e : EdgeCounter) : e.reset.settings = e.settings :=
  rfl

@[simp] theorem settings_signal (e : EdgeCounter) (index : Position) (sum : Total) :
    (e.signal index sum).2.settings = e.settings := by
  simp only [signal, countEdge]
  repeat' split
  all_goals rfl

@[simp] theorem previous_signal (e : EdgeCounter) (index : Position) (sum : Total) :
    (e.signal index sum).2.previous = some sum := by
  simp only [signal, countEdge]
  repeat' split
  all_goals rfl

theorem ofSettings_isOk_iff (settings : EdgeSettings) :
    (∃ e, ofSettings settings = .ok e) ↔ settings.edgeNum ≠ 0 ∧ settings.threshold.IsFinite := by
  simp only [ofSettings]
  split
  · simp [*]
  · split <;> simp [*]

/-- A counter that can be had is at its start. -/
theorem reset_eq_of_ofSettings {settings : EdgeSettings} {start : EdgeCounter}
    (h : ofSettings settings = .ok start) : start.settings = settings ∧ start.reset = start := by
  simp only [ofSettings] at h
  split at h
  · contradiction
  · split at h
    · cases h
      exact ⟨rfl, rfl⟩
    · contradiction

end EdgeCounter

end DigitiserSums
