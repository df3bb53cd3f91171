import DigitiserSums.Description
import DigitiserSums.Proofs.Json.Value

/-!
# What a value describes

The schema of session descriptions, read off the tree of a value: which values stand in the place of
each member, and what each of them has to be. The order of members, how names and strings are
spelled, and whatever may be passed over leave no trace here.
-/

namespace DigitiserSums

namespace Json

/-- The name of a member, unless its spelling makes no text. -/
def Member.text? (m : Member) : Option String :=
  (decode m.1).toOption

/-- The values of the members with a name, in order. -/
def occurrences (name : String) (ms : List Member) : List Value :=
  (ms.filter fun m => m.text? = some name).map Prod.snd

end Json

namespace Description

open Json

/-! ## Scalars -/

/-- The name of something that has nothing under it. -/
def Names (name : String) (v : Value) : Prop :=
  ∃ parts, decode parts = .ok name ∧ (v = .string parts ∨ v = .object [(parts, .null)])

/-- An integer from zero to below the limit, without point or power of ten. -/
def IsNatural (limit : Nat) (v : Value) (n : Nat) : Prop :=
  ∃ numeral, v = .number numeral ∧ numeral.isNegative = false ∧ numeral.fraction = [] ∧
    numeral.exponent = none ∧ Decimal.value numeral.whole = n ∧ n < limit

/-- A number of any kind within the range of floating-point numbers. -/
def IsThreshold (v : Value) (t : Single) : Prop :=
  ∃ numeral x, v = .number numeral ∧ numeral.toNumber? = some x ∧ t = x.toSingle

/-! ## Places -/

/-- Which values stand in the place of each name: those of the members with the name, all of whose
names are among these, or those of an array, which may end early. -/
inductive Supplies (names : List String) : Value → (String → List Value) → Prop where
  | members {ms : List Member} : (∀ m ∈ ms, ∃ name ∈ names, m.text? = some name) →
      Supplies names (.object ms) fun name => occurrences name ms
  | elements {vs : List Value} : vs.length ≤ names.length →
      Supplies names (.array vs) fun name => vs[names.idxOf name]?.toList

variable {α : Type}

/-- A place with exactly one value. -/
def Required (R : Value → α → Prop) (place : List Value) (a : α) : Prop :=
  ∃ v, place = [v] ∧ R v a

/-- A place with one value at most, and what it stands for without one. -/
def Optional (R : Value → α → Prop) (absent : α) (place : List Value) (a : α) : Prop :=
  place = [] ∧ a = absent ∨ ∃ v, place = [v] ∧ R v a

/-! ## Aggregation -/

/-- A size alone in an array, or once in an object under its name; other members are ignored, as
long as their names are texts. -/
def IsSize (field : String) (v : Value) (n : Nat) : Prop :=
  (∃ size, v = .array [size] ∧ IsNatural UInt64.size size n) ∨
    ∃ ms : List Member, v = .object ms ∧ (∀ m ∈ ms, m.text?.isSome) ∧
      Required (IsNatural UInt64.size) (occurrences field ms) n

/-- An object whose only member has the name of an aggregator. -/
def IsAggregation (v : Value) (a : Aggregation) : Prop :=
  ∃ parts content, v = .object [(parts, content)] ∧
    match a with
    | .downsample n => decode parts = .ok "downsample" ∧ IsSize "downsample-num" content n
    | .movingSum n => decode parts = .ok "moving-sum" ∧ IsSize "window-width" content n

/-! ## Edge trigger -/

/-- An object or an array with the settings of an edge counter. -/
def IsEdgeSettings (v : Value) (e : EdgeSettings) : Prop :=
  ∃ place, Supplies edgeNames v place ∧
    Required IsThreshold (place "threshold") e.threshold ∧
    Optional (fun v kind => Names (EdgeKind.name kind) v) .rising (place "edge-type") e.kind ∧
    Optional (fun v n => IsNatural UInt8.size v n.toNat) 0 (place "settling-time") e.settlingTime ∧
    Optional (fun v n => IsNatural UInt8.size v n.toNat) 1 (place "edge-num") e.edgeNum

/-- The settings of an edge counter, or `null` for none. -/
def IsEdge (v : Value) (e : Option EdgeSettings) : Prop :=
  v = .null ∧ e = none ∨ ∃ settings, IsEdgeSettings v settings ∧ e = some settings

/-! ## Session -/

/-- An object or an array with the configuration of a session. -/
def IsSession (v : Value) (c : SessionConfig) : Prop :=
  ∃ place, Supplies sessionNames v place ∧
    Required IsAggregation (place "aggregation") c.aggregation ∧
    Optional (fun v b => v = .bool b) false (place "absolute-value") c.absoluteValue ∧
    Optional (fun v policy => Names (FoldPolicy.name policy) v) .reflect (place "fold-policy")
      c.foldPolicy ∧
    Optional IsEdge none (place "edge-trigger") c.edge

end Description

end DigitiserSums
