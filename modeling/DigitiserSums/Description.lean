import DigitiserSums.Json.Reader
import DigitiserSums.Session

/-!
# Session descriptions

A session may be described by a JSON text. Each of its objects may also be an array of the members
in their order, with members that have a default left off at the end. The session and the edge
trigger refuse members that they do not know; the object inside `aggregation` passes over them. What
the library takes a bad name of a variant for is a parameter throughout.
-/

namespace DigitiserSums.Description

open Json Reader

variable (badName : BadName)

def size : Reader Nat :=
  natural UInt64.size "usize"

def byte : Reader UInt8 :=
  UInt8.ofNat <$> natural UInt8.size "u8"

def threshold : Reader Single :=
  Number.toSingle <$> number "f32"

def foldPolicy : Reader FoldPolicy :=
  unitVariant badName (FoldPolicy.all.map fun p => (p.name, p))

def edgeKind : Reader EdgeKind :=
  unitVariant badName (EdgeKind.all.map fun k => (k.name, k))

/-! ### Aggregation -/

/-- How the size of an aggregator is described. -/
structure SizeForm where
  make : Nat → Aggregation
  /-- The name of the member with the size. -/
  field : String
  /-- The object as a whole, in words. -/
  title : String

def sizeForms : List (String × SizeForm) :=
  [("downsample",
    ⟨.downsample, "downsample-num", "struct variant AggregationMode::Downsample"⟩),
   ("moving-sum",
    ⟨.movingSum, "window-width", "struct variant AggregationMode::MovingSum"⟩)]

namespace SizeForm

def member (form : SizeForm) (found : Option Nat) (name : String) : Reader (Option Nat) := do
  if name = form.field then
    some <$> freshMember form.field found size
  else
    punctuation .colon
    skip
    return found

/-- The size as the only element of an array. -/
def ofArray (form : SizeForm) : Reader Aggregation := do
  match ← firstElement size with
  | none => refuse (.tooShort 0 (form.title ++ " with 1 element"))
  | some n =>
    punctuation .closeBracket
    return form.make n

/-- The size as a member of an object. -/
def ofObject (form : SizeForm) : Reader Aggregation := do
  let found ← members form.member none
  form.make <$> required form.field found

def content (form : SizeForm) : Reader Aggregation
  | .openBracket :: tokens => form.ofArray tokens
  | .openBrace :: tokens => form.ofObject tokens
  | tokens => wrongType form.title tokens

end SizeForm

/-- Which aggregator, and its size. -/
def aggregation : Reader Aggregation := do
  let (form, hasContent) ← variant badName sizeForms
  if hasContent then
    punctuation .colon
    let aggregation ← form.content
    punctuation .closeBrace
    return aggregation
  else
    refuse (.wrongType .unitVariant "struct variant")

/-! ### Edge trigger -/

/-- The members of an edge trigger that have been read. -/
structure EdgeMembers where
  threshold : Option Single := none
  kind : Option EdgeKind := none
  settlingTime : Option UInt8 := none
  edgeNum : Option UInt8 := none

def edgeNames : List String :=
  ["threshold", "edge-type", "settling-time", "edge-num"]

namespace EdgeMembers

def member (m : EdgeMembers) (name : String) : Reader EdgeMembers :=
  match name with
  | "threshold" =>
    return { m with threshold := some (← freshMember name m.threshold Description.threshold) }
  | "edge-type" => return { m with kind := some (← freshMember name m.kind (edgeKind badName)) }
  | "settling-time" =>
    return { m with settlingTime := some (← freshMember name m.settlingTime byte) }
  | "edge-num" => return { m with edgeNum := some (← freshMember name m.edgeNum byte) }
  | _ => refuse (.unknownField name edgeNames)

/-- The settings that the members make, the others being at their defaults. -/
def settings (m : EdgeMembers) : Reader EdgeSettings := do
  let threshold ← required "threshold" m.threshold
  return { threshold
           kind := m.kind.getD default
           settlingTime := m.settlingTime.getD 0
           edgeNum := m.edgeNum.getD 1 }

/-- The members as the elements of an array. -/
def ofArray : Reader EdgeMembers := do
  let threshold ← firstElement Description.threshold
  if threshold.isNone then
    refuse (.tooShort 0 "struct EdgeCounterSettings with 4 elements")
  let kind ← nextElement (edgeKind badName)
  let settlingTime ← nextElement byte
  let edgeNum ← nextElement byte
  punctuation .closeBracket
  return { threshold, kind, settlingTime, edgeNum }

end EdgeMembers

def edgeSettings : Reader EdgeSettings
  | .openBracket :: tokens => (EdgeMembers.ofArray badName >>= EdgeMembers.settings) tokens
  | .openBrace :: tokens =>
    (members (EdgeMembers.member badName) {} >>= EdgeMembers.settings) tokens
  | tokens => wrongType "struct EdgeCounterSettings" tokens

/-- An edge trigger, or `null` for none. -/
def optionalEdge : Reader (Option EdgeSettings)
  | .null :: tokens => .ok (none, tokens)
  | tokens => (some <$> edgeSettings badName) tokens

/-! ### Session -/

/-- The members of a session that have been read. -/
structure SessionMembers where
  aggregation : Option Aggregation := none
  absoluteValue : Option Bool := none
  foldPolicy : Option FoldPolicy := none
  edge : Option (Option EdgeSettings) := none

def sessionNames : List String :=
  ["aggregation", "absolute-value", "fold-policy", "edge-trigger"]

namespace SessionMembers

def member (m : SessionMembers) (name : String) : Reader SessionMembers :=
  match name with
  | "aggregation" =>
    return { m with
      aggregation := some (← freshMember name m.aggregation (Description.aggregation badName)) }
  | "absolute-value" =>
    return { m with absoluteValue := some (← freshMember name m.absoluteValue bool) }
  | "fold-policy" =>
    return { m with
      foldPolicy := some (← freshMember name m.foldPolicy (Description.foldPolicy badName)) }
  | "edge-trigger" =>
    return { m with edge := some (← freshMember name m.edge (optionalEdge badName)) }
  | _ => refuse (.unknownField name sessionNames)

/-- The configuration that the members make, the others being at their defaults. -/
def config (m : SessionMembers) : Reader SessionConfig := do
  let aggregation ← required "aggregation" m.aggregation
  return { aggregation
           absoluteValue := m.absoluteValue.getD false
           foldPolicy := m.foldPolicy.getD default
           edge := m.edge.getD none }

/-- The members as the elements of an array. -/
def ofArray : Reader SessionMembers := do
  let aggregation ← firstElement (Description.aggregation badName)
  if aggregation.isNone then
    refuse (.tooShort 0 "struct SessionConfig with 4 elements")
  let absoluteValue ← nextElement bool
  let foldPolicy ← nextElement (Description.foldPolicy badName)
  let edge ← nextElement (optionalEdge badName)
  punctuation .closeBracket
  return { aggregation, absoluteValue, foldPolicy, edge }

end SessionMembers

def session : Reader SessionConfig
  | .openBracket :: tokens => (SessionMembers.ofArray badName >>= SessionMembers.config) tokens
  | .openBrace :: tokens =>
    (members (SessionMembers.member badName) {} >>= SessionMembers.config) tokens
  | tokens => wrongType "struct SessionConfig" tokens

/-- The configuration that a text describes. -/
def ofText (text : String) : Except Fault SessionConfig :=
  readAll (session badName) text

def faultMessage (fault : Fault) : String :=
  "Malformed session description: " ++ fault.message

end DigitiserSums.Description
