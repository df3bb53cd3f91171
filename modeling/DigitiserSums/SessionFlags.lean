import DigitiserSums.Description
import DigitiserSums.Files

/-!
# Session flags and modes

A session is configured by a mode and by flags. The mode names an aggregator, to which the flags add
the rest, or a file with a session description, and then the file alone decides and flags that were
given are ignored.
-/

namespace DigitiserSums

structure SessionFlags where
  absoluteValue : Bool := false
  foldPolicy : FoldPolicy := default
  /-- The threshold of the edge counter; without one there is no edge counter. -/
  threshold : Option Single := none
  edgeKind : EdgeKind := default
  /-- For how many sums after an edge crossings are ignored. -/
  settlingTime : UInt8 := 0
  edgeNum : UInt8 := 1
deriving DecidableEq, Repr

namespace SessionFlags

/-- What the edge counter looks for, if there is one. -/
def edge (flags : SessionFlags) : Option EdgeSettings :=
  flags.threshold.map fun threshold =>
    { threshold
      kind := flags.edgeKind
      settlingTime := flags.settlingTime
      edgeNum := flags.edgeNum }

/-- The flags by name, and whether they differ from their defaults. -/
def marks (flags : SessionFlags) : List (String × Bool) :=
  [("--absolute-value", flags.absoluteValue),
   ("--fold-policy", flags.foldPolicy ≠ default),
   ("--threshold", flags.threshold.isSome),
   ("--edge-type", flags.edgeKind ≠ default),
   ("--settling-time", flags.settlingTime ≠ 0),
   ("--edge-num", flags.edgeNum ≠ 1)]

def given (flags : SessionFlags) : List String :=
  (flags.marks.filter Prod.snd).map Prod.fst

end SessionFlags

/-- Where the configuration of a session comes from. -/
inductive Mode where
  /-- The aggregator is given here and the rest by flags. -/
  | aggregate (aggregation : Aggregation)
  | fromFile (name : String)
deriving DecidableEq, Repr

inductive SessionFileFault where
  | unreadable (name : String) (fault : FileFault)
  | malformed (fault : Json.Fault)
deriving DecidableEq, Repr

def SessionFileFault.message : SessionFileFault → String
  | unreadable name fault => s!"Cannot read session file {name}: {fault.message}"
  | malformed fault => Description.faultMessage fault

namespace Mode

/-- The configuration that a mode makes with the flags. -/
def config (badName : Json.Reader.BadName) (flags : SessionFlags) (files : Files) :
    Mode → Except SessionFileFault SessionConfig
  | aggregate aggregation =>
    .ok { aggregation
          absoluteValue := flags.absoluteValue
          foldPolicy := flags.foldPolicy
          edge := flags.edge }
  | fromFile name =>
    match files.text name with
    | .error fault => .error (.unreadable name fault)
    | .ok text => (Description.ofText badName text).mapError .malformed

/-- The warning that flags are ignored, where they are. -/
def warning? (flags : SessionFlags) : Mode → Option String
  | aggregate _ => none
  | fromFile name =>
    if flags.given = [] then none
    else some ("Session read from " ++ name ++ ", ignoring " ++ ", ".intercalate flags.given)

/-- A session file alone decides. -/
theorem config_fromFile (badName : Json.Reader.BadName) (flags flags' : SessionFlags)
    (files : Files) (name : String) :
    (fromFile name).config badName flags files = (fromFile name).config badName flags' files :=
  rfl

end Mode

end DigitiserSums
