import DigitiserSums.Decimal.Natural
import DigitiserSums.Session
import DigitiserSums.Text.Blank
import DigitiserSums.Text.Quoted

/-!
# Lines of samples and of sums

A line of input holds one sample between blanks; a blank line holds none. A line of output holds a
sum and, if it completed a trigger, a mark. A line that holds no sample of the range leaves the
session as it was.
-/

namespace DigitiserSums

/-- Why a line holds no sample that a session takes. -/
inductive LineFault where
  /-- The text without its blanks is no 16-bit number. -/
  | unreadable (text : List Char) (fault : Decimal.NaturalFault)
  | outOfRange (refusal : SampleOutOfRange)
deriving DecidableEq, Repr

/-- The fault in words. A text that cannot be read is shown in quotes. -/
def LineFault.message : LineFault → String
  | unreadable text fault =>
    "Cannot parse sample " ++ .ofList (Text.quoted text) ++ ": " ++ fault.message
  | outOfRange refusal => refusal.message

/-- The sample that a text without blanks stands for. -/
def sampleOfText (text : List Char) : Except Decimal.NaturalFault Sample :=
  (Decimal.naturalBelow UInt16.size text).map .ofNat

def Emission.line (e : Emission) : String :=
  .ofList (Nat.toDigits 10 e.sum.toNat) ++ if e.trigger.isSome then ",trigger\n" else "\n"

namespace Session

def processLine (s : Session) (line : String) : Except LineFault (Option Emission × Session) :=
  let text := Text.trim line.toList
  match sampleOfText text with
  | .error fault => .error (.unreadable text fault)
  | .ok x => (s.push x).mapError .outOfRange

end Session

inductive LineOutcome where
  | blank
  /-- Its sample was taken and perhaps completed a sum. -/
  | taken (emission : Option Emission)
  | failed (fault : LineFault)
deriving DecidableEq, Repr

namespace LineOutcome

def output? : LineOutcome → Option String
  | taken emission => emission.map Emission.line
  | _ => none

def warning? : LineOutcome → Option String
  | failed fault => some fault.message
  | _ => none

end LineOutcome

/-- Handles a line: one that fails is skipped and the session goes on. -/
def Session.handleLine (s : Session) (line : String) : LineOutcome × Session :=
  if Text.trim line.toList = [] then (.blank, s)
  else match s.processLine line with
    | .error fault => (.failed fault, s)
    | .ok (emission, s) => (.taken emission, s)

/-- How many samples, sums, triggers and failures of either kind there have been. -/
structure Tally where
  samplesReceived : Nat := 0
  sumsEmitted : Nat := 0
  triggers : Nat := 0
  unreadable : Nat := 0
  outOfRange : Nat := 0
deriving DecidableEq, Repr

namespace Tally

def count (t : Tally) : LineOutcome → Tally
  | .blank => t
  | .taken none => { t with samplesReceived := t.samplesReceived + 1 }
  | .taken (some emission) =>
    { t with
      samplesReceived := t.samplesReceived + 1
      sumsEmitted := t.sumsEmitted + 1
      triggers := t.triggers + if emission.trigger.isSome then 1 else 0 }
  | .failed (.unreadable _ _) => { t with unreadable := t.unreadable + 1 }
  | .failed (.outOfRange _) => { t with outOfRange := t.outOfRange + 1 }

/-- A counter of a tally: the name of its metric, the kind of failure where the metric has kinds,
and the count. -/
structure Counter where
  metric : String
  /-- The kind of failure. -/
  kind : Option String := none
  count : Nat

def counters (t : Tally) : List Counter :=
  [{ metric := "adcsum_samples_received", count := t.samplesReceived },
   { metric := "adcsum_sums_emitted", count := t.sumsEmitted },
   { metric := "adcsum_triggers", count := t.triggers },
   { metric := "adcsum_failures", kind := some "unable_to_parse_sample", count := t.unreadable },
   { metric := "adcsum_failures", kind := some "sample_out_of_range", count := t.outOfRange }]

/-- Every line that is not blank is counted as one sample or as one failure. -/
theorem count_total (t : Tally) (outcome : LineOutcome) :
    (t.count outcome).samplesReceived + (t.count outcome).unreadable +
        (t.count outcome).outOfRange =
      t.samplesReceived + t.unreadable + t.outOfRange + if outcome = .blank then 0 else 1 := by
  rcases outcome with _ | (_ | emission) | (_ | _) <;> simp [count] <;> omega

end Tally

end DigitiserSums
