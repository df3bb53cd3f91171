import DigitiserSums.CommandLine
import DigitiserSums.OutputBuffer
import DigitiserSums.SampleLine
import DigitiserSums.Text.Encoding
import DigitiserSums.Text.Line

/-!
# The program

The program reads its command line, starts a session and hands it the lines of its input one by one;
each sum is written as a line of output. Everything that can be wrong is looked at in this order,
and the first fault ends the program. When a line is no text, the output that still waits in the
buffer is lost; `feed_encode` says that otherwise nothing is.

What only libraries know is a parameter of a run. What is written to the log, the metrics that are
served, and an interruption from outside are no part of it.
-/

namespace DigitiserSums

inductive Failure where
  | usage (fault : UsageFault)
  | logFilter (text : String)
  /-- Metrics cannot be served, in the words of the library. -/
  | metrics (text : String)
  | sessionFile (fault : SessionFileFault)
  | configuration (error : ConfigurationError)
  | input (fault : FileFault)
deriving DecidableEq, Repr

namespace Failure

def message : Failure → String
  | usage fault => fault.message
  | logFilter text => "Invalid log filter: " ++ text
  | metrics text => text
  | sessionFile fault => fault.message
  | configuration error => error.message
  | input fault => fault.message

/-- What the program ends with. -/
def exitCode : Failure → UInt32
  | usage _ => 2
  | _ => 1

end Failure

structure Outcome where
  output : String
  failure : Option Failure
deriving DecidableEq, Repr

def Outcome.exitCode (outcome : Outcome) : UInt32 :=
  outcome.failure.elim 0 Failure.exitCode

namespace Program

/-- What is up to the libraries of the program. -/
structure Libraries where
  /-- Whether a text is a filter for the log. -/
  isLogFilter : String → Bool
  /-- Serves metrics at an address, or says why it cannot. -/
  serve : SocketAddress → Except String Unit
  /-- What a bad name of a variant in a session file is taken for. -/
  badName : Json.Reader.BadName

/-- Sets up the log, and serves metrics if they are asked for. -/
def setUp (libraries : Libraries) (line : CommandLine) : Except Failure Unit :=
  if libraries.isLogFilter line.logFilter then
    line.address.elim (.ok ()) fun address => (libraries.serve address).mapError .metrics
  else .error (.logFilter line.logFilter)

/-- The session of a command line, at its start. -/
def startSession (libraries : Libraries) (files : Files) (line : CommandLine) :
    Except Failure Session := do
  setUp libraries line
  let config ← (line.mode.config libraries.badName line.flags files).mapError .sessionFile
  (Session.ofConfig config).mapError .configuration

/-- The bytes that the samples are read from. -/
def inputBytes (files : Files) (standardInput : List UInt8) (line : CommandLine) :
    Except Failure (List UInt8) :=
  match line.input with
  | none => .ok standardInput
  | some name => (files name).mapError .input

/-- Hands lines to a session. A line that is no text ends the program at once. -/
def feed (s : Session) (out : OutputBuffer) : List (List UInt8) → Outcome
  | [] => ⟨out.flush.written, none⟩
  | line :: lines =>
    match Text.decode? line with
    | none => ⟨out.written, some (.input .notText)⟩
    | some text =>
      let (outcome, s) := s.handleLine text
      feed s (outcome.output?.elim out out.push) lines

/-- Lines of text are all handled, and what they give is written in order. -/
theorem feed_encode (s : Session) (out : OutputBuffer) (texts : List String) :
    feed s out (texts.map Text.encode) =
      ⟨out.text ++ String.join ((scan Session.handleLine s texts).1.filterMap LineOutcome.output?),
        none⟩ := by
  induction texts generalizing s out with
  | nil => simp [feed, OutputBuffer.written_flush]
  | cons text texts ih =>
    simp only [List.map_cons, feed, Text.decode?_encode, ih, scan_cons, List.filterMap_cons]
    cases (s.handleLine text).1.output? <;> simp [String.append_assoc]

/-- Runs the program on the words behind its name. -/
def run (libraries : Libraries) (environment : String → Option String) (files : Files)
    (standardInput : List UInt8) (words : List String) : Outcome :=
  let started : Except Failure (Session × List UInt8) := do
    let line ← (CommandLine.parse environment words).mapError .usage
    let session ← startSession libraries files line
    let bytes ← inputBytes files standardInput line
    return (session, bytes)
  match started with
  | .error failure => ⟨"", some failure⟩
  | .ok (session, bytes) => feed session {} (Text.lines bytes)

end Program

end DigitiserSums
