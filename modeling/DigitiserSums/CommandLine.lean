import DigitiserSums.Choice
import DigitiserSums.Decimal.Natural
import DigitiserSums.Decimal.ExtendedReal
import DigitiserSums.SessionFlags
import DigitiserSums.SocketAddress

/-!
# Command lines

A command line is a list of options, a command, and the options of that command. An option is a word
that starts with two dashes; its value is the rest of the word behind an equals sign, or else the
next word, which then may not look like an option. Options are given once at most, and some may be
set in the environment.
-/

namespace DigitiserSums

/-- Why a command line cannot be used. -/
inductive UsageFault where
  | unexpected (word : String)
  | missingValue (option : String)
  | unwantedValue (option : String)
  | repeated (option : String)
  | badValue (option value : String)
  | missingOption (option : String)
  | missingCommand
deriving DecidableEq, Repr

def UsageFault.message : UsageFault → String
  | unexpected word => s!"unexpected argument '{word}' found"
  | missingValue option => s!"a value is required for '{option}' but none was supplied"
  | unwantedValue option => s!"unexpected value for '{option}' found; no more were expected"
  | repeated option => s!"the argument '{option}' cannot be used multiple times"
  | badValue option value => s!"invalid value '{value}' for '{option}'"
  | missingOption option => s!"the required argument '{option}' was not provided"
  | missingCommand => "a command is required but none was given"

namespace CommandLine

/-! ### Options -/

/-- An option as it was given. -/
structure Given where
  /-- The name of the option, with its dashes. -/
  name : String
  value : Option String
deriving DecidableEq, Repr

/-- The options that may be given in one place. -/
structure Known where
  valued : List String
  bare : List String

/-- A word of the form `--name=value` in its two parts; the second is missing without an equals
sign. -/
def splitWord (word : String) : String × Option String :=
  match word.toList.dropWhile (· ≠ '=') with
  | [] => (word, none)
  | _ :: value => (.ofList (word.toList.takeWhile (· ≠ '=')), some (.ofList value))

/-- Whether a word looks like an option. A single dash does not. -/
def looksLikeOption (word : String) : Bool :=
  word.startsWith "-" && word != "-"

/-- Takes options off the front of the words, up to the first that does not look like one. -/
def options (known : Known) : List String → Except UsageFault (List Given × List String)
  | [] => .ok ([], [])
  | word :: words =>
    if !looksLikeOption word then .ok ([], word :: words)
    else
      let (name, value) := splitWord word
      if known.bare.contains name then
        if value.isSome then .error (.unwantedValue name)
        else prepend ⟨name, none⟩ (options known words)
      else if known.valued.contains name then
        match value, words with
        | some value, words => prepend ⟨name, some value⟩ (options known words)
        | none, [] => .error (.missingValue name)
        | none, value :: words =>
          if looksLikeOption value then .error (.missingValue name)
          else prepend ⟨name, some value⟩ (options known words)
      else .error (.unexpected word)
where
  prepend (given : Given) (rest : Except UsageFault (List Given × List String)) :
      Except UsageFault (List Given × List String) :=
    rest.map fun (givens, words) => (given :: givens, words)

def checkRepeats : List Given → Except UsageFault Unit
  | [] => .ok ()
  | given :: givens =>
    if givens.any (·.name == given.name) then .error (.repeated given.name) else checkRepeats givens

def value? (givens : List Given) (name : String) : Option String :=
  (givens.find? (·.name == name)).bind Given.value

def isGiven (givens : List Given) (name : String) : Bool :=
  givens.any (·.name == name)

/-- What the value of an option stands for, if there is one. -/
def readValue? {α : Type} (name : String) (parse : String → Option α) :
    Option String → Except UsageFault (Option α)
  | none => .ok none
  | some text => (parse text).elim (.error (.badValue name text)) fun a => .ok (some a)

def read? {α : Type} (givens : List Given) (name : String) (parse : String → Option α) :
    Except UsageFault (Option α) :=
  readValue? name parse (value? givens name)

def readRequired {α : Type} (givens : List Given) (name : String) (parse : String → Option α) :
    Except UsageFault α := do
  match ← read? givens name parse with
  | none => .error (.missingOption name)
  | some a => .ok a

/-! ### Values -/

def size? (text : String) : Option Nat :=
  (Decimal.naturalBelow UInt64.size text.toList).toOption

/-- A number of eight bits. A minus may stand before zero. -/
def byte? (text : String) : Option UInt8 :=
  match text.toList with
  | '-' :: c :: cs => (Decimal.digitsBelow 1 0 (c :: cs)).toOption.map .ofNat
  | cs => (Decimal.naturalBelow UInt8.size cs).toOption.map .ofNat

/-- The name of a file, which is not empty. -/
def path? (text : String) : Option String :=
  if text.isEmpty then none else some text

def foldPolicy? (text : String) : Option FoldPolicy :=
  (choose FoldPolicy.all FoldPolicy.name false text).toOption

def edgeKind? (text : String) : Option EdgeKind :=
  (choose EdgeKind.all EdgeKind.name false text).toOption

/-! ### Commands -/

def sessionOptions : Known where
  valued := ["--input", "--fold-policy", "--threshold", "--edge-type", "--settling-time",
    "--edge-num", "--log-filter", "--observability-address"]
  bare := ["--absolute-value"]

def sessionFlags (givens : List Given) : Except UsageFault SessionFlags := do
  let foldPolicy ← read? givens "--fold-policy" foldPolicy?
  let threshold ← read? givens "--threshold" fun text => Single.ofText? text.toList
  let edgeKind ← read? givens "--edge-type" edgeKind?
  let settlingTime ← read? givens "--settling-time" byte?
  let edgeNum ← read? givens "--edge-num" byte?
  return {
    absoluteValue := isGiven givens "--absolute-value"
    foldPolicy := foldPolicy.getD default
    threshold
    edgeKind := edgeKind.getD default
    settlingTime := settlingTime.getD 0
    edgeNum := edgeNum.getD 1 }

/-- A command: its only option and the mode that it selects. -/
structure Command where
  option : String
  mode? : String → Option Mode

def commands : List (String × Command) :=
  [("downsample", ⟨"--downsample-num", fun text => (size? text).map (.aggregate ∘ .downsample)⟩),
   ("moving-sum", ⟨"--window-width", fun text => (size? text).map (.aggregate ∘ .movingSum)⟩),
   ("from-config", ⟨"--path", fun text => (path? text).map .fromFile⟩)]

/-- The mode that a command with its words selects. Two dashes may end the words. -/
def Command.mode (command : Command) (words : List String) : Except UsageFault Mode := do
  let words := if words.getLast? = some "--" then words.dropLast else words
  let (givens, rest) ← options { valued := [command.option], bare := [] } words
  checkRepeats givens
  match rest with
  | word :: _ => .error (.unexpected word)
  | [] => readRequired givens command.option command.mode?

end CommandLine

structure CommandLine where
  /-- The file with the samples, if they are not in the standard input. -/
  input : Option String
  flags : SessionFlags
  logFilter : String
  /-- Where metrics are to be served, if at all. -/
  address : Option SocketAddress
  /-- Where the configuration of the session comes from. -/
  mode : Mode
deriving DecidableEq, Repr

namespace CommandLine

def logFilterVariable : String := "RUST_LOG"

def addressVariable : String := "OBSERVABILITY_ADDRESS"

/-- The value of an option that may be set in the environment instead. -/
def valueOr? (givens : List Given) (environment : String → Option String)
    (name inEnvironment : String) : Option String :=
  (value? givens name).or (environment inEnvironment)

/-- Reads the words behind the name of the program. -/
def parse (environment : String → Option String) (words : List String) :
    Except UsageFault CommandLine := do
  let (givens, rest) ← options sessionOptions words
  checkRepeats givens
  let input ← read? givens "--input" path?
  let flags ← sessionFlags givens
  let logFilter := (valueOr? givens environment "--log-filter" logFilterVariable).getD "info"
  let address ← readValue? "--observability-address" SocketAddress.ofText?
    (valueOr? givens environment "--observability-address" addressVariable)
  match rest with
  | [] => .error .missingCommand
  | word :: words =>
    match commands.lookup word with
    | none => .error (.unexpected word)
    | some command => return { input, flags, logFilter, address, mode := ← command.mode words }

end CommandLine

end DigitiserSums
