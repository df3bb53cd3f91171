import DigitiserSums.Decimal.Shortest
import DigitiserSums.Json.Lexer
import DigitiserSums.Json.Number
import DigitiserSums.Json.Text
import DigitiserSums.Text.Quoted

/-!
# Reading values from tokens

A reader takes the tokens of one value, of the kind that it wants, off the front of a list. It looks
at them one by one, and the first thing that is wrong decides: the text ended, it is no JSON, or it
is JSON but not what is wanted. Objects hand their members to a function by name.
-/

namespace DigitiserSums.Json

/-- What a reader found in place of what it wanted. -/
inductive Found where
  | null
  | boolean (value : Bool)
  | number (value : Number)
  | string (text : String)
  | sequence
  | map
  /-- The bare name of a variant that has content. -/
  | unitVariant
deriving DecidableEq, Repr

/-- Why a JSON value is not what is wanted. What is wanted is given in words. -/
inductive Mismatch where
  | missingField (name : String)
  | duplicateField (name : String)
  | unknownField (name : String) (known : List String)
  | unknownVariant (name : String) (known : List String)
  | wrongType (found : Found) (wanted : String)
  | outOfRange (value : Int) (wanted : String)
  | tooShort (length : Nat) (wanted : String)
deriving DecidableEq, Repr

inductive Fault where
  | ended
  | malformed
  | refused (mismatch : Mismatch)
deriving DecidableEq, Repr

/-- A broken token stops the reading. -/
def Break.fault : Break → Fault
  | ended => .ended
  | malformed => .malformed

/-! ### In words -/

def Found.text : Found → String
  | null => "null"
  | boolean value => s!"boolean `{value}`"
  | number (.integer n) => s!"integer `{n}`"
  | number (.float x) => s!"floating point `{Decimal.shortestText x}`"
  | string text => "string " ++ .ofList (Text.quoted text.toList)
  | sequence => "sequence"
  | map => "map"
  | unitVariant => "unit variant"

def tick (name : String) : String :=
  s!"`{name}`"

def oneOf : List String → String
  | [a] => tick a
  | [a, b] => s!"{tick a} or {tick b}"
  | names => "one of " ++ ", ".intercalate (names.map tick)

def Mismatch.message : Mismatch → String
  | missingField name => s!"missing field {tick name}"
  | duplicateField name => s!"duplicate field {tick name}"
  | unknownField name known => s!"unknown field {tick name}, expected {oneOf known}"
  | unknownVariant name known => s!"unknown variant {tick name}, expected {oneOf known}"
  | wrongType found wanted => s!"invalid type: {found.text}, expected {wanted}"
  | outOfRange value wanted => s!"invalid value: integer {tick (toString value)}, expected {wanted}"
  | tooShort length wanted => s!"invalid length {length}, expected {wanted}"

def Fault.message : Fault → String
  | ended => "the text ends within the value"
  | malformed => "the text is no JSON value"
  | refused mismatch => mismatch.message

/-! ### Readers -/

/-- Takes a value off the front of the tokens. -/
abbrev Reader (α : Type) := StateT (List Token) (Except Fault) α

namespace Reader

def refuse {α : Type} (mismatch : Mismatch) : Reader α :=
  fun _ => .error (.refused mismatch)

/-- A string with its text, or why it has none. -/
def textOf (parts : List StringPart) : Except Fault String :=
  (decode parts).mapError Break.fault

/-- What stands at the front of the tokens. A scalar has to be sound; a sequence or an object only
has to begin. -/
def found : List Token → Except Fault Found
  | [] => .error .ended
  | .null :: _ => .ok .null
  | .bool value :: _ => .ok (.boolean value)
  | .number numeral :: _ => (numeral.toNumber?.map Found.number).elim (.error .malformed) .ok
  | .string parts :: _ => (textOf parts).map .string
  | .openBracket :: _ => .ok .sequence
  | .openBrace :: _ => .ok .map
  | .brokenWord how :: _ => .error how.fault
  | .brokenNumber how :: _ => .error how.fault
  | .brokenString parts how :: _ => .error (decodeBroken parts how).fault
  | _ => .error .malformed

/-- Stops at a value of another kind than the one wanted. -/
def wrongType {α : Type} (wanted : String) : Reader α := fun tokens =>
  match found tokens with
  | .error fault => .error fault
  | .ok value => .error (.refused (.wrongType value wanted))

def punctuation (token : Token) : Reader Unit
  | [] => .error .ended
  | t :: tokens => if t = token then .ok ((), tokens) else .error .malformed

/-- The name of a member, or of a variant that stands alone. -/
def name : Reader String
  | [] => .error .ended
  | .string parts :: tokens => (textOf parts).map fun text => (text, tokens)
  | .brokenString parts how :: _ => .error (decodeBroken parts how).fault
  | _ => .error .malformed

/-- A string; `wanted` is for values that are none. -/
def string (wanted : String) : Reader String
  | .string parts :: tokens => (textOf parts).map fun text => (text, tokens)
  | tokens => wrongType wanted tokens

def bool : Reader Bool
  | .bool value :: tokens => .ok (value, tokens)
  | tokens => wrongType "a boolean" tokens

def unit : Reader Unit
  | .null :: tokens => .ok ((), tokens)
  | tokens => wrongType "unit" tokens

/-- A number of any kind; `wanted` is for values that are none. -/
def number (wanted : String) : Reader Number
  | .number numeral :: tokens =>
    match numeral.toNumber? with
    | none => .error .malformed
    | some value => .ok (value, tokens)
  | tokens => wrongType wanted tokens

def natural (limit : Nat) (wanted : String) : Reader Nat := do
  match ← number wanted with
  | .integer n =>
    if 0 ≤ n ∧ n < limit then return n.toNat else refuse (.outOfRange n wanted)
  | .float x => refuse (.wrongType (.number (.float x)) wanted)

/-! ### Objects -/

/-- One member of an object: its name and what `member` makes of the rest of it. -/
def oneMember {σ : Type} (member : σ → String → Reader σ) (s : σ) : Reader σ := do
  let name ← name
  member s name

/-- The members after the first. Each takes a token at least, so with no more rounds than tokens the
tokens run out first. -/
def moreMembers {σ : Type} (member : σ → String → Reader σ) : Nat → σ → Reader σ
  | 0, _, _ => .error .ended
  | rounds + 1, s, tokens =>
    match tokens with
    | [] => .error .ended
    | .closeBrace :: tokens => .ok (s, tokens)
    | .comma :: tokens =>
      match oneMember member s tokens with
      | .error fault => .error fault
      | .ok (s, tokens) => moreMembers member rounds s tokens
    | _ => .error .malformed

/-- The members of an object whose brace is open, gathered in order. -/
def members {σ : Type} (member : σ → String → Reader σ) (s : σ) : Reader σ
  | .closeBrace :: tokens => .ok (s, tokens)
  | tokens => do
    let (s, tokens) ← oneMember member s tokens
    moreMembers member (tokens.length + 1) s tokens

/-- The value of a member that must not have occurred before. -/
def freshMember {α : Type} (name : String) (before : Option α) (value : Reader α) : Reader α := do
  if before.isSome then refuse (.duplicateField name)
  punctuation .colon
  value

def required {α : Type} (name : String) : Option α → Reader α
  | none => refuse (.missingField name)
  | some value => pure value

/-! ### Sequences -/

/-- The first element of a sequence whose bracket is open, or `none` at its end. -/
def firstElement {α : Type} (value : Reader α) : Reader (Option α)
  | .closeBracket :: tokens => .ok (none, .closeBracket :: tokens)
  | tokens => (some <$> value) tokens

/-- Another element of a sequence, or `none` at its end. -/
def nextElement {α : Type} (value : Reader α) : Reader (Option α)
  | [] => .error .ended
  | .closeBracket :: tokens => .ok (none, .closeBracket :: tokens)
  | .comma :: tokens => (some <$> value) tokens
  | _ => .error .malformed

/-! ### Variants -/

/-- What a token is taken for that is no string and stands in an object where the name of a variant
is due. Which it is depends on the library that reads descriptions, and nothing here relies on
either. -/
inductive BadName where
  /-- A token out of place, as where the name of a member is due. -/
  | misplaced
  /-- A value of the wrong type. -/
  | mistyped
deriving DecidableEq, Repr

/-- The name of a variant that is the first name in an object. -/
def variantName : BadName → Reader String
  | .misplaced => name
  | .mistyped => string "variant identifier"

/-- A variant by its name, and whether its content follows in the object whose only name has been
read. A name that is not known stops the reading at once. -/
def variant {α : Type} (badName : BadName) (known : List (String × α)) : Reader (α × Bool)
  | .openBrace :: tokens => (variantName badName >>= choose true) tokens
  | tokens => (name >>= choose false) tokens
where
  choose (hasContent : Bool) (text : String) : Reader (α × Bool) :=
    match known.lookup text with
    | some a => return (a, hasContent)
    | none => refuse (.unknownVariant text (known.map Prod.fst))

/-- A variant without content: its name, or an object with `null` under that name. -/
def unitVariant {α : Type} (badName : BadName) (known : List (String × α)) : Reader α := do
  let (a, hasContent) ← variant badName known
  if hasContent then
    punctuation .colon
    unit
    punctuation .closeBrace
  return a

/-! ### Values that are passed over -/

inductive Enclosure where
  | array
  | object
deriving DecidableEq, Repr

/-- What may come next while a value is passed over. -/
inductive Expected where
  | value
  /-- The first element of an array, or its end. -/
  | firstElement
  /-- The first name of an object, or its end. -/
  | firstName
  | name
  | colon
  /-- A comma, or the end of the innermost enclosure. -/
  | separator
deriving DecidableEq, Repr

/-- A value within these enclosures, the innermost first, is over; `none` if it was the whole. -/
def endValue : List Enclosure → Option (Expected × List Enclosure)
  | [] => none
  | enclosures => some (.separator, enclosures)

def skipValueToken (enclosures : List Enclosure) :
    Token → Except Fault (Option (Expected × List Enclosure))
  | .null | .bool _ | .number _ | .string _ => .ok (endValue enclosures)
  | .openBracket => .ok (some (.firstElement, .array :: enclosures))
  | .openBrace => .ok (some (.firstName, .object :: enclosures))
  | .brokenWord how | .brokenString _ how => .error how.fault
  | _ => .error .malformed

def skipNameToken (enclosures : List Enclosure) :
    Token → Except Fault (Option (Expected × List Enclosure))
  | .string _ => .ok (some (.colon, enclosures))
  | .brokenString _ how => .error how.fault
  | _ => .error .malformed

/-- One token of a value that is passed over; `none` when the value is over. A number that the text
breaks off is malformed here, and neither the range of numbers nor the pairing of units matters. -/
def skipToken : Expected × List Enclosure → Token →
    Except Fault (Option (Expected × List Enclosure))
  | (.value, enclosures), token => skipValueToken enclosures token
  | (.firstElement, .array :: enclosures), .closeBracket => .ok (endValue enclosures)
  | (.firstElement, enclosures), token => skipValueToken enclosures token
  | (.firstName, .object :: enclosures), .closeBrace => .ok (endValue enclosures)
  | (.firstName, enclosures), token => skipNameToken enclosures token
  | (.name, enclosures), token => skipNameToken enclosures token
  | (.colon, enclosures), .colon => .ok (some (.value, enclosures))
  | (.separator, .array :: enclosures), .comma => .ok (some (.value, .array :: enclosures))
  | (.separator, .array :: enclosures), .closeBracket => .ok (endValue enclosures)
  | (.separator, .object :: enclosures), .comma => .ok (some (.name, .object :: enclosures))
  | (.separator, .object :: enclosures), .closeBrace => .ok (endValue enclosures)
  | _, _ => .error .malformed

def skipFrom (state : Expected × List Enclosure) : Reader Unit
  | [] => .error .ended
  | token :: tokens =>
    match skipToken state token with
    | .error fault => .error fault
    | .ok none => .ok ((), tokens)
    | .ok (some state) => skipFrom state tokens

/-- Passes over a value of any kind and depth. -/
def skip : Reader Unit :=
  skipFrom (.value, [])

end Reader

/-- Reads a text that holds one value and nothing else. -/
def readAll {α : Type} (reader : Reader α) (text : String) : Except Fault α :=
  match reader (tokens text.toList) with
  | .error fault => .error fault
  | .ok (value, []) => .ok value
  | .ok (_, _ :: _) => .error .malformed

end DigitiserSums.Json
