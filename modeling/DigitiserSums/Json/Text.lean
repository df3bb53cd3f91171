import DigitiserSums.Json.Token

/-!
# The text of a JSON string

Units written in hexadecimal are 16-bit code units: those of a pair make one character, and a half
of a pair that stands alone makes none.
-/

namespace DigitiserSums.Json

/-- The first half of a pair. -/
def isLeading (u : UInt16) : Bool :=
  0xD800 ≤ u && u < 0xDC00

/-- The second half of a pair. -/
def isTrailing (u : UInt16) : Bool :=
  0xDC00 ≤ u && u < 0xE000

/-- The character of a pair. -/
def pairChar (u v : UInt16) : Char :=
  .ofNat (0x10000 + (u.toNat - 0xD800) * 0x400 + (v.toNat - 0xDC00))

/-- The text of the parts of a string, read from left to right. `how` says how a string broke after
these parts, and is `none` for a closed one; a fault among the parts comes first. -/
def decodeParts (how : Option Break) : List StringPart → Except Break (List Char)
  | [] => how.elim (.ok []) .error
  | .char c :: parts => (decodeParts how parts).map (c :: ·)
  | .unit u :: parts =>
    if isLeading u then
      match parts with
      | [] => .error (how.getD .malformed)
      | .char _ :: _ => .error .malformed
      | .unit v :: parts =>
        if isTrailing v then (decodeParts how parts).map (pairChar u v :: ·) else .error .malformed
    else if isTrailing u then .error .malformed
    else (decodeParts how parts).map (.ofNat u.toNat :: ·)

/-- The text of a closed string. -/
def decode (parts : List StringPart) : Except Break String :=
  (decodeParts none parts).map .ofList

/-- Why a broken string has no text. -/
def decodeBroken (parts : List StringPart) (how : Break) : Break :=
  match decodeParts (some how) parts with
  | .error how => how
  | .ok _ => how

end DigitiserSums.Json
