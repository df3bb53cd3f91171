import DigitiserSums.Binary.Single
import DigitiserSums.Decimal.Digit
import DigitiserSums.Decimal.Scientific

/-!
# Real numbers as text

A real number is written with an optional sign as digits with an optional point, at least one digit
on either side of it, and an optional power of ten; or as one of the words for infinity and
not-a-number, in capital or small letters.
-/

namespace DigitiserSums.Decimal

/-- What a text without its sign stands for. -/
inductive ExtendedReal where
  | infinite
  | nan
  | finite (d : Scientific)
deriving DecidableEq, Repr

def realWords : List (String × ExtendedReal) :=
  [("inf", .infinite), ("infinity", .infinite), ("nan", .nan)]

/-- The power of ten that ends a text; none is written as nothing. -/
def exponent? : List Char → Option Int
  | [] => some 0
  | e :: cs =>
    if e.toLower = 'e' then
      match cs with
      | '+' :: cs => exponentDigits? cs
      | '-' :: cs => (exponentDigits? cs).map (- ·)
      | cs => exponentDigits? cs
    else none
where
  exponentDigits? (cs : List Char) : Option Int :=
    match span cs with
    | (d :: digits, []) => some (value (d :: digits))
    | _ => none

def fractionDigits : List Char → List Digit × List Char
  | '.' :: cs => span cs
  | cs => ([], cs)

def decimal? (cs : List Char) : Option Scientific :=
  let (whole, afterWhole) := span cs
  let (fraction, rest) := fractionDigits afterWhole
  if whole = [] ∧ fraction = [] then none
  else (exponent? rest).map fun power => ⟨value (whole ++ fraction), power - fraction.length⟩

def real? (cs : List Char) : Option ExtendedReal :=
  match realWords.lookup (.ofList (cs.map Char.toLower)) with
  | some word => some word
  | none => (decimal? cs).map .finite

end DigitiserSums.Decimal

namespace DigitiserSums.Single

open Decimal

/-- The number of the 32-bit format nearest to a real one. -/
def ofReal (isNegative : Bool) : ExtendedReal → Single
  | .nan => nan
  | .infinite => ofMagnitude isNegative none
  | .finite d => ofMagnitude isNegative (d.toSteps .single)

/-- The number of the 32-bit format nearest to the real number that a text stands for. -/
def ofText? : List Char → Option Single
  | '-' :: cs => (real? cs).map (ofReal true)
  | '+' :: cs => (real? cs).map (ofReal false)
  | cs => (real? cs).map (ofReal false)

end DigitiserSums.Single
