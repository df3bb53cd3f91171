import DigitiserSums.Decimal.Digit

/-!
# Natural numbers below a limit

A number is an optional `+` and one or more digits, with any number of leading zeros. The digits are
read from left to right, and the first that is none, or that takes the number to the limit, ends the
reading.
-/

namespace DigitiserSums.Decimal

/-- Why a text is no number below the limit. -/
inductive NaturalFault where
  | empty
  /-- A character is no digit, or a sign has no digit after it. -/
  | invalidDigit
  | tooLarge
deriving DecidableEq, Repr

def NaturalFault.message : NaturalFault → String
  | empty => "cannot parse integer from empty string"
  | invalidDigit => "invalid digit found in string"
  | tooLarge => "number too large to fit in target type"

/-- Reads the digits that follow those of `n`. -/
def digitsBelow (limit n : Nat) : List Char → Except NaturalFault Nat
  | [] => .ok n
  | c :: cs =>
    match digit? c with
    | none => .error .invalidDigit
    | some d =>
      if 10 * n + d < limit then digitsBelow limit (10 * n + d) cs else .error .tooLarge

def naturalBelow (limit : Nat) : List Char → Except NaturalFault Nat
  | [] => .error .empty
  | ['+'] => .error .invalidDigit
  | '+' :: cs => digitsBelow limit 0 cs
  | cs => digitsBelow limit 0 cs

end DigitiserSums.Decimal
