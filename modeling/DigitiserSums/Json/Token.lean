import DigitiserSums.Decimal.Digit

/-!
# Tokens of JSON texts

A text is cut into punctuation, words, numbers and strings. Numbers and strings are kept as written,
since a reader that wants their value is stricter than one that passes over them.
-/

namespace DigitiserSums.Json

open Decimal

inductive Break where
  | ended
  | malformed
deriving DecidableEq, Repr

/-- A number as written. -/
structure Numeral where
  isNegative : Bool
  /-- The digits before the point: a single zero, or no leading zero. -/
  whole : List Digit
  /-- The digits after the point; none if there is no point. -/
  fraction : List Digit
  exponent : Option Int
deriving DecidableEq, Repr

/-- A part of a string as written. -/
inductive StringPart where
  /-- A character, plain or after a backslash. -/
  | char (c : Char)
  /-- A 16-bit unit written in hexadecimal. -/
  | unit (u : UInt16)
deriving DecidableEq, Repr

inductive Token where
  | openBrace
  | closeBrace
  | openBracket
  | closeBracket
  | colon
  | comma
  | null
  | bool (value : Bool)
  | number (numeral : Numeral)
  | string (parts : List StringPart)
  | brokenWord (how : Break)
  | brokenNumber (how : Break)
  /-- The beginning of a string, with its sound parts. -/
  | brokenString (parts : List StringPart) (how : Break)
  /-- A character that starts no token. -/
  | stray
deriving DecidableEq, Repr

end DigitiserSums.Json
