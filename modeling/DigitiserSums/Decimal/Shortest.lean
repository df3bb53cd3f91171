import DigitiserSums.Binary.Double
import DigitiserSums.Decimal.Scientific

/-!
# The shortest decimal text of a 64-bit number

Of all decimals that round to the number, those with the fewest digits are the shortest, and the one
of them nearest to the number is written. Digits are tried on finer and finer decimal grids: on each
only the two neighbours of the number can be nearest.
-/

namespace DigitiserSums.Decimal

open Binary

namespace Scientific

/-- The two multiples of `10 ^ j` next to a magnitude, the nearer first and of two equally near ones
the even one. -/
def neighbours (steps : Nat) (j : Int) : List Scientific :=
  let num := if 0 ≤ j then steps else steps * Nat.pow 10 (-j).toNat
  let den := if 0 ≤ j then Nat.pow 10 j.toNat * Format.double.unit else Format.double.unit
  let low := num / den
  if roundHalfEven num den = low then [⟨low, j⟩, ⟨low + 1, j⟩] else [⟨low + 1, j⟩, ⟨low, j⟩]

/-- The place of the leading digit: the magnitude is below ten to this power and not below a tenth
of that. A magnitude other than zero is above `10 ^ -340`, so the digits of its whole multiples of
that power tell. -/
def leadingPlace (steps : Nat) : Int :=
  (Nat.toDigits 10 (steps * Nat.pow 10 340 / Format.double.unit)).length - 340

/-- The shortest decimal that rounds to a magnitude other than zero. Seventeen digits always
suffice. -/
def shortest (steps : Nat) : Scientific :=
  let place := leadingPlace steps
  let found := (List.range 17).findSome? fun (n : Nat) =>
    (neighbours steps (place - (n + 1 : Nat))).find? fun d => d.toSteps .double = some steps
  match found with
  | none => ⟨0, 0⟩
  | some d => if d.significand % 10 = 0 then ⟨d.significand / 10, d.exponent + 1⟩ else d

/-- Written with a decimal point and at least one digit on either side of it. -/
def positional (d : Scientific) : List Char :=
  let point := d.place
  if point ≤ 0 then '0' :: '.' :: (List.replicate (-point).toNat '0' ++ d.digits)
  else if 0 ≤ d.exponent then d.digits ++ List.replicate d.exponent.toNat '0' ++ ['.', '0']
  else d.digits.take point.toNat ++ '.' :: d.digits.drop point.toNat

/-- Written with one digit before the point and a signed power of ten. -/
def exponential (d : Scientific) : List Char :=
  let power := d.place - 1
  let tail := d.digits.drop 1
  d.digits.take 1 ++ (if tail.isEmpty then [] else '.' :: tail) ++
    'e' :: (if power < 0 then '-' else '+') :: Nat.toDigits 10 power.natAbs

/-- The positional form serves from `10 ^ -5` to below `10 ^ 16`, the exponential form elsewhere. -/
def text (d : Scientific) : List Char :=
  let point := d.place
  if -5 < point ∧ point ≤ 16 then d.positional else d.exponential

end Scientific

/-- The shortest decimal text that reads back as the number. -/
def shortestText (x : Double) : String :=
  let unsigned :=
    if x.magnitude = 0 then ['0', '.', '0'] else (Scientific.shortest x.magnitude).text
  .ofList (if x.isNegative then '-' :: unsigned else unsigned)

end DigitiserSums.Decimal
