/-!
# Decimal digits

Digits are read from the characters `0` to `9` alone; digits of other scripts are no digits here.
-/

namespace DigitiserSums.Decimal

abbrev Digit := Fin 10

def digit? (c : Char) : Option Digit :=
  if h : 48 ≤ c.toNat ∧ c.toNat < 58 then some ⟨c.toNat - 48, by omega⟩ else none

/-- The number that digits stand for, the highest first. -/
def value (digits : List Digit) : Nat :=
  digits.foldl (fun n d => 10 * n + d.val) 0

/-- The digits at the front of a text, and what follows them. -/
def span : List Char → List Digit × List Char
  | [] => ([], [])
  | c :: cs =>
    match digit? c with
    | none => ([], c :: cs)
    | some d =>
      let (digits, rest) := span cs
      (d :: digits, rest)

/-- Nothing is lost: each character is a digit taken or remains. -/
theorem length_span (cs : List Char) : (span cs).1.length + (span cs).2.length = cs.length := by
  induction cs with
  | nil => rfl
  | cons c cs ih =>
    simp only [span]
    split
    · simp
    · simp only [List.length_cons]
      omega

/-- What remains does not start with a digit. -/
theorem digit?_head_span (cs : List Char) : ∀ c ∈ (span cs).2.head?, digit? c = none := by
  induction cs with
  | nil => simp [span]
  | cons c cs ih =>
    simp only [span]
    split
    · simp [*]
    · exact ih

end DigitiserSums.Decimal
