import DigitiserSums.Decimal.Natural
import Mathlib

/-!
# Numerals

Reading a number below a limit stops at the first character that takes it to the limit. What it
reads is nevertheless the plain value of all the digits: a number that has reached the limit never
falls below it again, so nothing depends on where the reading stops.
-/

namespace DigitiserSums.Decimal

/-- The text behind a plus sign, or all of it if there is none. -/
def afterPlus : List Char → List Char
  | '+' :: cs => cs
  | cs => cs

/-- The number that digits stand for, one digit at least, perhaps behind a plus sign. -/
def numeral? (cs : List Char) : Option Nat :=
  if afterPlus cs = [] then none else ((afterPlus cs).mapM digit?).map value

/-- The number `n` with more digits behind its own. -/
def extend (n : Nat) (digits : List Digit) : Nat :=
  digits.foldl (fun n d => 10 * n + d.val) n

theorem le_extend (n : Nat) (digits : List Digit) : n ≤ extend n digits := by
  induction digits generalizing n with
  | nil => exact Nat.le_refl n
  | cons d digits ih =>
      have h := ih (10 * n + d.val)
      change n ≤ extend (10 * n + d.val) digits
      omega

theorem digitsBelow_eq_ok_iff {limit n m : Nat} {cs : List Char} (hn : n < limit) :
    digitsBelow limit n cs = .ok m ↔
      ∃ digits, cs.mapM digit? = some digits ∧ extend n digits = m ∧ m < limit := by
  induction cs generalizing n with
  | nil =>
      constructor
      · intro h
        cases h
        exact ⟨[], rfl, rfl, hn⟩
      · intro hr
        obtain ⟨digits, hdigits, hm, -⟩ := hr
        cases hdigits
        rw [← hm]
        rfl
  | cons c cs ih =>
      cases hc : digit? c with
      | none => simp [digitsBelow, hc]
      | some d =>
          have hread : (c :: cs).mapM digit? = (cs.mapM digit?).map (d :: ·) := by
            rw [List.mapM_cons, hc]
            cases cs.mapM digit? <;> rfl
          rw [hread]
          simp only [digitsBelow, hc]
          by_cases hlt : 10 * n + d.val < limit
          · rw [if_pos hlt, ih hlt]
            constructor
            · intro hr
              obtain ⟨digits, hdigits, hm⟩ := hr
              exact ⟨d :: digits, by rw [hdigits]; rfl, hm⟩
            · intro hr
              obtain ⟨digits, hdigits, hm⟩ := hr
              obtain ⟨tail, htail, rfl⟩ := Option.map_eq_some_iff.1 hdigits
              exact ⟨tail, htail, hm⟩
          · rw [if_neg hlt]
            constructor
            · intro h
              cases h
            · intro hr
              obtain ⟨digits, hdigits, hm, hlimit⟩ := hr
              obtain ⟨tail, -, rfl⟩ := Option.map_eq_some_iff.1 hdigits
              have hle : 10 * n + d.val ≤ m := hm ▸ le_extend (10 * n + d.val) tail
              omega

theorem naturalBelow_eq_digitsBelow (limit : Nat) {cs : List Char} (h : afterPlus cs ≠ []) :
    naturalBelow limit cs = digitsBelow limit 0 (afterPlus cs) := by
  unfold naturalBelow
  split
  · exact absurd rfl h
  · exact absurd rfl h
  · rfl
  · next hplus =>
      unfold afterPlus
      split
      · exact absurd rfl (hplus _)
      · rfl

theorem toOption_naturalBelow_of_afterPlus_eq_nil (limit : Nat) {cs : List Char}
    (h : afterPlus cs = []) : (naturalBelow limit cs).toOption = none := by
  unfold afterPlus at h
  split at h
  · rw [h]
    rfl
  · rw [h]
    rfl

/-- What is read is the value of the digits, if that lies below the limit. -/
theorem toOption_naturalBelow {limit : Nat} (hlimit : 0 < limit) (cs : List Char) :
    (naturalBelow limit cs).toOption = (numeral? cs).filter (· < limit) := by
  unfold numeral?
  by_cases hnil : afterPlus cs = []
  · rw [if_pos hnil, toOption_naturalBelow_of_afterPlus_eq_nil limit hnil]
    rfl
  · rw [if_neg hnil, naturalBelow_eq_digitsBelow limit hnil]
    have hread {m : Nat} : digitsBelow limit 0 (afterPlus cs) = .ok m ↔ _ :=
      digitsBelow_eq_ok_iff hlimit
    cases hdigits : (afterPlus cs).mapM digit? with
    | none =>
        cases h : digitsBelow limit 0 (afterPlus cs) with
        | error fault => rfl
        | ok m =>
            obtain ⟨digits, hsome, -⟩ := hread.1 h
            rw [hdigits] at hsome
            cases hsome
    | some digits =>
        rw [Option.map_some]
        by_cases hlt : value digits < limit
        · rw [hread.2 ⟨digits, hdigits, rfl, hlt⟩, Option.filter_some_pos (by simpa using hlt)]
          rfl
        · rw [Option.filter_some_neg (by simpa using hlt)]
          cases h : digitsBelow limit 0 (afterPlus cs) with
          | error fault => rfl
          | ok m =>
              obtain ⟨digits', hsome, hm, hm'⟩ := hread.1 h
              rw [hdigits] at hsome
              cases hsome
              rw [← hm] at hm'
              exact absurd hm' hlt

end DigitiserSums.Decimal
