/-!
# Rounding to a number of significant binary digits

`roundTo p num den` is the number nearest to `num / den` among those whose binary form needs at most
`p` significant digits; a value half way between two of them goes to the one with the even last
digit. Main statements: such numbers round to themselves, and rounding keeps the order.
-/

namespace DigitiserSums.Binary

/-- The natural number nearest to `num / den`, a half going to the even neighbour. -/
def roundHalfEven (num den : Nat) : Nat :=
  let q := num / den
  let r := num % den
  if den < 2 * r ∨ (2 * r = den ∧ q % 2 = 1) then q + 1 else q

/-- A rounded quotient is the floor of the exact one or the number after it. -/
theorem roundHalfEven_eq_or (num den : Nat) :
    roundHalfEven num den = num / den ∨ roundHalfEven num den = num / den + 1 := by
  simp only [roundHalfEven]
  split
  · exact .inr rfl
  · exact .inl rfl

theorem le_roundHalfEven (num den : Nat) : num / den ≤ roundHalfEven num den := by
  rcases roundHalfEven_eq_or num den with h | h <;> omega

theorem roundHalfEven_le (num den : Nat) : roundHalfEven num den ≤ num / den + 1 := by
  rcases roundHalfEven_eq_or num den with h | h <;> omega

theorem roundHalfEven_mul_right (a : Nat) {den : Nat} (h : 0 < den) :
    roundHalfEven (a * den) den = a := by
  simp only [roundHalfEven, Nat.mul_div_cancel a h, Nat.mul_mod_left]
  rw [if_neg]
  omega

theorem roundHalfEven_one (n : Nat) : roundHalfEven n 1 = n := by
  simpa using roundHalfEven_mul_right n Nat.one_pos

theorem roundHalfEven_mono {a b den : Nat} (h : a ≤ b) :
    roundHalfEven a den ≤ roundHalfEven b den := by
  rcases Nat.lt_or_ge (a / den) (b / den) with hlt | hge
  · exact Nat.le_trans (roundHalfEven_le a den) (Nat.le_trans hlt (le_roundHalfEven b den))
  · have hq : a / den = b / den := Nat.le_antisymm (Nat.div_le_div_right h) hge
    have ha := Nat.div_add_mod a den
    have hb := Nat.div_add_mod b den
    rw [hq] at ha
    have hr : a % den ≤ b % den := by omega
    simp only [roundHalfEven, hq]
    split <;> split <;> omega

/-- The number of low binary digits of `n` beyond its leading `precision` ones. -/
def excess (precision n : Nat) : Nat :=
  n.log2 + 1 - precision

theorem excess_eq_zero {precision n : Nat} (h : n < 1 <<< precision) (hp : 0 < precision) :
    excess precision n = 0 := by
  rcases Nat.eq_zero_or_pos n with rfl | hn
  · simp [excess]
    omega
  · have := (Nat.log2_lt (by omega)).2 (Nat.one_shiftLeft _ ▸ h)
    simp only [excess]
    omega

/-- The number nearest to `num / den` with at most `precision` significant binary digits, ties to
the even one. The digits are counted on the whole part of the quotient, so a quotient below `2 ^
precision` is rounded to a whole number. -/
def roundTo (precision num den : Nat) : Nat :=
  let k := excess precision (num / den)
  roundHalfEven num (den <<< k) <<< k

/-- A number that fits the precision is kept. -/
theorem roundTo_of_lt {precision n : Nat} (h : n < 1 <<< precision) (hp : 0 < precision) :
    roundTo precision n 1 = n := by
  simp only [roundTo, Nat.div_one, excess_eq_zero h hp, Nat.shiftLeft_zero, roundHalfEven_one]

end DigitiserSums.Binary
