import DigitiserSums.Json.Lexer
import DigitiserSums.Proofs.Success

/-!
# How numbers are spelled

A number of a JSON text is its sign, its digits, and perhaps a point with digits and a power of ten.
The scanner takes exactly these spellings, and where it stops is fixed by what follows: nothing that
could have gone on with the number.
-/

namespace DigitiserSums

namespace Decimal

/-- The character of a digit. -/
def digitChar (d : Digit) : Char :=
  .ofNat (48 + d.val)

/-- No digit stands at the front. -/
def NoDigit (cs : List Char) : Prop :=
  ∀ c ∈ cs.head?, digit? c = none

theorem digit?_digitChar (d : Digit) : digit? (digitChar d) = some d := by
  revert d
  decide

theorem digit?_eq_some_iff {c : Char} {d : Digit} : digit? c = some d ↔ c = digitChar d := by
  constructor
  · intro h
    unfold digit? at h
    split at h
    · next hc =>
        cases h
        have hsum : 48 + (c.toNat - 48) = c.toNat := by omega
        rw [digitChar, hsum, Char.ofNat_toNat]
    · cases h
  · intro h
    subst h
    exact digit?_digitChar d

theorem noDigit_cons {c : Char} {cs : List Char} (h : digit? c = none) : NoDigit (c :: cs) := by
  intro c' hc'
  cases hc'
  exact h

theorem map_digitChar_span (cs : List Char) :
    (span cs).1.map digitChar ++ (span cs).2 = cs := by
  induction cs with
  | nil => rfl
  | cons c cs ih =>
      cases hc : digit? c with
      | none => simp only [span, hc, List.map_nil, List.nil_append]
      | some d =>
          simp only [span, hc, List.map_cons, List.cons_append, ih, ← digit?_eq_some_iff.1 hc]

theorem span_map_digitChar_append (digits : List Digit) {rest : List Char} (h : NoDigit rest) :
    span (digits.map digitChar ++ rest) = (digits, rest) := by
  induction digits with
  | nil =>
      cases rest with
      | nil => rfl
      | cons c cs => simp only [List.map_nil, List.nil_append, span, h c rfl]
  | cons d digits ih => simp only [List.map_cons, List.cons_append, span, digit?_digitChar, ih]

/-- Digits are taken up to the first character that is none. -/
theorem span_eq_iff {cs rest : List Char} {digits : List Digit} :
    span cs = (digits, rest) ↔ cs = digits.map digitChar ++ rest ∧ NoDigit rest := by
  constructor
  · intro h
    have hcs := map_digitChar_span cs
    have hrest := digit?_head_span cs
    rw [h] at hcs hrest
    exact ⟨hcs.symm, hrest⟩
  · intro h
    obtain ⟨rfl, hrest⟩ := h
    exact span_map_digitChar_append digits hrest

end Decimal

namespace Json

open Decimal

/-! ## Spellings -/

/-- The digits before a point: a zero stands alone. -/
def IsWhole : List Digit → Prop
  | [] => False
  | d :: digits => d = 0 → digits = []

/-- The digits behind a point, with the point; nothing without digits. -/
def fractionText : List Digit → List Char
  | [] => []
  | d :: digits => '.' :: (d :: digits).map digitChar

/-- A power of ten behind its letter. -/
def SpellsPower (power : Int) (cs : List Char) : Prop :=
  ∃ sign digits, digits ≠ [] ∧ cs = sign ++ digits.map digitChar ∧
    (sign = ['-'] ∧ power = -(value digits : Int) ∨
      (sign = [] ∨ sign = ['+']) ∧ power = (value digits : Int))

/-- A power of ten with its letter, or nothing. -/
def SpellsExponent : Option Int → List Char → Prop
  | none, cs => cs = []
  | some power, cs =>
      ∃ letter rest, (letter = 'e' ∨ letter = 'E') ∧ SpellsPower power rest ∧ cs = letter :: rest

/-- Nothing at the front goes on with a number. -/
def Stops (cs : List Char) : Prop :=
  ∀ c ∈ cs.head?, digit? c = none ∧ c ≠ '.' ∧ c ≠ 'e' ∧ c ≠ 'E'

/-- The characters of a number. -/
def SpellsNumeral (n : Numeral) (cs : List Char) : Prop :=
  IsWhole n.whole ∧ ∃ exponent, SpellsExponent n.exponent exponent ∧
    cs = (if n.isNegative then ['-'] else []) ++
      (n.whole.map digitChar ++ (fractionText n.fraction ++ exponent))

/-! ## Scanning the parts -/

theorem digits1_eq_ok_iff {cs rest : List Char} {digits : List Digit} :
    digits1 cs = .ok (digits, rest) ↔
      digits ≠ [] ∧ cs = digits.map digitChar ++ rest ∧ NoDigit rest := by
  rw [← span_eq_iff]
  unfold digits1
  split
  · next hspan =>
      constructor
      · intro h
        cases h
      · intro h
        obtain ⟨hne, h⟩ := h
        rw [hspan] at h
        cases h
        exact absurd rfl hne
  · next hne =>
      constructor
      · intro h
        have hspan := Except.ok.inj h
        refine ⟨?_, hspan⟩
        intro h
        subst h
        exact hne rest hspan
      · intro h
        obtain ⟨-, h⟩ := h
        rw [h]

theorem wholeDigits_eq_ok_iff {cs rest : List Char} {digits : List Digit} :
    wholeDigits cs = .ok (digits, rest) ↔
      IsWhole digits ∧ cs = digits.map digitChar ++ rest ∧ NoDigit rest := by
  unfold wholeDigits
  split
  · next hlong =>
      obtain ⟨-, hcs, hrest⟩ := digits1_eq_ok_iff.1 hlong
      constructor
      · intro h
        cases h
      · intro h
        obtain ⟨hwhole, h⟩ := h
        have hspan := span_eq_iff.2 h
        rw [span_eq_iff.2 ⟨hcs, hrest⟩] at hspan
        cases hspan
        cases hwhole rfl
  · next hshort =>
      rw [digits1_eq_ok_iff]
      constructor
      · intro h
        obtain ⟨hne, h⟩ := h
        refine ⟨?_, h⟩
        cases digits with
        | nil => exact hne rfl
        | cons d digits =>
            intro h
            subst h
            cases digits with
            | nil => rfl
            | cons d' digits =>
                exact absurd (digits1_eq_ok_iff.2 ⟨hne, h⟩) (hshort d' digits rest)
      · intro h
        obtain ⟨hwhole, h⟩ := h
        refine ⟨?_, h⟩
        intro h
        subst h
        exact hwhole

theorem fractionDigits_sound {cs rest : List Char} {digits : List Digit}
    (h : fractionDigits cs = .ok (digits, rest)) : cs = fractionText digits ++ rest := by
  unfold fractionDigits at h
  split at h
  · obtain ⟨hne, hcs, -⟩ := digits1_eq_ok_iff.1 h
    cases digits with
    | nil => exact absurd rfl hne
    | cons d digits => rw [hcs, fractionText, List.cons_append]
  · cases h
    rfl

theorem fractionDigits_complete {rest : List Char} (digits : List Digit)
    (hpoint : rest.head? ≠ some '.') (hrest : NoDigit rest) :
    fractionDigits (fractionText digits ++ rest) = .ok (digits, rest) := by
  cases digits with
  | nil =>
      rw [fractionText, List.nil_append]
      unfold fractionDigits
      split
      · exact absurd rfl hpoint
      · rfl
  | cons d digits =>
      exact digits1_eq_ok_iff.2 ⟨List.cons_ne_nil d digits, rfl, hrest⟩

theorem spellsPower_of_digits {digits : List Digit} (hne : digits ≠ []) :
    SpellsPower (value digits : Int) (digits.map digitChar) :=
  ⟨[], digits, hne, rfl, .inr ⟨.inl rfl, rfl⟩⟩

theorem powerOfTen_sound {cs rest : List Char} {power : Int}
    (h : powerOfTen cs = .ok (power, rest)) :
    ∃ front, SpellsPower power front ∧ cs = front ++ rest := by
  unfold powerOfTen at h
  split at h
  · obtain ⟨⟨digits, rest'⟩, hdigits, hpower⟩ := exists_of_map_eq_ok h
    cases hpower
    obtain ⟨hne, hcs, -⟩ := digits1_eq_ok_iff.1 hdigits
    exact ⟨'-' :: digits.map digitChar, ⟨['-'], digits, hne, rfl, .inl ⟨rfl, rfl⟩⟩,
      by rw [hcs]; rfl⟩
  · obtain ⟨⟨digits, rest'⟩, hdigits, hpower⟩ := exists_of_map_eq_ok h
    cases hpower
    obtain ⟨hne, hcs, -⟩ := digits1_eq_ok_iff.1 hdigits
    exact ⟨'+' :: digits.map digitChar, ⟨['+'], digits, hne, rfl, .inr ⟨.inr rfl, rfl⟩⟩,
      by rw [hcs]; rfl⟩
  · obtain ⟨⟨digits, rest'⟩, hdigits, hpower⟩ := exists_of_map_eq_ok h
    cases hpower
    obtain ⟨hne, hcs, -⟩ := digits1_eq_ok_iff.1 hdigits
    exact ⟨digits.map digitChar, spellsPower_of_digits hne, hcs⟩

theorem digitChar_ne_of_digit?_eq_none {c : Char} (h : digit? c = none) (d : Digit) :
    digitChar d ≠ c := by
  intro hr
  subst hr
  rw [digit?_digitChar] at h
  cases h

theorem powerOfTen_complete {front rest : List Char} {power : Int} (h : SpellsPower power front)
    (hrest : NoDigit rest) : powerOfTen (front ++ rest) = .ok (power, rest) := by
  obtain ⟨sign, digits, hne, rfl, hsign⟩ := h
  have hscan : digits1 (digits.map digitChar ++ rest) = .ok (digits, rest) :=
    digits1_eq_ok_iff.2 ⟨hne, rfl, hrest⟩
  rw [List.append_assoc]
  rcases hsign with ⟨rfl, rfl⟩ | ⟨rfl | rfl, rfl⟩
  · rw [List.singleton_append, powerOfTen, hscan]
    rfl
  · cases digits with
    | nil => exact absurd rfl hne
    | cons d digits =>
        rw [List.nil_append]
        unfold powerOfTen
        split
        · next heq =>
            exact absurd (List.cons.inj heq).1 (digitChar_ne_of_digit?_eq_none (by decide) d)
        · next heq =>
            exact absurd (List.cons.inj heq).1 (digitChar_ne_of_digit?_eq_none (by decide) d)
        · rw [hscan]
          rfl
  · rw [List.singleton_append, powerOfTen, hscan]
    rfl

theorem exponentPart_sound {cs rest : List Char} {exponent : Option Int}
    (h : exponentPart cs = .ok (exponent, rest)) :
    ∃ front, SpellsExponent exponent front ∧ cs = front ++ rest := by
  unfold exponentPart at h
  split at h
  · obtain ⟨⟨power, rest'⟩, hpower, heq⟩ := exists_of_map_eq_ok h
    cases heq
    obtain ⟨front, hfront, hcs⟩ := powerOfTen_sound hpower
    exact ⟨'e' :: front, ⟨'e', front, .inl rfl, hfront, rfl⟩, by rw [hcs]; rfl⟩
  · obtain ⟨⟨power, rest'⟩, hpower, heq⟩ := exists_of_map_eq_ok h
    cases heq
    obtain ⟨front, hfront, hcs⟩ := powerOfTen_sound hpower
    exact ⟨'E' :: front, ⟨'E', front, .inr rfl, hfront, rfl⟩, by rw [hcs]; rfl⟩
  · cases h
    exact ⟨[], rfl, rfl⟩

theorem exponentPart_complete {front rest : List Char} {exponent : Option Int}
    (h : SpellsExponent exponent front) (hrest : Stops rest) :
    exponentPart (front ++ rest) = .ok (exponent, rest) := by
  have hdigit : NoDigit rest := fun c hc => (hrest c hc).1
  cases exponent with
  | none =>
      cases h
      rw [List.nil_append]
      unfold exponentPart
      split
      · exact absurd rfl (hrest 'e' rfl).2.2.1
      · exact absurd rfl (hrest 'E' rfl).2.2.2
      · rfl
  | some power =>
      obtain ⟨letter, digits, hletter, hpower, rfl⟩ := h
      have hscan := powerOfTen_complete hpower hdigit
      rcases hletter with rfl | rfl
      all_goals
        rw [List.cons_append, exponentPart, hscan]
        rfl

/-! ## Scanning numbers -/

/-- What follows the digits of a number, up to where it stops, is no digit and no second point. -/
theorem SpellsExponent.head {front rest : List Char} {exponent : Option Int}
    (h : SpellsExponent exponent front) (hrest : Stops rest) :
    NoDigit (front ++ rest) ∧ (front ++ rest).head? ≠ some '.' := by
  cases exponent with
  | none =>
      cases h
      exact ⟨fun c hc => (hrest c hc).1, fun hpoint => absurd rfl (hrest '.' hpoint).2.1⟩
  | some power =>
      obtain ⟨letter, digits, hletter, -, rfl⟩ := h
      rcases hletter with rfl | rfl
      · exact ⟨noDigit_cons (by decide), by simp⟩
      · exact ⟨noDigit_cons (by decide), by simp⟩

theorem noDigit_fractionText (digits : List Digit) {rest : List Char} (hrest : NoDigit rest) :
    NoDigit (fractionText digits ++ rest) := by
  cases digits with
  | nil => exact hrest
  | cons d digits => exact noDigit_cons (by decide)

theorem unsignedNumeral_sound {isNegative : Bool} {cs rest : List Char} {n : Numeral}
    (h : unsignedNumeral isNegative cs = .ok (n, rest)) :
    n.isNegative = isNegative ∧ IsWhole n.whole ∧ ∃ exponent, SpellsExponent n.exponent exponent ∧
      cs = n.whole.map digitChar ++ (fractionText n.fraction ++ exponent) ++ rest := by
  unfold unsignedNumeral at h
  obtain ⟨⟨whole, afterWhole⟩, hwhole, h⟩ := bind_eq_ok_iff.1 h
  obtain ⟨⟨fraction, afterFraction⟩, hfraction, h⟩ := bind_eq_ok_iff.1 h
  obtain ⟨⟨exponent, afterExponent⟩, hexponent, h⟩ := bind_eq_ok_iff.1 h
  cases h
  obtain ⟨hshape, hcs, -⟩ := wholeDigits_eq_ok_iff.1 hwhole
  obtain ⟨front, hfront, hrest⟩ := exponentPart_sound hexponent
  refine ⟨rfl, hshape, front, hfront, ?_⟩
  rw [hcs, fractionDigits_sound hfraction, hrest]
  simp

theorem unsignedNumeral_complete (isNegative : Bool) {whole : List Digit} (fraction : List Digit)
    {exponent : Option Int} {exponentText rest : List Char} (hwhole : IsWhole whole)
    (hexponent : SpellsExponent exponent exponentText) (hrest : Stops rest) :
    unsignedNumeral isNegative
        (whole.map digitChar ++ (fractionText fraction ++ exponentText) ++ rest) =
      .ok (⟨isNegative, whole, fraction, exponent⟩, rest) := by
  obtain ⟨hdigit, hpoint⟩ := hexponent.head hrest
  have hscanWhole := wholeDigits_eq_ok_iff.2
    ⟨hwhole, rfl, noDigit_fractionText fraction hdigit⟩
  have hscanFraction := fractionDigits_complete fraction hpoint hdigit
  have hscanExponent := exponentPart_complete hexponent hrest
  rw [List.append_assoc, List.append_assoc, unsignedNumeral]
  refine bind_eq_ok_iff.2 ⟨_, hscanWhole, ?_⟩
  refine bind_eq_ok_iff.2 ⟨_, hscanFraction, ?_⟩
  exact bind_eq_ok_iff.2 ⟨_, hscanExponent, rfl⟩

theorem scanNumeral_sound {cs rest : List Char} {n : Numeral} (h : scanNumeral cs = .ok (n, rest)) :
    ∃ front, SpellsNumeral n front ∧ cs = front ++ rest := by
  unfold scanNumeral at h
  split at h
  · obtain ⟨hsign, hwhole, exponent, hexponent, hcs⟩ := unsignedNumeral_sound h
    exact ⟨_, ⟨hwhole, exponent, hexponent, rfl⟩, by simp [hsign, hcs]⟩
  · obtain ⟨hsign, hwhole, exponent, hexponent, hcs⟩ := unsignedNumeral_sound h
    exact ⟨_, ⟨hwhole, exponent, hexponent, rfl⟩, by simp [hsign, hcs]⟩

/-- The first character of a number is a digit or a minus. -/
theorem SpellsNumeral.head {n : Numeral} {cs : List Char} (h : SpellsNumeral n cs) :
    ∃ c rest, cs = c :: rest ∧ (c = '-' ∨ (digit? c).isSome) := by
  obtain ⟨hwhole, exponent, -, rfl⟩ := h
  cases hsign : n.isNegative with
  | true => exact ⟨'-', _, rfl, .inl rfl⟩
  | false =>
      cases hdigits : n.whole with
      | nil =>
          rw [hdigits] at hwhole
          exact hwhole.elim
      | cons d digits =>
          refine ⟨digitChar d, _, rfl, .inr ?_⟩
          rw [digit?_digitChar]
          rfl

theorem scanNumeral_complete {n : Numeral} {front rest : List Char} (h : SpellsNumeral n front)
    (hrest : Stops rest) : scanNumeral (front ++ rest) = .ok (n, rest) := by
  obtain ⟨hwhole, exponent, hexponent, rfl⟩ := h
  obtain ⟨isNegative, whole, fraction, power⟩ := n
  have hscan := unsignedNumeral_complete isNegative fraction hwhole hexponent hrest
  cases isNegative with
  | true => exact hscan
  | false =>
      cases whole with
      | nil => exact hwhole.elim
      | cons d digits =>
          change scanNumeral (digitChar d :: _) = _
          unfold scanNumeral
          split
          · next heq =>
              exact absurd (List.cons.inj heq).1 (digitChar_ne_of_digit?_eq_none (by decide) d)
          · exact hscan

end Json

end DigitiserSums
