import DigitiserSums.Proofs.Spellings

/-!
# The first fault of a text

A number is read from left to right, and the first character that does not go on with it says what
is wrong: digits that reach the limit make the number too large, whatever follows them, and any
other character before that is no digit. So a line either is the push of the sample that its digits
stand for, or is refused for one reason that the text alone decides.
-/

namespace DigitiserSums

namespace Decimal

variable {limit n : Nat} {cs : List Char}

/-! ## Texts that begin with a number -/

/-- The text has digits for `n` at its front, one digit at least, perhaps behind a plus sign, and
goes on with `rest`. -/
def BeginsWithNatural (n : Nat) (rest text : List Char) : Prop :=
  ∃ sign digits, (sign = [] ∨ sign = ['+']) ∧ digits ≠ [] ∧ value digits = n ∧
    text = sign ++ (digits.map digitChar ++ rest)

theorem beginsWithNatural_iff {rest : List Char} :
    BeginsWithNatural n rest cs ↔
      ∃ digits, digits ≠ [] ∧ value digits = n ∧ afterPlus cs = digits.map digitChar ++ rest := by
  constructor
  · intro h
    obtain ⟨sign, digits, hsign, hne, hvalue, rfl⟩ := h
    exact ⟨digits, hne, hvalue, afterPlus_sign_append hsign hne rest⟩
  · intro h
    obtain ⟨digits, hne, hvalue, hafter⟩ := h
    obtain ⟨sign, hsign, htext⟩ := exists_sign_eq cs
    exact ⟨sign, digits, hsign, hne, hvalue, htext.trans (congrArg _ hafter)⟩

theorem BeginsWithNatural.afterPlus_ne_nil {rest : List Char} (h : BeginsWithNatural n rest cs) :
    afterPlus cs ≠ [] := by
  obtain ⟨digits, hne, -, hafter⟩ := beginsWithNatural_iff.1 h
  rw [hafter]
  exact List.append_ne_nil_of_left_ne_nil (mt List.map_eq_nil_iff.1 hne) rest

/-- With nothing behind its digits the text is the number. -/
theorem beginsWithNatural_nil_iff : BeginsWithNatural n [] cs ↔ SpellsNatural n cs := by
  constructor
  · intro h
    obtain ⟨sign, digits, hsign, hne, rfl, rfl⟩ := h
    obtain ⟨zeros, hzeros⟩ := exists_map_digitChar_eq hne
    exact ⟨sign, zeros, hsign, by rw [hzeros, List.append_nil]⟩
  · intro h
    obtain ⟨sign, zeros, hsign, rfl⟩ := h
    obtain ⟨digits, hdigits, hvalue⟩ := exists_digits_eq zeros n
    have hne : digits ≠ [] := by
      rintro rfl
      exact List.append_ne_nil_of_right_ne_nil _ Nat.toDigits_ne_nil hdigits
    exact ⟨sign, digits, hsign, hne, hvalue, by rw [hdigits, List.append_nil]⟩

/-! ## Why a number is not read -/

theorem naturalBelow_of_afterPlus_eq_nil (limit : Nat) (h : afterPlus cs = []) :
    naturalBelow limit cs = .error (if cs = [] then .empty else .invalidDigit) := by
  obtain ⟨sign, hsign, hcs⟩ := exists_sign_eq cs
  rw [h, List.append_nil] at hcs
  rcases hsign with rfl | rfl <;> rw [hcs] <;> rfl

theorem digitsBelow_ne_empty (limit n : Nat) (cs : List Char) :
    digitsBelow limit n cs ≠ .error .empty := by
  intro h
  induction cs generalizing n with
  | nil => cases h
  | cons c cs ih =>
      unfold digitsBelow at h
      cases hc : digit? c with
      | none =>
          simp only [hc] at h
          cases h
      | some d =>
          simp only [hc] at h
          split at h
          · exact ih _ h
          · cases h

theorem naturalBelow_eq_empty_iff : naturalBelow limit cs = .error .empty ↔ cs = [] := by
  by_cases hnil : afterPlus cs = []
  · rw [naturalBelow_of_afterPlus_eq_nil limit hnil]
    split <;> simp [*]
  · rw [naturalBelow_eq_digitsBelow limit hnil]
    refine ⟨fun h => absurd h (digitsBelow_ne_empty _ _ _), ?_⟩
    rintro rfl
    exact absurd rfl hnil

/-- The text has digits at its front that take the number to the limit. -/
def ReachesLimit (limit n : Nat) (cs : List Char) : Prop :=
  ∃ digits rest, cs = digits.map digitChar ++ rest ∧ limit ≤ extend n digits

theorem reachesLimit_of_le (h : limit ≤ n) (cs : List Char) : ReachesLimit limit n cs :=
  ⟨[], cs, rfl, h⟩

theorem not_reachesLimit_nil (hn : n < limit) : ¬ ReachesLimit limit n [] := by
  intro h
  obtain ⟨digits, rest, hcs, hlimit⟩ := h
  obtain rfl := List.map_eq_nil_iff.1 (List.append_eq_nil_iff.1 hcs.symm).1
  exact absurd hn (Nat.not_lt.2 hlimit)

theorem reachesLimit_cons_iff (hn : n < limit) {c : Char} :
    ReachesLimit limit n (c :: cs) ↔
      ∃ d, digit? c = some d ∧ ReachesLimit limit (10 * n + d.val) cs := by
  constructor
  · intro h
    obtain ⟨digits, rest, hcs, hlimit⟩ := h
    cases digits with
    | nil => exact absurd hn (Nat.not_lt.2 hlimit)
    | cons d digits =>
        obtain ⟨rfl, rfl⟩ := List.cons.inj hcs
        exact ⟨d, digit?_digitChar d, digits, rest, rfl, hlimit⟩
  · intro h
    obtain ⟨d, hc, digits, rest, rfl, hlimit⟩ := h
    obtain rfl := digit?_eq_some_iff.1 hc
    exact ⟨d :: digits, rest, rfl, hlimit⟩

/-- Digits that take the number to the limit decide, whatever stands behind them. -/
theorem digitsBelow_eq_tooLarge_iff (hn : n < limit) :
    digitsBelow limit n cs = .error .tooLarge ↔ ReachesLimit limit n cs := by
  induction cs generalizing n with
  | nil => simp [digitsBelow, not_reachesLimit_nil hn]
  | cons c cs ih =>
      rw [reachesLimit_cons_iff hn, digitsBelow]
      cases digit? c with
      | none => simp
      | some d =>
          simp only [Option.some.injEq, exists_eq_left']
          split
          · next hlt => exact ih hlt
          · next hlt => exact iff_of_true rfl (reachesLimit_of_le (Nat.not_lt.1 hlt) cs)

theorem naturalBelow_eq_tooLarge_iff (hlimit : 0 < limit) :
    naturalBelow limit cs = .error .tooLarge ↔
      ∃ n rest, limit ≤ n ∧ BeginsWithNatural n rest cs := by
  by_cases hnil : afterPlus cs = []
  · rw [naturalBelow_of_afterPlus_eq_nil limit hnil]
    constructor
    · intro h
      split at h <;> cases h
    · intro h
      obtain ⟨n, rest, -, hbegins⟩ := h
      exact absurd hnil hbegins.afterPlus_ne_nil
  · rw [naturalBelow_eq_digitsBelow limit hnil, digitsBelow_eq_tooLarge_iff hlimit]
    constructor
    · intro h
      obtain ⟨digits, rest, hafter, hvalue⟩ := h
      have hne : digits ≠ [] := by
        rintro rfl
        exact absurd hlimit (Nat.not_lt.2 hvalue)
      exact ⟨_, rest, hvalue, beginsWithNatural_iff.2 ⟨digits, hne, rfl, hafter⟩⟩
    · intro h
      obtain ⟨n, rest, hn, hbegins⟩ := h
      obtain ⟨digits, -, rfl, hafter⟩ := beginsWithNatural_iff.1 hbegins
      exact ⟨digits, rest, hafter, hn⟩

end Decimal

open Decimal

/-! ## The sample that a text stands for -/

theorem sampleOfText_eq_ok_iff {text : List Char} {x : Sample} :
    sampleOfText text = .ok x ↔ BeginsWithNatural x.toNat [] text := by
  rw [beginsWithNatural_nil_iff, ← numeral?_eq_some_iff, ← toOption_eq_some_iff,
    toOption_sampleOfText]
  constructor
  · intro h
    obtain ⟨n, hn, rfl⟩ := Option.map_eq_some_iff.1 h
    obtain ⟨hnumeral, hlt⟩ := Option.filter_eq_some_iff.1 hn
    rw [hnumeral, UInt16.toNat_ofNat_of_lt' (of_decide_eq_true hlt)]
  · intro h
    have hlt : x.toNat < UInt16.size := x.toNat_lt
    rw [h, Option.filter_some_pos (by simpa using hlt), Option.map_some, UInt16.ofNat_toNat]

theorem sampleOfText_eq_error_iff {text : List Char} {fault : NaturalFault} :
    sampleOfText text = .error fault ↔ naturalBelow UInt16.size text = .error fault :=
  map_eq_error_iff

theorem exists_fault_iff {text : List Char} :
    (∃ fault, sampleOfText text = .error fault) ↔
      ∀ x : Sample, ¬ BeginsWithNatural x.toNat [] text := by
  simp only [← sampleOfText_eq_ok_iff]
  cases sampleOfText text <;> simp

/-! ## What a line is to a session -/

namespace Session

theorem processLine_ne_push_of_unreadable (s : Session) {line : String} {text : List Char}
    {fault : NaturalFault} (h : s.processLine line = .error (.unreadable text fault)) (x : Sample) :
    s.processLine line ≠ (s.push x).mapError .outOfRange := by
  rw [h]
  cases s.push x <;> exact nofun

theorem step_processLine_of_error (s : Session) {line : String} {fault : NaturalFault}
    (h : sampleOfText (Text.trim line.toList) = .error fault) :
    s.step (.processLine line) =
      (.processed (.error (.unreadable (Text.trim line.toList) fault)), s) := by
  rw [step, s.processLine_of_error h]
  rfl

/-- Let a text be a line without the blanks at its ends. If it is digits for a sample, perhaps
behind a plus sign and with any number of zeros in front, the line is the push of that sample, which
is refused if it is too wide. No other line behaves as the push of a sample: it changes nothing and
is refused with its text and for the first fault in it. Either there is no text, or digits at its
front make a number that no sample can be, whatever follows, or else some character is no digit. -/
theorem processLine_by_first_fault (s : Session) (line : String) :
    let text := Text.trim line.toList
    (∀ x : Sample, BeginsWithNatural x.toNat [] text →
      s.processLine line = (s.push x).mapError .outOfRange ∧
        (1023 < x → s.processLine line = .error (.outOfRange ⟨x, 1023⟩))) ∧
    ((∃ x, s.processLine line = (s.push x).mapError .outOfRange) ↔
      ∃ x : Sample, BeginsWithNatural x.toNat [] text) ∧
    ((∀ x : Sample, ¬ BeginsWithNatural x.toNat [] text) → ∃ fault,
      s.step (.processLine line) = (.processed (.error (.unreadable text fault)), s) ∧
        (fault = .empty ↔ text = []) ∧
        (fault = .tooLarge ↔ ∃ n rest, 65535 < n ∧ BeginsWithNatural n rest text) ∧
        (fault = .invalidDigit ↔
          text ≠ [] ∧ ¬ ∃ n rest, 65535 < n ∧ BeginsWithNatural n rest text)) := by
  intro text
  have hpush (x : Sample) (h : BeginsWithNatural x.toNat [] text) :
      s.processLine line = (s.push x).mapError .outOfRange :=
    s.processLine_of_ok (sampleOfText_eq_ok_iff.2 h)
  refine ⟨fun x h => ⟨hpush x h, fun hx => ?_⟩, ⟨fun h => ?_, fun h => h.imp hpush⟩, fun h => ?_⟩
  · rw [hpush x h, s.push_eq_error (UInt16.not_le.2 hx)]
    rfl
  · obtain ⟨x, hx⟩ := h
    by_contra hnone
    obtain ⟨fault, hfault⟩ := exists_fault_iff.2 (not_exists.1 hnone)
    exact s.processLine_ne_push_of_unreadable (s.processLine_of_error hfault) x hx
  · obtain ⟨fault, hfault⟩ := exists_fault_iff.2 h
    have hread := sampleOfText_eq_error_iff.1 hfault
    have hempty : naturalBelow UInt16.size text = .error .empty ↔ text = [] :=
      naturalBelow_eq_empty_iff
    have hlarge : naturalBelow UInt16.size text = .error .tooLarge ↔
        ∃ n rest, 65535 < n ∧ BeginsWithNatural n rest text :=
      naturalBelow_eq_tooLarge_iff (by decide)
    rw [hread, Except.error.injEq] at hempty hlarge
    refine ⟨fault, s.step_processLine_of_error hfault, hempty, hlarge, ?_⟩
    rw [← hlarge, ne_eq, ← hempty]
    cases fault <;> simp

theorem processLine_by_first_fault_of_zeros :
    let config : SessionConfig := { aggregation := .downsample 2 }
    let line := " +0065535\r"
    let refused := "\t65536x"
    ∃ s, ofConfig config = .ok s ∧
      BeginsWithNatural 65535 [] (Text.trim line.toList) ∧
      s.processLine line = .error (.outOfRange ⟨65535, 1023⟩) ∧
      (∀ x : Sample, ¬ BeginsWithNatural x.toNat [] (Text.trim refused.toList)) ∧
      s.step (.processLine refused) =
        (.processed (.error (.unreadable "65536x".toList .tooLarge)), s) := by
  intro config line refused
  obtain ⟨s, hs⟩ : ∃ s, ofConfig config = .ok s := ⟨_, rfl⟩
  have hbegins : BeginsWithNatural 65535 [] (Text.trim line.toList) :=
    ⟨['+'], [0, 0, 6, 5, 5, 3, 5], .inr rfl, by decide, by decide, by decide⟩
  have hnone : ∀ x : Sample, ¬ BeginsWithNatural x.toNat [] (Text.trim refused.toList) :=
    exists_fault_iff.1 ⟨.tooLarge, by decide⟩
  have htext : Text.trim refused.toList = "65536x".toList := by decide
  obtain ⟨fault, hstep, -, hlarge, -⟩ := (s.processLine_by_first_fault refused).2.2 hnone
  have hbeyond : BeginsWithNatural 65536 ['x'] (Text.trim refused.toList) :=
    ⟨[], [6, 5, 5, 3, 6], .inl rfl, by decide, by decide, by decide⟩
  obtain rfl : fault = .tooLarge := hlarge.2 ⟨65536, ['x'], by decide, hbeyond⟩
  rw [htext] at hstep
  exact ⟨s, hs, hbegins, ((s.processLine_by_first_fault line).1 65535 hbegins).2 (by decide), hnone,
    hstep⟩

end Session

end DigitiserSums
