import DigitiserSums.Proofs.Accounts
import DigitiserSums.Proofs.Json.Numerals

/-!
# Spellings of a sample

A number has many spellings on a line: blanks around it, a plus sign and zeros in front. A line that
is none of them for a number in range is skipped. A session sees neither: two lists of lines with
the same numbers in range, in the same order, are one list of samples to it.
-/

namespace DigitiserSums

/-! ## Digits with zeros in front -/

namespace Decimal

theorem mapM_digit?_eq_some_iff {cs : List Char} {digits : List Digit} :
    cs.mapM digit? = some digits ↔ cs = digits.map digitChar := by
  induction cs generalizing digits with
  | nil =>
      cases digits with
      | nil => exact ⟨fun _ => rfl, fun _ => rfl⟩
      | cons d digits => exact ⟨nofun, nofun⟩
  | cons c cs ih =>
      rw [List.mapM_cons]
      cases digits with
      | nil => simp [Option.bind_eq_some_iff]
      | cons d digits =>
          simp only [Option.bind_eq_bind, Option.bind_eq_some_iff, Option.pure_def,
            Option.some.injEq, List.cons.injEq, List.map_cons, digit?_eq_some_iff, ih]
          constructor
          · rintro ⟨_, hc, _, hcs, rfl, rfl⟩
            exact ⟨hc, hcs⟩
          · rintro ⟨hc, hcs⟩
            exact ⟨d, hc, digits, hcs, rfl, rfl⟩

theorem digitChar_eq (d : Digit) : digitChar d = Nat.digitChar d.val := by
  revert d
  decide

theorem value_concat (digits : List Digit) (d : Digit) :
    value (digits ++ [d]) = 10 * value digits + d.val := by
  simp [value]

theorem value_replicate_zero_append (zeros : Nat) (digits : List Digit) :
    value (List.replicate zeros 0 ++ digits) = value digits := by
  induction zeros with
  | zero => rfl
  | succ zeros ih => exact ih

/-- A number is written with the digits of its value, and without a zero in front. -/
theorem exists_toDigits_eq (n : Nat) :
    ∃ digits, Nat.toDigits 10 n = digits.map digitChar ∧ value digits = n ∧ Json.IsWhole digits := by
  induction n using Nat.strong_induction_on with
  | _ n ih =>
      by_cases hn : n < 10
      · refine ⟨[⟨n, hn⟩], ?_, by simp [value], fun _ => rfl⟩
        rw [Nat.toDigits_of_lt_base hn, List.map_singleton, digitChar_eq]
      · obtain ⟨digits, htext, hvalue, hwhole⟩ := ih (n / 10) (by omega)
        refine ⟨digits ++ [⟨n % 10, Nat.mod_lt n (by decide)⟩], ?_, ?_, ?_⟩
        · rw [Nat.toDigits_eq_if (by decide), if_neg hn, htext, List.map_append, List.map_singleton,
            digitChar_eq]
        · rw [value_concat, hvalue]
          exact Nat.div_add_mod n 10
        · cases digits with
          | nil => exact hwhole.elim
          | cons d digits =>
              -- A zero would stand alone, and then `n` would have one digit.
              rintro rfl
              rw [hwhole rfl] at hvalue
              change 0 = n / 10 at hvalue
              omega

/-- Zeros in front do not change what digits stand for. -/
theorem exists_digits_eq (zeros n : Nat) :
    ∃ digits, List.replicate zeros '0' ++ Nat.toDigits 10 n = digits.map digitChar ∧
      value digits = n := by
  obtain ⟨digits, htext, hvalue, -⟩ := exists_toDigits_eq n
  refine ⟨List.replicate zeros 0 ++ digits, ?_, ?_⟩
  · rw [List.map_append, List.map_replicate, htext]
    rfl
  · rw [value_replicate_zero_append, hvalue]

/-- Any digits are those of their value, behind zeros. -/
theorem exists_map_digitChar_eq {digits : List Digit} (hne : digits ≠ []) :
    ∃ zeros, digits.map digitChar = List.replicate zeros '0' ++ Nat.toDigits 10 (value digits) := by
  induction digits using List.reverseRecOn with
  | nil => exact absurd rfl hne
  | append_singleton digits d ih =>
      rw [List.map_append, List.map_singleton, value_concat, digitChar_eq]
      by_cases hnil : digits = []
      · subst hnil
        refine ⟨0, ?_⟩
        rw [show value [] = 0 from rfl, Nat.mul_zero, Nat.zero_add,
          Nat.toDigits_of_lt_base d.isLt]
        rfl
      · obtain ⟨zeros, htext⟩ := ih hnil
        by_cases hzero : value digits = 0
        · -- What stood before the last digit is zeros only.
          refine ⟨zeros + 1, ?_⟩
          rw [htext, hzero, Nat.toDigits_zero, Nat.mul_zero, Nat.zero_add,
            Nat.toDigits_of_lt_base d.isLt, List.replicate_succ']
        · refine ⟨zeros, ?_⟩
          rw [htext, ← Nat.toDigits_append_toDigits (by decide) (Nat.pos_of_ne_zero hzero) d.isLt,
            Nat.toDigits_of_lt_base d.isLt, List.append_assoc]

/-- A text of digits for `n`, perhaps behind a plus sign and zeros. -/
def SpellsNatural (n : Nat) (text : List Char) : Prop :=
  ∃ sign zeros, (sign = [] ∨ sign = ['+']) ∧
    text = sign ++ (List.replicate zeros '0' ++ Nat.toDigits 10 n)

theorem exists_sign_eq (text : List Char) :
    ∃ sign, (sign = [] ∨ sign = ['+']) ∧ text = sign ++ afterPlus text := by
  unfold afterPlus
  split
  · exact ⟨['+'], .inr rfl, rfl⟩
  · exact ⟨[], .inl rfl, rfl⟩

/-- A sign is told apart from the digits behind it. -/
theorem afterPlus_sign_append {sign : List Char} (hsign : sign = [] ∨ sign = ['+'])
    {digits : List Digit} (hne : digits ≠ []) (rest : List Char) :
    afterPlus (sign ++ (digits.map digitChar ++ rest)) = digits.map digitChar ++ rest := by
  rcases hsign with rfl | rfl
  · obtain ⟨d, digits, rfl⟩ := List.exists_cons_of_ne_nil hne
    have hplus : ∀ d, digitChar d ≠ '+' := by decide
    unfold afterPlus
    split
    · next heq => exact absurd (List.cons.inj heq).1 (hplus d)
    · rfl
  · rfl

/-- The texts that stand for a number are its spellings. -/
theorem numeral?_eq_some_iff {text : List Char} {n : Nat} :
    numeral? text = some n ↔ SpellsNatural n text := by
  constructor
  · intro h
    unfold numeral? at h
    split at h
    · cases h
    · next hne =>
        obtain ⟨digits, hdigits, rfl⟩ := Option.map_eq_some_iff.1 h
        rw [mapM_digit?_eq_some_iff] at hdigits
        have hdigits' : digits ≠ [] := by
          intro hnil
          rw [hnil] at hdigits
          exact hne hdigits
        obtain ⟨zeros, hzeros⟩ := exists_map_digitChar_eq hdigits'
        obtain ⟨sign, hsign, htext⟩ := exists_sign_eq text
        rw [hdigits, hzeros] at htext
        exact ⟨sign, zeros, hsign, htext⟩
  · intro h
    obtain ⟨sign, zeros, hsign, rfl⟩ := h
    obtain ⟨digits, hdigits, rfl⟩ := exists_digits_eq zeros n
    have hne : digits.map digitChar ≠ [] := by
      rw [← hdigits]
      exact List.append_ne_nil_of_right_ne_nil _ Nat.toDigits_ne_nil
    have hafter := afterPlus_sign_append hsign (mt List.map_eq_nil_iff.2 hne) []
    rw [List.append_nil] at hafter
    rw [hdigits, numeral?, hafter, if_neg hne, mapM_digit?_eq_some_iff.2 rfl, Option.map_some]

end Decimal

/-! ## Blanks around a number -/

namespace Text

theorem exists_trim_eq (cs : List Char) :
    ∃ before after, (∀ c ∈ before, isBlank c = true) ∧ (∀ c ∈ after, isBlank c = true) ∧
      cs = before ++ trim cs ++ after := by
  refine ⟨cs.takeWhile isBlank, ((cs.dropWhile isBlank).reverse.takeWhile isBlank).reverse,
    fun c hc => List.mem_takeWhile_imp hc, fun c hc => ?_, ?_⟩
  · exact List.mem_takeWhile_imp (List.mem_reverse.1 hc)
  · rw [trim, List.append_assoc, ← List.reverse_append, List.takeWhile_append_dropWhile,
      List.reverse_reverse, List.takeWhile_append_dropWhile]

theorem dropWhile_append_cons {before : List Char} (hbefore : ∀ c ∈ before, isBlank c = true)
    {c : Char} (hc : isBlank c = false) (cs : List Char) :
    (before ++ c :: cs).dropWhile isBlank = c :: cs := by
  rw [List.dropWhile_append_of_pos hbefore, List.dropWhile_cons_of_neg]
  rw [hc]
  exact Bool.false_ne_true

/-- A text that has no blanks is found again among blanks. -/
theorem trim_append {before text after : List Char} (hbefore : ∀ c ∈ before, isBlank c = true)
    (hafter : ∀ c ∈ after, isBlank c = true) (htext : ∀ c ∈ text, isBlank c = false)
    (hne : text ≠ []) : trim (before ++ text ++ after) = text := by
  have hafter' : ∀ c ∈ after.reverse, isBlank c = true := fun c hc =>
    hafter c (List.mem_reverse.1 hc)
  have hfront : (before ++ (text ++ after)).dropWhile isBlank = text ++ after := by
    obtain ⟨c, cs, rfl⟩ := List.exists_cons_of_ne_nil hne
    exact dropWhile_append_cons hbefore (htext c List.mem_cons_self) (cs ++ after)
  have hback : (after.reverse ++ text.reverse).dropWhile isBlank = text.reverse := by
    obtain ⟨c, cs, hreverse⟩ := List.exists_cons_of_ne_nil (mt List.reverse_eq_nil_iff.1 hne)
    have hmem : c ∈ text := List.mem_reverse.1 (hreverse ▸ List.mem_cons_self)
    rw [hreverse]
    exact dropWhile_append_cons hafter' (htext c hmem) cs
  rw [trim, List.append_assoc, hfront, List.reverse_append, hback, List.reverse_reverse]

end Text

/-! ## The spellings of a sample -/

/-- A line that holds a number: its digits, perhaps behind a plus sign and zeros, among blanks. -/
def SpellsSample (n : Nat) (line : String) : Prop :=
  ∃ before text after, (∀ c ∈ before, Text.isBlank c = true) ∧
    (∀ c ∈ after, Text.isBlank c = true) ∧ Decimal.SpellsNatural n text ∧
    line.toList = before ++ text ++ after

theorem Decimal.SpellsNatural.isBlank_eq_false {n : Nat} {text : List Char}
    (h : SpellsNatural n text) : ∀ c ∈ text, Text.isBlank c = false := by
  obtain ⟨sign, zeros, hsign, rfl⟩ := h
  obtain ⟨digits, hdigits, -⟩ := exists_digits_eq zeros n
  have hdigit : ∀ d, Text.isBlank (digitChar d) = false := by decide
  rw [hdigits]
  intro c hc
  rcases List.mem_append.1 hc with hc | hc
  · rcases hsign with rfl | rfl
    · cases hc
    · rw [List.mem_singleton.1 hc]
      decide
  · obtain ⟨d, -, rfl⟩ := List.mem_map.1 hc
    exact hdigit d

theorem Decimal.SpellsNatural.ne_nil {n : Nat} {text : List Char} (h : SpellsNatural n text) :
    text ≠ [] := by
  obtain ⟨sign, zeros, -, rfl⟩ := h
  simp [Nat.toDigits_ne_nil]

theorem spellsSample_iff {n : Nat} {line : String} :
    SpellsSample n line ↔ Decimal.numeral? (Text.trim line.toList) = some n := by
  rw [Decimal.numeral?_eq_some_iff]
  constructor
  · intro h
    obtain ⟨before, text, after, hbefore, hafter, htext, hline⟩ := h
    rw [hline, Text.trim_append hbefore hafter htext.isBlank_eq_false htext.ne_nil]
    exact htext
  · intro h
    obtain ⟨before, after, hbefore, hafter, hline⟩ := Text.exists_trim_eq line.toList
    exact ⟨before, _, after, hbefore, hafter, h, hline⟩

theorem lineSample?_of_spells {n : Nat} {line : String} (hn : n ≤ 1023)
    (h : SpellsSample n line) : lineSample? line.toList = some (.ofNat n) := by
  rw [lineSample?, spellsSample_iff.1 h, Option.filter_some_pos (by simpa using hn)]
  rfl

theorem lineSample?_eq_none_iff {line : String} :
    lineSample? line.toList = none ↔ ∀ n ≤ 1023, ¬ SpellsSample n line := by
  constructor
  · intro hnone n hn hspells
    rw [lineSample?_of_spells hn hspells] at hnone
    cases hnone
  · intro h
    rw [lineSample?, Option.map_eq_none_iff, Option.filter_eq_none_iff]
    intro n hn hle
    exact h n (by simpa using hle) (spellsSample_iff.2 hn)

/-- The samples in range, in the order of their lines. -/
def samplesOn (lines : List String) : List Sample :=
  lines.filterMap fun line => lineSample? line.toList

theorem samplesOn_cons_of_some {line : String} {x : Sample} (h : lineSample? line.toList = some x)
    (lines : List String) : samplesOn (line :: lines) = x :: samplesOn lines := by
  rw [samplesOn, List.filterMap_cons, h]
  rfl

theorem samplesOn_cons_of_none {line : String} (h : lineSample? line.toList = none)
    (lines : List String) : samplesOn (line :: lines) = samplesOn lines := by
  rw [samplesOn, List.filterMap_cons, h]
  rfl

/-- The same numbers in range, in the same order: lines that hold none may stand anywhere on either
side, and each of the others may have another spelling of its number. -/
inductive SameSamples : List String → List String → Prop
  | nil : SameSamples [] []
  | delete {line : String} {lines lines' : List String} (hline : ∀ n ≤ 1023, ¬ SpellsSample n line)
      (h : SameSamples lines lines') : SameSamples (line :: lines) lines'
  | insert {line : String} {lines lines' : List String} (hline : ∀ n ≤ 1023, ¬ SpellsSample n line)
      (h : SameSamples lines lines') : SameSamples lines (line :: lines')
  | respell {n : Nat} {line line' : String} {lines lines' : List String} (hn : n ≤ 1023)
      (hline : SpellsSample n line) (hline' : SpellsSample n line')
      (h : SameSamples lines lines') : SameSamples (line :: lines) (line' :: lines')

theorem SameSamples.samplesOn_eq {lines lines' : List String} (h : SameSamples lines lines') :
    samplesOn lines = samplesOn lines' := by
  induction h with
  | nil => rfl
  | delete hline _ ih => rw [samplesOn_cons_of_none (lineSample?_eq_none_iff.2 hline), ih]
  | insert hline _ ih => rw [samplesOn_cons_of_none (lineSample?_eq_none_iff.2 hline), ih]
  | respell hn hline hline' _ ih =>
      rw [samplesOn_cons_of_some (lineSample?_of_spells hn hline),
        samplesOn_cons_of_some (lineSample?_of_spells hn hline'), ih]

/-! ## What lines are to a session -/

namespace Session

/-- What a sample in range gives. -/
def take (s : Session) (x : Sample) : LineOutcome × Session :=
  let (emission, next) := s.advance (s.pipeline.push x).1 (s.pipeline.push x).2
  (.taken emission, next)

theorem handleLine_of_sample (s : Session) {line : String} {x : Sample}
    (h : lineSample? line.toList = some x) : s.handleLine line = s.take x := by
  obtain ⟨htext, hx⟩ := lineSample?_eq_some_iff.1 h
  rw [s.handleLine_of_ok htext, s.push_eq_ok hx]
  rfl

theorem handleLine_of_no_sample (s : Session) {line : String}
    (h : lineSample? line.toList = none) :
    (s.handleLine line).1.isTaken = false ∧ (s.handleLine line).2 = s := by
  obtain ⟨houtcome, hnext⟩ := s.handleLine_of_lineSample?_eq_none h
  refine ⟨?_, hnext⟩
  rcases houtcome with hblank | ⟨fault, hfailed⟩
  · rw [hblank]
    rfl
  · rw [hfailed]
    rfl

/-- Lines are handled as the samples on them are taken, and the others are passed over. -/
theorem filter_isTaken_scan (s : Session) (lines : List String) :
    ((scan handleLine s lines).1.filter LineOutcome.isTaken, (scan handleLine s lines).2) =
      scan take s (samplesOn lines) := by
  induction lines generalizing s with
  | nil => rfl
  | cons line lines ih =>
      cases hline : lineSample? line.toList with
      | some x =>
          rw [samplesOn_cons_of_some hline, scan_cons, scan_cons, s.handleLine_of_sample hline,
            ← ih, List.filter_cons_of_pos (by rfl)]
      | none =>
          obtain ⟨htaken, hnext⟩ := s.handleLine_of_no_sample hline
          rw [samplesOn_cons_of_none hline, ← ih, scan_cons, hnext,
            List.filter_cons_of_neg (by simpa using htaken)]

/-- What is no sample gives no text. -/
theorem filterMap_output?_filter (outcomes : List LineOutcome) :
    (outcomes.filter LineOutcome.isTaken).filterMap LineOutcome.output? =
      outcomes.filterMap LineOutcome.output? := by
  rw [List.filterMap_filter]
  congr 1
  funext outcome
  cases outcome <;> rfl

/-- In any state of a session, two lists of lines with the same numbers in range give the same for
these, the same texts and the same session, and the samples, sums and triggers that are counted are
as many. -/
theorem scan_handleLine_of_sameSamples (s : Session) (t : Tally) {lines lines' : List String}
    (h : SameSamples lines lines') :
    let run := scan handleLine s lines
    let run' := scan handleLine s lines'
    let tally := run.1.foldl Tally.count t
    let tally' := run'.1.foldl Tally.count t
    run.1.filter LineOutcome.isTaken = run'.1.filter LineOutcome.isTaken ∧
      run.1.filterMap LineOutcome.output? = run'.1.filterMap LineOutcome.output? ∧
      run.2 = run'.2 ∧ tally.samplesReceived = tally'.samplesReceived ∧
      tally.sumsEmitted = tally'.sumsEmitted ∧ tally.triggers = tally'.triggers := by
  intro run run' tally tally'
  have hruns : (run.1.filter LineOutcome.isTaken, run.2) =
      (run'.1.filter LineOutcome.isTaken, run'.2) := by
    rw [s.filter_isTaken_scan, s.filter_isTaken_scan, h.samplesOn_eq]
  obtain ⟨htaken, hnext⟩ := Prod.mk.inj hruns
  have htexts : run.1.filterMap LineOutcome.output? = run'.1.filterMap LineOutcome.output? := by
    rw [← filterMap_output?_filter, htaken, filterMap_output?_filter]
  obtain ⟨hsamples, hsums, htriggers, -⟩ := Tally.foldl_count t run.1
  obtain ⟨hsamples', hsums', htriggers', -⟩ := Tally.foldl_count t run'.1
  rw [List.countP_eq_length_filter, htaken, ← List.countP_eq_length_filter] at hsamples
  rw [htexts] at hsums htriggers
  exact ⟨htaken, htexts, hnext, hsamples.trans hsamples'.symm, hsums.trans hsums'.symm,
    htriggers.trans htriggers'.symm⟩

theorem scan_handleLine_of_sameSamples_of_blocks :
    let config : SessionConfig := { aggregation := .downsample 2 }
    let lines := ["7", "x", "1030", "3"]
    let lines' := [" +007\r", "", "\t3", "70000"]
    ∃ s, ofConfig config = .ok s ∧ SameSamples lines lines' ∧
      (scan handleLine s lines).1.filterMap LineOutcome.output? = ["10\n"] ∧
      (scan handleLine s lines').1.filterMap LineOutcome.output? = ["10\n"] ∧
      (scan handleLine s lines).2.sumsEmitted = (scan handleLine s lines').2.sumsEmitted := by
  intro config lines lines'
  obtain ⟨s, hs⟩ : ∃ s, ofConfig config = .ok s := ⟨_, rfl⟩
  have hskip (line : String) (h : lineSample? line.toList = none) :
      ∀ n ≤ 1023, ¬ SpellsSample n line := lineSample?_eq_none_iff.1 h
  have hsame : SameSamples lines lines' :=
    .respell (n := 7) (by decide) (spellsSample_iff.2 (by decide)) (spellsSample_iff.2 (by decide))
      (.delete (hskip "x" (by decide)) (.delete (hskip "1030" (by decide)) (.insert (hskip "" rfl)
        (.respell (n := 3) (by decide) (spellsSample_iff.2 (by decide))
          (spellsSample_iff.2 (by decide)) (.insert (hskip "70000" (by decide)) .nil)))))
  obtain ⟨-, htexts, hnext, -⟩ := scan_handleLine_of_sameSamples s {} hsame
  have hlines : (scan handleLine s lines).1.filterMap LineOutcome.output? = ["10\n"] := by
    cases hs
    decide +kernel
  exact ⟨s, hs, hsame, hlines, htexts.symm.trans hlines, congrArg sumsEmitted hnext⟩

end Session

end DigitiserSums
