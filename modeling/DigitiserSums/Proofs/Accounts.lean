import DigitiserSums.Proofs.Output

/-!
# Every line is accounted for

The tally of the program runs on while its session is reset again and again. Each line that is
handled is counted once: as blank, as a sample, or as a failure of one kind. What the session counts
between two resets adds up to what the tally counts, and the texts and warnings that the lines give
are as many as the tally says.
-/

namespace DigitiserSums

/-- A line without a sample on it. -/
def isBlankLine (line : String) : Bool :=
  Text.trim line.toList = []

/-- A line of output with the mark of a trigger at its end. -/
def isMarked (text : String) : Bool :=
  ",trigger\n".toList.isSuffixOf text.toList

/-- Whether the sample of the line was taken. -/
def LineOutcome.isTaken : LineOutcome → Bool
  | taken _ => true
  | _ => false

/-! ## One line -/

/-- The digits of the sum are no part of a mark. -/
theorem Emission.isMarked_line (e : Emission) : isMarked e.line = e.trigger.isSome := by
  unfold Emission.line isMarked
  cases e.trigger with
  | some trigger =>
      rw [Option.isSome_some, List.isSuffixOf_iff_suffix, if_pos rfl, String.toList_append]
      exact List.suffix_append _ _
  | none =>
      rw [Option.isSome_none, Bool.eq_false_iff, ne_eq, List.isSuffixOf_iff_suffix]
      rintro ⟨front, hfront⟩
      simp only [Bool.false_eq_true, if_false, String.toList_append, String.toList_ofList]
        at hfront
      have hdigits : front ++ ",trigger".toList = Nat.toDigits 10 e.sum.toNat := by
        refine List.append_cancel_right (?_ : _ ++ ['\n'] = _ ++ ['\n'])
        rw [List.append_assoc]
        exact hfront
      have hmem : 'r' ∈ Nat.toDigits 10 e.sum.toNat := by
        rw [← hdigits]
        exact List.mem_append_right _ (by decide)
      exact absurd (Nat.isDigit_of_mem_toDigits (by decide) (by decide) hmem) (by decide)

namespace Session

variable {s next : Session}

theorem counts_advance (s : Session) (sum : Option Total) (pipeline : Pipeline) :
    (s.advance sum pipeline).2.samplesReceived = s.samplesReceived + 1 ∧
      (s.advance sum pipeline).2.sumsEmitted =
        s.sumsEmitted + if (s.advance sum pipeline).1.isSome then 1 else 0 := by
  cases sum <;> simp [advance]

/-- A sample that is taken is counted, and so is the sum that it completes. -/
theorem counts_push {x : Sample} {emission : Option Emission}
    (h : s.push x = .ok (emission, next)) :
    next.samplesReceived = s.samplesReceived + 1 ∧
      next.sumsEmitted = s.sumsEmitted + if emission.isSome then 1 else 0 := by
  obtain ⟨⟨sum, pipeline⟩, -, hadvance⟩ := map_eq_ok_iff.1 h
  have hcounts := s.counts_advance sum pipeline
  rw [show s.advance sum pipeline = (emission, next) from hadvance] at hcounts
  exact hcounts

theorem counts_ofConfig {config : SessionConfig} (h : ofConfig config = .ok s) :
    s.samplesReceived = 0 ∧ s.sumsEmitted = 0 := by
  obtain ⟨pipeline, -, h⟩ := bind_eq_ok_iff.1 h
  obtain ⟨counter, -, h⟩ := bind_eq_ok_iff.1 h
  cases h
  exact ⟨rfl, rfl⟩

theorem handleLine_blank_iff (s : Session) (line : String) :
    (s.handleLine line).1 = .blank ↔ Text.trim line.toList = [] := by
  unfold handleLine
  by_cases hblank : Text.trim line.toList = []
  · rw [if_pos hblank]
    exact ⟨fun _ => hblank, fun _ => rfl⟩
  · rw [if_neg hblank]
    cases s.processLine line <;> simp [hblank]

/-- A line moves the counts of the session by what it gave. -/
theorem counts_handleLine (s : Session) (line : String) :
    (s.handleLine line).2.samplesReceived =
        s.samplesReceived + (if (s.handleLine line).1.isTaken then 1 else 0) ∧
      (s.handleLine line).2.sumsEmitted =
        s.sumsEmitted + if (s.handleLine line).1.output?.isSome then 1 else 0 := by
  cases htext : sampleOfText (Text.trim line.toList) with
  | error fault =>
      rw [s.handleLine_of_error htext]
      split <;> simp [LineOutcome.isTaken, LineOutcome.output?]
  | ok x =>
      rw [s.handleLine_of_ok htext]
      cases hpush : s.push x with
      | error e => simp [LineOutcome.isTaken, LineOutcome.output?]
      | ok reply =>
          obtain ⟨emission, next⟩ := reply
          simpa [LineOutcome.isTaken, LineOutcome.output?] using counts_push hpush

end Session

/-! ## What a tally counts -/

namespace Tally

/-- Every outcome is counted once in one way, or blank. -/
theorem foldl_count_total (t : Tally) (outcomes : List LineOutcome) :
    let r := outcomes.foldl count t
    r.samplesReceived + r.unreadable + r.outOfRange + outcomes.countP (· = .blank) =
      t.samplesReceived + t.unreadable + t.outOfRange + outcomes.length := by
  induction outcomes generalizing t with
  | nil => simp
  | cons outcome outcomes ih =>
      have hrest := ih (t.count outcome)
      have hone := t.count_total outcome
      simp only [List.foldl_cons, List.countP_cons, List.length_cons, decide_eq_true_eq] at hrest ⊢
      by_cases hblank : outcome = .blank
      · rw [if_pos hblank] at hone ⊢
        omega
      · rw [if_neg hblank] at hone ⊢
        omega

/-- The counts are numbers of outcomes, of texts and of warnings. -/
theorem foldl_count (t : Tally) (outcomes : List LineOutcome) :
    let r := outcomes.foldl count t
    let texts := outcomes.filterMap LineOutcome.output?
    r.samplesReceived = t.samplesReceived + outcomes.countP LineOutcome.isTaken ∧
      r.sumsEmitted = t.sumsEmitted + texts.length ∧
      r.triggers = t.triggers + texts.countP isMarked ∧
      r.unreadable + r.outOfRange =
        t.unreadable + t.outOfRange + (outcomes.filterMap LineOutcome.warning?).length := by
  induction outcomes generalizing t with
  | nil => simp
  | cons outcome outcomes ih =>
      obtain ⟨hsamples, hsums, htriggers, hfailures⟩ := ih (t.count outcome)
      simp only [List.foldl_cons, filterMap_cons_eq_append, List.length_append, List.countP_append,
        List.countP_cons]
      rw [hsamples, hsums, htriggers, hfailures]
      rcases outcome with _ | (_ | emission) | (⟨text, fault⟩ | refusal)
      · simp [count, LineOutcome.isTaken, LineOutcome.output?, LineOutcome.warning?]
      · simp [count, LineOutcome.isTaken, LineOutcome.output?, LineOutcome.warning?]
        omega
      · simp [count, LineOutcome.isTaken, LineOutcome.output?, LineOutcome.warning?,
          emission.isMarked_line]
        omega
      · simp [count, LineOutcome.isTaken, LineOutcome.output?, LineOutcome.warning?]
        omega
      · simp [count, LineOutcome.isTaken, LineOutcome.output?, LineOutcome.warning?]
        omega

end Tally

/-! ## Lines and resets -/

/-- A session and the tally of all lines that were handled, since before its last reset too. -/
structure Ledger where
  session : Session
  tally : Tally := {}

inductive Entry where
  /-- A line is handled. -/
  | line (text : String)
  /-- The session is reset; the tally is not. -/
  | reset
deriving DecidableEq, Repr

def Entry.line? : Entry → Option String
  | line text => some text
  | reset => none

namespace Ledger

/-- What a line gives, and where it or a reset leads. -/
def enter (l : Ledger) : Entry → Option LineOutcome × Ledger
  | .line text =>
    let (outcome, session) := l.session.handleLine text
    (some outcome, { session, tally := l.tally.count outcome })
  | .reset => (none, { l with session := l.session.reset })

def after (l : Ledger) (entries : List Entry) : Ledger :=
  (scan enter l entries).2

/-- What the lines give, in order. -/
def outcomes (l : Ledger) (entries : List Entry) : List LineOutcome :=
  (scan enter l entries).1.filterMap id

/-- The sessions as they are right before each reset, and as it is in the end. -/
def segmentEnds (l : Ledger) : List Entry → List Session
  | [] => [l.session]
  | .line text :: entries => (l.enter (.line text)).2.segmentEnds entries
  | .reset :: entries => l.session :: (l.enter .reset).2.segmentEnds entries

variable (l : Ledger)

@[simp] theorem outcomes_nil : l.outcomes [] = [] :=
  rfl

theorem outcomes_line (text : String) (entries : List Entry) :
    l.outcomes (.line text :: entries) =
      (l.session.handleLine text).1 :: (l.enter (.line text)).2.outcomes entries :=
  rfl

theorem outcomes_reset (entries : List Entry) :
    l.outcomes (.reset :: entries) = (l.enter .reset).2.outcomes entries :=
  rfl

theorem tally_after (entries : List Entry) :
    (l.after entries).tally = (l.outcomes entries).foldl Tally.count l.tally := by
  induction entries generalizing l with
  | nil => rfl
  | cons entry entries ih =>
      cases entry with
      | line text => exact ih (l.enter (.line text)).2
      | reset => exact ih (l.enter .reset).2

theorem length_outcomes (entries : List Entry) :
    (l.outcomes entries).length = (entries.filterMap Entry.line?).length := by
  induction entries generalizing l with
  | nil => rfl
  | cons entry entries ih =>
      cases entry with
      | line text =>
          rw [outcomes_line, List.length_cons, ih]
          rfl
      | reset => exact ih (l.enter .reset).2

theorem countP_blank_outcomes (entries : List Entry) :
    (l.outcomes entries).countP (· = .blank) =
      (entries.filterMap Entry.line?).countP isBlankLine := by
  induction entries generalizing l with
  | nil => rfl
  | cons entry entries ih =>
      cases entry with
      | line text =>
          rw [outcomes_line, List.countP_cons, ih]
          simp only [decide_eq_true_eq, Session.handleLine_blank_iff]
          change _ = (text :: entries.filterMap Entry.line?).countP isBlankLine
          rw [List.countP_cons]
          simp only [isBlankLine, decide_eq_true_eq]
      | reset => exact ih (l.enter .reset).2

/-- A count that each line moves by what it gives, and that a reset puts back to zero, adds up over
the segments. It may wrap within a segment, but it never gets ahead. -/
theorem sum_segmentEnds (count : Session → Position) (given : LineOutcome → Bool)
    (hline : ∀ s line, count (Session.handleLine s line).2 =
      count s + if given (Session.handleLine s line).1 then 1 else 0)
    (hreset : ∀ s : Session, count s.reset = 0) (entries : List Entry) :
    let total := ((l.segmentEnds entries).map fun s => (count s).toNat).sum
    let due := (count l.session).toNat + (l.outcomes entries).countP given
    total ≡ due [MOD UInt64.size] ∧ total ≤ due := by
  -- A line keeps the total due and the count of the running segment together; a reset closes the
  -- segment with what it has counted and starts the next from zero.
  induction entries generalizing l with
  | nil => simp [segmentEnds, Nat.ModEq]
  | cons entry entries ih =>
      cases entry with
      | line text =>
          obtain ⟨hmod, hle⟩ := ih (l.enter (.line text)).2
          have hcount : (count (l.enter (.line text)).2.session).toNat =
              ((count l.session).toNat +
                if given (l.session.handleLine text).1 then 1 else 0) % UInt64.size := by
            rw [show (l.enter (.line text)).2.session = (l.session.handleLine text).2 from rfl,
              hline, UInt64.toNat_add]
            split <;> rfl
          have hdue : (count (l.enter (.line text)).2.session).toNat ≤
              (count l.session).toNat + if given (l.session.handleLine text).1 then 1 else 0 :=
            hcount ▸ Nat.mod_le _ _
          rw [outcomes_line, List.countP_cons, segmentEnds]
          refine ⟨hmod.trans ?_, by omega⟩
          rw [hcount, Nat.add_comm (List.countP _ _) (ite _ _ _), ← Nat.add_assoc]
          exact (Nat.mod_modEq _ _).add_right _
      | reset =>
          obtain ⟨hmod, hle⟩ := ih (l.enter .reset).2
          rw [show (l.enter .reset).2.session = l.session.reset from rfl, hreset, UInt64.toNat_zero,
            Nat.zero_add] at hmod hle
          rw [outcomes_reset, segmentEnds, List.map_cons, List.sum_cons]
          exact ⟨hmod.add_left _, by omega⟩

/-- From zero on, the segments add up to what the lines gave, exactly if that fits a word. -/
theorem sum_segmentEnds_of_zero (count : Session → Position) (given : LineOutcome → Bool)
    (hline : ∀ s line, count (Session.handleLine s line).2 =
      count s + if given (Session.handleLine s line).1 then 1 else 0)
    (hreset : ∀ s : Session, count s.reset = 0) (hstart : count l.session = 0)
    (entries : List Entry) :
    let total := ((l.segmentEnds entries).map fun s => (count s).toNat).sum
    (l.outcomes entries).countP given ≡ total [MOD UInt64.size] ∧
      ((entries.filterMap Entry.line?).length < UInt64.size →
        (l.outcomes entries).countP given = total) := by
  obtain ⟨hmod, hle⟩ := l.sum_segmentEnds count given hline hreset entries
  rw [hstart, UInt64.toNat_zero, Nat.zero_add] at hmod hle
  refine ⟨hmod.symm, fun hlines => ?_⟩
  have hgiven : (l.outcomes entries).countP given < UInt64.size := by
    have hcountP := List.countP_le_length (p := given) (l := l.outcomes entries)
    rw [l.length_outcomes] at hcountP
    omega
  exact hmod.symm.eq_of_lt_of_lt hgiven (by omega)

/-- After any lines and resets from the start of a session on, the lines are blank, or counted as
samples or failures. The samples and the sums counted are those of the segments between the resets
added up, which a word may be too small to show; the sums are the texts that were given, the
triggers are those of them with a mark, and the failures are the warnings. -/
theorem accounts {config : SessionConfig} {start : Session}
    (hstart : Session.ofConfig config = .ok start) (entries : List Entry) :
    let ledger : Ledger := { session := start }
    let tally := (ledger.after entries).tally
    let lines := entries.filterMap Entry.line?
    let ends := ledger.segmentEnds entries
    let received := (ends.map fun s => s.samplesReceived.toNat).sum
    let emitted := (ends.map fun s => s.sumsEmitted.toNat).sum
    let texts := (ledger.outcomes entries).filterMap LineOutcome.output?
    lines.length =
        lines.countP isBlankLine + tally.samplesReceived + tally.unreadable + tally.outOfRange ∧
      tally.samplesReceived ≡ received [MOD UInt64.size] ∧
      tally.sumsEmitted ≡ emitted [MOD UInt64.size] ∧
      (lines.length < UInt64.size →
        tally.samplesReceived = received ∧ tally.sumsEmitted = emitted) ∧
      tally.sumsEmitted = texts.length ∧
      tally.triggers = texts.countP isMarked ∧
      ((ledger.outcomes entries).filterMap LineOutcome.warning?).length =
        tally.unreadable + tally.outOfRange := by
  intro ledger tally lines ends received emitted texts
  obtain ⟨hreceived, hemitted⟩ := Session.counts_ofConfig hstart
  have htally : tally = (ledger.outcomes entries).foldl Tally.count {} := ledger.tally_after entries
  have htotal := Tally.foldl_count_total {} (ledger.outcomes entries)
  obtain ⟨hsamples, hsums, htriggers, hfailures⟩ := Tally.foldl_count {} (ledger.outcomes entries)
  rw [← htally] at htotal hsamples hsums htriggers hfailures
  rw [ledger.length_outcomes, ledger.countP_blank_outcomes] at htotal
  simp only [Nat.zero_add] at htotal hsamples hsums htriggers hfailures
  have hgiven : tally.sumsEmitted =
      (ledger.outcomes entries).countP fun outcome => outcome.output?.isSome := by
    rw [hsums, List.length_filterMap_eq_countP]
  obtain ⟨hmodReceived, heqReceived⟩ :=
    ledger.sum_segmentEnds_of_zero Session.samplesReceived LineOutcome.isTaken
      (fun s line => (s.counts_handleLine line).1) (fun _ => rfl) hreceived entries
  obtain ⟨hmodEmitted, heqEmitted⟩ :=
    ledger.sum_segmentEnds_of_zero Session.sumsEmitted (fun outcome => outcome.output?.isSome)
      (fun s line => (s.counts_handleLine line).2) (fun _ => rfl) hemitted entries
  rw [← hsamples] at hmodReceived heqReceived
  rw [← hgiven] at hmodEmitted heqEmitted
  change _ + lines.countP isBlankLine = lines.length at htotal
  have hlines : lines.length =
      lines.countP isBlankLine + tally.samplesReceived + tally.unreadable + tally.outOfRange := by
    omega
  exact ⟨hlines, hmodReceived, hmodEmitted, fun h => ⟨heqReceived h, heqEmitted h⟩, hsums,
    htriggers, hfailures.symm⟩

theorem accounts_of_two_segments :
    let config : SessionConfig :=
      { aggregation := .downsample 2, edge := some { threshold := ⟨0x41200000⟩ } }
    let entries : List Entry :=
      [.line "1", .line "", .line "x", .line "1024", .line "3", .line "2", .reset, .line "1",
        .line "4", .line "10", .line "20"]
    ∃ start, Session.ofConfig config = .ok start ∧
      let ledger : Ledger := { session := start }
      let ends := ledger.segmentEnds entries
      (ledger.after entries).tally = ⟨7, 3, 1, 1, 1⟩ ∧
        (ends.map fun s => s.samplesReceived.toNat).sum = 7 ∧
        (ends.map fun s => s.sumsEmitted.toNat).sum = 3 ∧
        ((ledger.outcomes entries).filterMap LineOutcome.warning?).length = 2 := by
  intro config entries
  obtain ⟨start, hstart⟩ : ∃ start, Session.ofConfig config = .ok start := ⟨_, rfl⟩
  obtain ⟨-, -, -, hexact, -, -, hwarnings⟩ := accounts hstart entries
  obtain ⟨hreceived, hemitted⟩ := hexact (by decide)
  have htally : (Ledger.after { session := start } entries).tally = ⟨7, 3, 1, 1, 1⟩ := by
    cases hstart
    decide +kernel
  rw [htally] at hreceived hemitted hwarnings
  exact ⟨start, hstart, htally, hreceived.symm, hemitted.symm, hwarnings⟩

end Ledger

end DigitiserSums
