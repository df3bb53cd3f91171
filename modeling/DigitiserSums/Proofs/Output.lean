import DigitiserSums.Program
import DigitiserSums.Proofs.History
import DigitiserSums.Proofs.Lines
import DigitiserSums.Proofs.Numerals

/-!
# What the program writes

The samples of a text are read off its lines, the sums follow from the samples, and each sum is a
line of output. The program does all of this a line at a time, with one session and one buffer; a
run over any lines adds to the output what the samples on them add to the sums.
-/

namespace DigitiserSums

/-! ## The reference -/

/-- The sample on a line: digits between blanks, perhaps behind a plus sign, of at most 1023. -/
def lineSample? (line : List Char) : Option Sample :=
  ((Decimal.numeral? (Text.trim line)).filter (· ≤ 1023)).map .ofNat

/-- The samples in a text, a line at a time. -/
def Text.samples (text : String) : List Sample :=
  (text.toList.splitOn '\n').filterMap lineSample?

namespace SessionConfig

/-- The line for the sum at position `i`. -/
def outputLine (config : SessionConfig) (sums : List Nat) (sum i : Nat) : String :=
  toString sum ++
    if config.edge.any fun edge => edge.TriggersAt sums i then ",trigger\n" else "\n"

/-- The lines for the sums of samples. -/
def outputLines (config : SessionConfig) (xs : List Sample) : List String :=
  (config.sums xs).zipIdx.map fun (sum, i) => config.outputLine (config.sums xs) sum i

end SessionConfig

/-! ## The sample on a line -/

theorem toOption_sampleOfText (cs : List Char) :
    (sampleOfText cs).toOption =
      ((Decimal.numeral? cs).filter (· < UInt16.size)).map .ofNat := by
  rw [← Decimal.toOption_naturalBelow (by decide), sampleOfText]
  cases Decimal.naturalBelow UInt16.size cs <;> rfl

theorem lineSample?_eq (line : List Char) :
    lineSample? line = (sampleOfText (Text.trim line)).toOption.filter (· ≤ 1023) := by
  unfold lineSample?
  rw [toOption_sampleOfText]
  cases Decimal.numeral? (Text.trim line) with
  | none => rfl
  | some n =>
      by_cases hn : n ≤ 1023
      · have hlt : n < UInt16.size := Nat.lt_of_le_of_lt hn (by decide)
        have hle : UInt16.ofNat n ≤ 1023 := by
          rw [UInt16.le_iff_toNat_le, UInt16.toNat_ofNat_of_lt' hlt]
          exact hn
        simp [Option.filter, hn, hlt, hle]
      · by_cases hlt : n < UInt16.size
        · have hle : ¬ UInt16.ofNat n ≤ 1023 := by
            rw [UInt16.le_iff_toNat_le, UInt16.toNat_ofNat_of_lt' hlt]
            exact hn
          simp [Option.filter, hn, hlt, hle]
        · simp [Option.filter, hn, hlt]

theorem lineSample?_eq_some_iff {line : List Char} {x : Sample} :
    lineSample? line = some x ↔ sampleOfText (Text.trim line) = .ok x ∧ x ≤ 1023 := by
  rw [lineSample?_eq, Option.filter_eq_some_iff]
  simp only [toOption_eq_some_iff, decide_eq_true_eq]

namespace Session

theorem handleLine_of_ok (s : Session) {line : String} {x : Sample}
    (h : sampleOfText (Text.trim line.toList) = .ok x) :
    s.handleLine line =
      match s.push x with
      | .error e => (.failed (.outOfRange e), s)
      | .ok (emission, next) => (.taken emission, next) := by
  have hne : Text.trim line.toList ≠ [] := by
    intro hnil
    rw [hnil] at h
    cases h
  unfold handleLine
  rw [if_neg hne, s.processLine_of_ok h]
  cases s.push x <;> rfl

theorem handleLine_of_error (s : Session) {line : String} {fault : Decimal.NaturalFault}
    (h : sampleOfText (Text.trim line.toList) = .error fault) :
    s.handleLine line =
      (if Text.trim line.toList = [] then .blank
        else .failed (.unreadable (Text.trim line.toList) fault), s) := by
  unfold handleLine
  rw [s.processLine_of_error h]
  split <;> rfl

/-- A line without a sample in range is passed over. -/
theorem handleLine_of_lineSample?_eq_none (s : Session) {line : String}
    (hnone : lineSample? line.toList = none) :
    ((s.handleLine line).1 = .blank ∨ ∃ fault, (s.handleLine line).1 = .failed fault) ∧
      (s.handleLine line).2 = s := by
  cases htext : sampleOfText (Text.trim line.toList) with
  | error fault =>
      rw [s.handleLine_of_error htext]
      split
      · exact ⟨.inl rfl, rfl⟩
      · exact ⟨.inr ⟨_, rfl⟩, rfl⟩
  | ok x =>
      have hx : ¬ x ≤ 1023 := by
        intro hle
        rw [lineSample?_eq_some_iff.2 ⟨htext, hle⟩] at hnone
        cases hnone
      rw [s.handleLine_of_ok htext, s.push_eq_error hx]
      exact ⟨.inr ⟨_, rfl⟩, rfl⟩

theorem output?_handleLine_of_lineSample? (s : Session) {line : String}
    (hnone : lineSample? line.toList = none) : (s.handleLine line).1.output? = none := by
  rcases (s.handleLine_of_lineSample?_eq_none hnone).1 with hblank | ⟨fault, hfailed⟩
  · rw [hblank]
    rfl
  · rw [hfailed]
    rfl

end Session

theorem filterMap_cons_eq_append {α β : Type} (f : α → Option β) (a : α) (l : List α) :
    (a :: l).filterMap f = (f a).toList ++ l.filterMap f := by
  rw [List.filterMap_cons]
  cases f a <;> rfl

/-! ## A sum more -/

namespace SessionConfig

/-- Later sums do not change a line. -/
theorem outputLine_append (config : SessionConfig) {sums : List Nat} (more : List Nat) (sum : Nat)
    {i : Nat} (hi : i < sums.length) :
    config.outputLine (sums ++ more) sum i = config.outputLine sums sum i := by
  unfold outputLine
  cases config.edge with
  | none => simp
  | some edge => simp only [Option.any_some, EdgeSettings.triggersAt_append more hi]

/-- The line for the newest sum is the one that the session writes. -/
theorem outputLine_concat (config : SessionConfig) (sums : List Nat) {sum : Nat} (index : Position)
    (hsum : (UInt32.ofNat sum).toNat = sum) :
    config.outputLine (sums ++ [sum]) sum sums.length =
      Emission.line
        { sampleIndex := index
          sum := .ofNat sum
          trigger := config.edge.bind fun edge => edge.trigger? sums sum } := by
  unfold outputLine Emission.line
  rw [hsum, Nat.toString_eq_ofList_toDigits]
  cases config.edge with
  | none => simp
  | some edge =>
      unfold EdgeSettings.trigger?
      by_cases ht : edge.TriggersAt (sums ++ [sum]) sums.length
      · simp [ht]
      · simp [ht]

end SessionConfig

namespace Session.Holds

variable {s : Session} {config : SessionConfig} {xs : List Sample}

theorem outputLines_concat (h : s.Holds config xs) {x : Sample} (hx : x ≤ 1023) :
    config.outputLines (xs ++ [x]) =
      config.outputLines xs ++ ((config.emission? xs x).map Emission.line).toList := by
  unfold SessionConfig.outputLines SessionConfig.emission?
  rw [config.sums_concat]
  cases hdue : config.aggregation.due (config.numbers (xs ++ [x])) with
  | none => simp
  | some sum =>
      have hsum := toNat_ofNat_due h hx hdue
      have hearlier : ∀ p ∈ (config.sums xs).zipIdx,
          config.outputLine (config.sums xs ++ [sum]) p.1 p.2 =
            config.outputLine (config.sums xs) p.1 p.2 := by
        intro p hp
        apply config.outputLine_append
        simpa using List.snd_lt_of_mem_zipIdx hp
      simp only [Option.toList_some, List.zipIdx_append, List.map_append, Option.map_some]
      rw [List.map_congr_left hearlier, ← config.outputLine_concat _ _ hsum]
      simp

/-! ## A line more -/

/-- A line adds to the output what its sample adds to the sums. -/
theorem outputLines_handleLine (h : s.Holds config xs) (line : String) :
    config.outputLines (xs ++ (lineSample? line.toList).toList) =
        config.outputLines xs ++ (s.handleLine line).1.output?.toList ∧
      (s.handleLine line).2.Holds config (xs ++ (lineSample? line.toList).toList) := by
  have hholds : (lineSample? line.toList).toList =
      (sampleOfText (Text.trim line.toList)).toOption.toList.filter (· ≤ 1023) := by
    rw [lineSample?_eq, Option.toList_filter]
  refine ⟨?_, hholds ▸ h.handleLine line⟩
  cases hx : lineSample? line.toList with
  | some x =>
      obtain ⟨htext, hle⟩ := lineSample?_eq_some_iff.1 hx
      obtain ⟨next, hpush, -⟩ := h.push hle
      rw [s.handleLine_of_ok htext, hpush]
      exact h.outputLines_concat hle
  | none =>
      rw [s.output?_handleLine_of_lineSample? hx]
      simp

/-- So do any lines. -/
theorem outputLines_scan (h : s.Holds config xs) (lines : List String) :
    config.outputLines (xs ++ lines.filterMap fun line => lineSample? line.toList) =
      config.outputLines xs ++
        (scan Session.handleLine s lines).1.filterMap LineOutcome.output? := by
  induction lines generalizing s xs with
  | nil => simp
  | cons line lines ih =>
      obtain ⟨hline, hnext⟩ := h.outputLines_handleLine line
      have hrest := ih hnext
      rw [hline, List.append_assoc, List.append_assoc] at hrest
      rw [scan_cons, filterMap_cons_eq_append, filterMap_cons_eq_append, hrest]

end Session.Holds

/-! ## The program -/

/-- Lines that are handed to a new session give the lines of output for the samples on them. -/
theorem Session.outputLines_of_start {s : Session} {config : SessionConfig}
    (h : Session.ofConfig config = .ok s) (lines : List String) :
    config.outputLines (lines.filterMap fun line => lineSample? line.toList) =
      (scan Session.handleLine s lines).1.filterMap LineOutcome.output? := by
  have hholds := Session.holds_ofConfig h
  have hempty : config.outputLines [] = [] := by
    rw [SessionConfig.outputLines, SessionConfig.sums, SessionConfig.numbers, List.map_nil,
      Aggregation.sums_nil hholds.size_pos]
    rfl
  have hscan := hholds.outputLines_scan lines
  rwa [hempty, List.nil_append, List.nil_append] at hscan

theorem lineSample?_nil : lineSample? [] = none := rfl

namespace Program

/-- A session that is handed the lines of a text writes what the samples in the text call for. -/
theorem feed_lines_encode {s : Session} {config : SessionConfig}
    (h : Session.ofConfig config = .ok s) (text : String) :
    feed s {} (Text.lines (Text.encode text)) =
      ⟨String.join (config.outputLines (Text.samples text)), none⟩ := by
  have hlines : Text.lines (Text.encode text) =
      ((Text.linesOf text.toList).map String.ofList).map Text.encode := by
    rw [← Text.lines_encode, String.ofList_toList]
  have hsamples : Text.samples text =
      ((Text.linesOf text.toList).map String.ofList).filterMap fun line =>
        lineSample? line.toList := by
    rw [List.filterMap_map, Text.samples, ← Text.filterMap_linesOf lineSample?_nil]
    simp
  rw [hlines, feed_encode, hsamples, Session.outputLines_of_start h, OutputBuffer.text_empty,
    String.empty_append]

section Run

variable {libraries : Libraries} {environment : String → Option String} {files : Files}
  {standardInput bytes : List UInt8} {words : List String} {line : CommandLine}
  {config : SessionConfig} {s : Session}

theorem setUp_eq_ok_iff : setUp libraries line = .ok () ↔
    libraries.isLogFilter line.logFilter = true ∧
      ∀ address ∈ line.address, libraries.serve address = .ok () := by
  unfold setUp
  split
  · next hfilter =>
      cases line.address with
      | none => simp [hfilter]
      | some address => simp [hfilter, mapError_eq_ok_iff]
  · next hfilter => simp [hfilter]

theorem startSession_eq_ok (hsetUp : setUp libraries line = .ok ())
    (hconfig : line.mode.config libraries.badName line.flags files = .ok config)
    (hsession : Session.ofConfig config = .ok s) : startSession libraries files line = .ok s := by
  refine bind_eq_ok_iff.2 ⟨(), hsetUp, ?_⟩
  refine bind_eq_ok_iff.2 ⟨config, ?_, ?_⟩
  · rw [hconfig]
    rfl
  · rw [hsession]
    rfl

/-- Once everything is in order, a run is the feeding of a session. -/
theorem run_eq_feed (hline : CommandLine.parse environment words = .ok line)
    (hsetUp : setUp libraries line = .ok ())
    (hconfig : line.mode.config libraries.badName line.flags files = .ok config)
    (hsession : Session.ofConfig config = .ok s)
    (hbytes : inputBytes files standardInput line = .ok bytes) :
    run libraries environment files standardInput words = feed s {} (Text.lines bytes) := by
  have hstart := startSession_eq_ok hsetUp hconfig hsession
  simp only [run, hline, Except.mapError, bind, Except.bind, hstart, hbytes, pure, Except.pure]

/-- On the bytes of a text the program succeeds, whatever stands on the lines, and writes the lines
for the samples in the text. -/
theorem run_of_text {text : String} (hline : CommandLine.parse environment words = .ok line)
    (hsetUp : setUp libraries line = .ok ())
    (hconfig : line.mode.config libraries.badName line.flags files = .ok config)
    (hsession : Session.ofConfig config = .ok s)
    (hbytes : inputBytes files standardInput line = .ok bytes)
    (htext : Text.decode? bytes = some text) :
    run libraries environment files standardInput words =
        ⟨String.join (config.outputLines (Text.samples text)), none⟩ ∧
      (run libraries environment files standardInput words).exitCode = 0 := by
  have hfeed := feed_lines_encode hsession text
  rw [← Text.eq_encode_of_decode? htext,
    ← run_eq_feed hline hsetUp hconfig hsession hbytes] at hfeed
  exact ⟨hfeed, by rw [hfeed]; rfl⟩

end Run

theorem run_of_text_of_blocks :
    let libraries : Libraries := ⟨(· == "info"), fun _ => .ok (), .mistyped⟩
    let environment : String → Option String := fun _ => none
    let files : Files := fun _ => .error .notFound
    let words :=
      ["--observability-address", "127.0.0.1:9090", "downsample", "--downsample-num", "2"]
    let line : CommandLine :=
      ⟨none, {}, "info", some ⟨.v4 127 0 0 1, 9090⟩, .aggregate (.downsample 2)⟩
    let config : SessionConfig := { aggregation := .downsample 2 }
    let text := " +7\r\n\nx\n2000\n0003\n5\n6"
    ∃ s, CommandLine.parse environment words = .ok line ∧ setUp libraries line = .ok () ∧
      line.mode.config libraries.badName line.flags files = .ok config ∧
      Session.ofConfig config = .ok s ∧
      inputBytes files (Text.encode text) line = .ok (Text.encode text) ∧
      Text.decode? (Text.encode text) = some text ∧
      run libraries environment files (Text.encode text) words = ⟨"10\n11\n", none⟩ := by
  intro libraries environment files words line config text
  obtain ⟨s, hsession⟩ : ∃ s, Session.ofConfig config = .ok s := ⟨_, rfl⟩
  have hline : CommandLine.parse environment words = .ok line :=
    toOption_eq_some_iff.1 (by decide +kernel)
  have hsetUp : setUp libraries line = .ok () := setUp_eq_ok_iff.2 ⟨rfl, fun _ _ => rfl⟩
  have hconfig : line.mode.config libraries.badName line.flags files = .ok config := rfl
  have hbytes : inputBytes files (Text.encode text) line = .ok (Text.encode text) := rfl
  have htext := Text.decode?_encode text
  have h := (run_of_text hline hsetUp hconfig hsession hbytes htext).1
  have hlines : config.outputLines (Text.samples text) = ["10\n", "11\n"] := by decide +kernel
  rw [hlines] at h
  exact ⟨s, hline, hsetUp, hconfig, hsession, hbytes, htext, h⟩

end Program

end DigitiserSums
