import DigitiserSums.Proofs.Output

/-!
# Output that is lost

A line of output waits in the buffer until the next one has no room behind it, or until the input
ends. A line of input that is no text ends the program at once, and whatever waits then is lost.
`Leaves` says which lines have gone out and which wait; a sum that was emitted last always waits, so
such a run loses output unless it had emitted nothing.
-/

namespace DigitiserSums

/-- The lines up to the first that is no text. -/
def Text.leadingTexts (lines : List (List UInt8)) : List String :=
  ((lines.map Text.decode?).takeWhile Option.isSome).reduceOption

namespace OutputBuffer

/-- The number of bytes of texts. -/
def size (texts : List String) : Nat :=
  (String.join texts).utf8ByteSize

/-- The texts that have gone out and those that wait, once all of them were handed over in order: a
text waits behind the others as long as there is room, and otherwise they leave. -/
inductive Leaves : List String → List String → Prop where
  | nothing : Leaves [] []
  | wait {gone waiting : List String} {text : String} : Leaves gone waiting →
      size (waiting ++ [text]) ≤ capacity → Leaves gone (waiting ++ [text])
  | leave {gone waiting : List String} {text : String} : Leaves gone waiting →
      capacity < size (waiting ++ [text]) → Leaves (gone ++ waiting) [text]

theorem size_concat (texts : List String) (text : String) :
    size (texts ++ [text]) = size texts + text.utf8ByteSize := by
  simp [size]

/-- What was handed over last waits. -/
theorem Leaves.gone_eq_nil {gone waiting : List String} (h : Leaves gone waiting)
    (hwaiting : waiting = []) : gone = [] := by
  cases h with
  | nothing => rfl
  | wait => simp at hwaiting
  | leave => simp at hwaiting

/-- What waits has room in the buffer, if each text has. -/
theorem Leaves.size_le {gone waiting : List String} (h : Leaves gone waiting)
    (hsmall : ∀ text ∈ gone ++ waiting, text.utf8ByteSize ≤ capacity) : size waiting ≤ capacity := by
  cases h with
  | nothing => decide
  | wait _ hroom => exact hroom
  | leave =>
      rw [← List.nil_append [_], size_concat]
      simpa [size] using hsmall _ (by simp)

/-- The buffer that these texts were handed to. -/
structure Holds (b : OutputBuffer) (gone waiting : List String) : Prop where
  leaves : Leaves gone waiting
  written_eq : b.written = String.join gone
  pending_eq : b.pending = String.join waiting

theorem holds_empty : ({} : OutputBuffer).Holds [] [] :=
  ⟨.nothing, rfl, rfl⟩

theorem Holds.push {b : OutputBuffer} {gone waiting : List String} (h : b.Holds gone waiting)
    (text : String) :
    ∃ gone' waiting', gone' ++ waiting' = gone ++ waiting ++ [text] ∧
      (b.push text).Holds gone' waiting' := by
  have hsize : b.pending.utf8ByteSize + text.utf8ByteSize = size (waiting ++ [text]) := by
    rw [size_concat, h.pending_eq, size]
  unfold OutputBuffer.push
  rw [hsize]
  split
  · next hfull =>
      refine ⟨gone ++ waiting, [text], rfl, .leave h.leaves hfull, ?_, ?_⟩
      · simp [flush, h.written_eq, h.pending_eq]
      · simp
  · next hroom =>
      refine ⟨gone, waiting ++ [text], by simp, .wait h.leaves (Nat.not_lt.1 hroom), ?_, ?_⟩
      · exact h.written_eq
      · simp [h.pending_eq]

end OutputBuffer

/-! ## Lines of output are short -/

theorem utf8ByteSize_ofList_le (cs : List Char) :
    (String.ofList cs).utf8ByteSize ≤ 4 * cs.length := by
  induction cs with
  | nil => decide
  | cons c cs ih =>
      have hc := c.utf8Size_le_four
      rw [String.ofList_cons, String.utf8ByteSize_append, String.utf8ByteSize_singleton,
        List.length_cons]
      omega

theorem Emission.utf8ByteSize_line_le (e : Emission) :
    e.line.utf8ByteSize ≤ OutputBuffer.capacity := by
  have hlength : (Nat.toDigits 10 e.sum.toNat).length ≤ 10 :=
    Nat.toDigits_length 10 _ 10 (by decide) (Nat.lt_trans e.sum.toNat_lt (by decide))
  have hdigits := utf8ByteSize_ofList_le (Nat.toDigits 10 e.sum.toNat)
  have hmark : (if e.trigger.isSome then ",trigger\n" else "\n" : String).utf8ByteSize ≤ 9 := by
    split <;> decide
  rw [Emission.line, String.utf8ByteSize_append]
  have hcapacity : OutputBuffer.capacity = 8192 := rfl
  omega

theorem Emission.line_ne_empty (e : Emission) : e.line ≠ "" := by
  intro h
  have hmark : (if e.trigger.isSome then ",trigger\n" else "\n" : String) ≠ "" := by
    split <;> decide
  exact hmark (String.append_eq_empty_iff.1 h).2

theorem join_eq_empty_iff {texts : List String} (h : ∀ text ∈ texts, text ≠ "") :
    String.join texts = "" ↔ texts = [] := by
  cases texts with
  | nil => simp
  | cons text texts =>
      have htext := h text List.mem_cons_self
      simp [htext]

/-- What a line gives is the line for some sum. -/
theorem LineOutcome.exists_of_output? {outcome : LineOutcome} {text : String}
    (h : outcome.output? = some text) : ∃ e : Emission, text = e.line := by
  cases outcome with
  | blank => cases h
  | failed fault => cases h
  | taken emission =>
      obtain ⟨e, -, rfl⟩ := Option.map_eq_some_iff.1 h
      exact ⟨e, rfl⟩

/-! ## Lines that are no text -/

namespace Program

open OutputBuffer

theorem leadingTexts_cons (line : List UInt8) (lines : List (List UInt8)) :
    Text.leadingTexts (line :: lines) =
      match Text.decode? line with
      | none => []
      | some text => text :: Text.leadingTexts lines := by
  unfold Text.leadingTexts
  rw [List.map_cons, List.takeWhile_cons]
  cases Text.decode? line <;> rfl

/-- The lines before the first that is no text are handled. Their output goes through the buffer, and
what waits there leaves only if there is no such line. -/
theorem feed_eq (s : Session) {out : OutputBuffer} {gone waiting : List String}
    (h : out.Holds gone waiting) (lines : List (List UInt8)) :
    ∃ gone' waiting', Leaves gone' waiting' ∧
      gone' ++ waiting' = gone ++ waiting ++
        (scan Session.handleLine s (Text.leadingTexts lines)).1.filterMap LineOutcome.output? ∧
      feed s out lines =
        if none ∈ lines.map Text.decode? then ⟨String.join gone', some (.input .notText)⟩
        else ⟨String.join (gone' ++ waiting'), none⟩ := by
  induction lines generalizing s out gone waiting with
  | nil =>
      refine ⟨gone, waiting, h.leaves, by simp [Text.leadingTexts], ?_⟩
      simp [feed, flush, h.written_eq, h.pending_eq]
  | cons line lines ih =>
      rw [leadingTexts_cons, feed]
      cases hline : Text.decode? line with
      | none =>
          refine ⟨gone, waiting, h.leaves, by simp, ?_⟩
          simp [hline, h.written_eq]
      | some text =>
          simp only [List.map_cons, hline, List.mem_cons, reduceCtorEq, false_or, scan_cons,
            filterMap_cons_eq_append]
          cases houtput : (s.handleLine text).1.output? with
          | none => simpa using ih (s.handleLine text).2 h
          | some output =>
              obtain ⟨gone', waiting', happend, hpush⟩ := h.push output
              simpa [happend] using ih (s.handleLine text).2 hpush

/-- Whatever the bytes are, the program handles their lines up to the first that is no text. Without
such a line it succeeds and writes every line for a sum. With one it fails, and it writes those lines
for the sums before it that had left the buffer; what waits is lost, so that nothing is lost exactly
if there was no sum at all. -/
theorem run_of_bytes {libraries : Libraries} {environment : String → Option String}
    {files : Files} {standardInput bytes : List UInt8} {words : List String} {line : CommandLine}
    {config : SessionConfig} {s : Session}
    (hline : CommandLine.parse environment words = .ok line)
    (hsetUp : setUp libraries line = .ok ())
    (hconfig : line.mode.config libraries.badName line.flags files = .ok config)
    (hsession : Session.ofConfig config = .ok s)
    (hbytes : inputBytes files standardInput line = .ok bytes) :
    let texts := Text.leadingTexts (Text.lines bytes)
    let emitted := config.outputLines (texts.filterMap fun line => lineSample? line.toList)
    (none ∉ (Text.lines bytes).map Text.decode? →
      run libraries environment files standardInput words = ⟨String.join emitted, none⟩) ∧
    (none ∈ (Text.lines bytes).map Text.decode? → ∃ gone waiting,
      emitted = gone ++ waiting ∧ Leaves gone waiting ∧ size waiting ≤ capacity ∧
        run libraries environment files standardInput words =
          ⟨String.join gone, some (.input .notText)⟩ ∧
        (String.join gone = String.join emitted ↔ emitted = [])) := by
  intro texts emitted
  have hrun := run_eq_feed hline hsetUp hconfig hsession hbytes
  have hemitted : emitted =
      (scan Session.handleLine s texts).1.filterMap LineOutcome.output? :=
    Session.outputLines_of_start hsession texts
  have hlines : ∀ text ∈ emitted, ∃ e : Emission, text = e.line := by
    intro text htext
    rw [hemitted] at htext
    obtain ⟨outcome, -, houtput⟩ := List.mem_filterMap.1 htext
    exact LineOutcome.exists_of_output? houtput
  obtain ⟨gone, waiting, hleaves, happend, hfeed⟩ := feed_eq s holds_empty (Text.lines bytes)
  rw [List.append_nil, List.nil_append, ← hemitted] at happend
  rw [← hrun, happend] at hfeed
  constructor
  · intro htexts
    rw [hfeed, if_neg htexts]
  · intro hbad
    refine ⟨gone, waiting, happend.symm, hleaves, hleaves.size_le ?_, ?_, ?_⟩
    · intro text htext
      obtain ⟨e, rfl⟩ := hlines text (happend ▸ htext)
      exact e.utf8ByteSize_line_le
    · rw [hfeed, if_pos hbad]
    · constructor
      · intro hjoin
        have hwaiting : String.join waiting = "" := by
          rw [← happend, String.join_append, eq_comm, ← String.append_empty (s := String.join gone),
            String.append_assoc, String.empty_append] at hjoin
          exact (String.append_right_inj _).1 hjoin
        have hnil : waiting = [] := by
          refine (join_eq_empty_iff fun text htext => ?_).1 hwaiting
          obtain ⟨e, rfl⟩ := hlines text (happend ▸ List.mem_append_right gone htext)
          exact e.line_ne_empty
        rw [← happend, hleaves.gone_eq_nil hnil, hnil, List.append_nil]
      · intro hnone
        rw [(List.append_eq_nil_iff.1 (happend.trans hnone)).1, hnone]

theorem run_of_bytes_of_blocks :
    let libraries : Libraries := ⟨(· == "info"), fun _ => .ok (), .mistyped⟩
    let environment : String → Option String := fun _ => none
    let files : Files := fun _ => .error .notFound
    let words := ["downsample", "--downsample-num", "2"]
    let line : CommandLine := ⟨none, {}, "info", none, .aggregate (.downsample 2)⟩
    let config : SessionConfig := { aggregation := .downsample 2 }
    let bytes : List UInt8 := Text.encode "7\nx\n3\n5\n6" ++ 0xff :: Text.encode "\n9\n9"
    ∃ s, CommandLine.parse environment words = .ok line ∧ setUp libraries line = .ok () ∧
      line.mode.config libraries.badName line.flags files = .ok config ∧
      Session.ofConfig config = .ok s ∧
      inputBytes files bytes line = .ok bytes ∧
      none ∈ (Text.lines bytes).map Text.decode? ∧
      config.outputLines ((Text.leadingTexts (Text.lines bytes)).filterMap fun line =>
        lineSample? line.toList) = ["10\n"] ∧
      run libraries environment files bytes words = ⟨"", some (.input .notText)⟩ := by
  intro libraries environment files words line config bytes
  obtain ⟨s, hsession⟩ : ∃ s, Session.ofConfig config = .ok s := ⟨_, rfl⟩
  have hline : CommandLine.parse environment words = .ok line :=
    toOption_eq_some_iff.1 (by decide +kernel)
  have hsetUp : setUp libraries line = .ok () := setUp_eq_ok_iff.2 ⟨rfl, nofun⟩
  have hconfig : line.mode.config libraries.badName line.flags files = .ok config := rfl
  have hbytes : inputBytes files bytes line = .ok bytes := rfl
  have hbad : none ∈ (Text.lines bytes).map Text.decode? := by decide +kernel
  have hemitted : config.outputLines ((Text.leadingTexts (Text.lines bytes)).filterMap fun line =>
      lineSample? line.toList) = ["10\n"] := by decide +kernel
  obtain ⟨gone, waiting, happend, -, -, hrun, hlost⟩ :=
    (run_of_bytes hline hsetUp hconfig hsession hbytes).2 hbad
  rw [hemitted] at happend hlost
  refine ⟨s, hline, hsetUp, hconfig, hsession, hbytes, hbad, hemitted, ?_⟩
  cases gone with
  | nil => exact hrun
  | cons text gone =>
      obtain ⟨rfl, hnil⟩ := List.cons.inj happend
      rw [(List.append_eq_nil_iff.1 hnil.symm).1] at hlost
      cases hlost.1 rfl

/-- Two sums are emitted, the next line is no text, and nothing is written. -/
theorem run_loses_sums :
    let libraries : Libraries := ⟨(· == "info"), fun _ => .ok (), .mistyped⟩
    let bytes : List UInt8 := Text.encode "1\n2\n" ++ [0xff]
    run libraries (fun _ => none) (fun _ => .error .notFound) bytes
        ["downsample", "--downsample-num", "1"] = ⟨"", some (.input .notText)⟩ ∧
      Text.leadingTexts (Text.lines bytes) = ["1", "2"] ∧
      SessionConfig.outputLines { aggregation := .downsample 1 } [1, 2] = ["1\n", "2\n"] := by
  intro libraries bytes
  obtain ⟨s, hsession, hfeed⟩ : ∃ s, Session.ofConfig { aggregation := .downsample 1 } = .ok s ∧
      feed s {} (Text.lines bytes) = ⟨"", some (.input .notText)⟩ := ⟨_, rfl, by decide +kernel⟩
  have hline : CommandLine.parse (fun _ => none) ["downsample", "--downsample-num", "1"] =
      .ok ⟨none, {}, "info", none, .aggregate (.downsample 1)⟩ :=
    toOption_eq_some_iff.1 (by decide +kernel)
  refine ⟨?_, by decide +kernel, by decide +kernel⟩
  rw [run_eq_feed hline (setUp_eq_ok_iff.2 ⟨rfl, nofun⟩) rfl hsession rfl, hfeed]

end Program

end DigitiserSums
