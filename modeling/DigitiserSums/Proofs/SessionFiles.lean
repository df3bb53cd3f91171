import DigitiserSums.Proofs.Buffering

/-!
# Sessions from files

What a session is configured to do comes from flags or from a file, and nothing else in the program
looks at either of them. So a file that says what the flags say makes the program do the same; and
flags that are given beside a file are named in a warning and have no other effect.
-/

namespace DigitiserSums

/-! ## Flags by name -/

/-- A flag that has a say in the configuration of a session. -/
inductive SessionFlag where
  | absoluteValue
  | foldPolicy
  | threshold
  | edgeKind
  | settlingTime
  | edgeNum
deriving DecidableEq, Repr

namespace SessionFlag

/-- The flags in the order in which a warning names them. -/
def all : List SessionFlag :=
  [absoluteValue, foldPolicy, threshold, edgeKind, settlingTime, edgeNum]

theorem mem_all (flag : SessionFlag) : flag ∈ all := by
  cases flag <;> simp [all]

def name : SessionFlag → String
  | absoluteValue => "--absolute-value"
  | foldPolicy => "--fold-policy"
  | threshold => "--threshold"
  | edgeKind => "--edge-type"
  | settlingTime => "--settling-time"
  | edgeNum => "--edge-num"

end SessionFlag

namespace SessionFlags

/-- The flag has another value than without anything given. -/
def Differs (flags : SessionFlags) : SessionFlag → Prop
  | .absoluteValue => flags.absoluteValue ≠ ({} : SessionFlags).absoluteValue
  | .foldPolicy => flags.foldPolicy ≠ ({} : SessionFlags).foldPolicy
  | .threshold => flags.threshold ≠ ({} : SessionFlags).threshold
  | .edgeKind => flags.edgeKind ≠ ({} : SessionFlags).edgeKind
  | .settlingTime => flags.settlingTime ≠ ({} : SessionFlags).settlingTime
  | .edgeNum => flags.edgeNum ≠ ({} : SessionFlags).edgeNum

instance (flags : SessionFlags) (flag : SessionFlag) : Decidable (flags.Differs flag) := by
  cases flag <;> exact inferInstanceAs (Decidable (_ ≠ _))

/-- The flags that differ from their defaults, in order. -/
def differing (flags : SessionFlags) : List SessionFlag :=
  SessionFlag.all.filter fun flag => flags.Differs flag

theorem marks_eq (flags : SessionFlags) :
    flags.marks = SessionFlag.all.map fun flag => (flag.name, decide (flags.Differs flag)) := by
  have hthreshold : flags.threshold.isSome = decide (flags.threshold ≠ none) := by
    cases flags.threshold <;> rfl
  have habsolute : flags.absoluteValue = decide (flags.absoluteValue ≠ false) := by
    cases flags.absoluteValue <;> rfl
  unfold marks
  rw [hthreshold]
  simp only [SessionFlag.all, List.map_cons, List.map_nil]
  rw [habsolute]
  rfl

theorem given_eq (flags : SessionFlags) : flags.given = flags.differing.map SessionFlag.name := by
  rw [given, marks_eq, differing, List.filter_map, List.map_map]
  rfl

theorem differing_eq_nil_iff (flags : SessionFlags) :
    flags.differing = [] ↔ ∀ flag, ¬ flags.Differs flag := by
  rw [differing, List.filter_eq_nil_iff]
  constructor
  · intro h flag hdiffers
    exact h flag (SessionFlag.mem_all flag) (decide_eq_true hdiffers)
  · intro h flag _ hdiffers
    exact h flag (of_decide_eq_true hdiffers)

end SessionFlags

namespace Mode

/-- There is a warning if a flag differs from its default. -/
theorem isSome_warning?_iff (flags : SessionFlags) (name : String) :
    ((fromFile name).warning? flags).isSome ↔ ∃ flag, flags.Differs flag := by
  have hnone := flags.differing_eq_nil_iff
  rw [← List.map_eq_nil_iff, ← flags.given_eq] at hnone
  simp only [warning?]
  by_cases hgiven : flags.given = []
  · rw [if_pos hgiven]
    simpa using hnone.1 hgiven
  · rw [if_neg hgiven]
    rw [hnone] at hgiven
    simpa using hgiven

/-- It names the flags that do. -/
theorem eq_of_mem_warning? {flags : SessionFlags} {name warning : String}
    (h : warning ∈ (fromFile name).warning? flags) :
    warning = "Session read from " ++ name ++ ", ignoring " ++
      ", ".intercalate (flags.differing.map SessionFlag.name) := by
  rw [← flags.given_eq]
  simp only [warning?] at h
  split at h
  · contradiction
  · cases h
    rfl

theorem config_of_ofText {badName : Json.Reader.BadName} {flags : SessionFlags} {files : Files}
    {name text : String} {config : SessionConfig} (hfile : files.text name = .ok text)
    (htext : Description.ofText badName text = .ok config) :
    (fromFile name).config badName flags files = .ok config := by
  simp only [Mode.config, hfile, htext]
  rfl

end Mode

/-! ## The program -/

/-- Command lines that ask for the same samples, and for the same log and metrics. -/
structure CommandLine.SameInput (line line' : CommandLine) : Prop where
  input_eq : line'.input = line.input
  logFilter_eq : line'.logFilter = line.logFilter
  address_eq : line'.address = line.address

namespace Program

variable (libraries : Libraries) {environment : String → Option String} (files : Files)
  (standardInput : List UInt8) {words words' : List String} {line line' : CommandLine}

/-- The program looks at flags and at the mode for the configuration only. -/
theorem run_congr (hline : CommandLine.parse environment words = .ok line)
    (hline' : CommandLine.parse environment words' = .ok line') (hsame : line.SameInput line')
    (hconfig : line'.mode.config libraries.badName line'.flags files =
      line.mode.config libraries.badName line.flags files) :
    run libraries environment files standardInput words' =
      run libraries environment files standardInput words := by
  have hstart : startSession libraries files line' = startSession libraries files line := by
    simp only [startSession, setUp, hsame.logFilter_eq, hsame.address_eq, hconfig]
  have hbytes : inputBytes files standardInput line' = inputBytes files standardInput line := by
    simp only [inputBytes, hsame.input_eq]
  simp only [run, hline, hline', Except.mapError, bind, Except.bind, hstart, hbytes]

/-- Let a program be run twice on the same input, the second time with a session file and with any
flags. If the file describes what the first run was configured to do, both do the same, whether that
succeeds or not. If the first run had the same file, both do the same whatever is in the file. So
flags beside a file change nothing but the warning, which is there if a flag differs from its
default, and names the flags that do. -/
theorem run_fromFile {name : String} (hline : CommandLine.parse environment words = .ok line)
    (hline' : CommandLine.parse environment words' = .ok line') (hsame : line.SameInput line')
    (hmode : line'.mode = .fromFile name) :
    (∀ config text, line.mode.config libraries.badName line.flags files = .ok config →
      files.text name = .ok text → Description.ofText libraries.badName text = .ok config →
        run libraries environment files standardInput words' =
          run libraries environment files standardInput words) ∧
    (line.mode = .fromFile name →
      line'.mode.config libraries.badName line'.flags files =
          line.mode.config libraries.badName line.flags files ∧
        run libraries environment files standardInput words' =
          run libraries environment files standardInput words) ∧
    ((line'.mode.warning? line'.flags).isSome ↔ ∃ flag, line'.flags.Differs flag) ∧
    ∀ warning ∈ line'.mode.warning? line'.flags, warning =
      "Session read from " ++ name ++ ", ignoring " ++
        ", ".intercalate (line'.flags.differing.map SessionFlag.name) := by
  refine ⟨fun config text hconfig hfile htext => ?_, fun hfirst => ?_, ?_, ?_⟩
  · apply run_congr libraries files standardInput hline hline' hsame
    rw [hmode, hconfig]
    exact Mode.config_of_ofText hfile htext
  · have hconfig : line'.mode.config libraries.badName line'.flags files =
        line.mode.config libraries.badName line.flags files := by
      rw [hmode, hfirst]
      exact Mode.config_fromFile _ _ _ _ _
    exact ⟨hconfig, run_congr libraries files standardInput hline hline' hsame hconfig⟩
  · rw [hmode]
    exact Mode.isSome_warning?_iff _ _
  · rw [hmode]
    exact fun _ => Mode.eq_of_mem_warning?

/-- Edges asked for without a threshold are not counted on either way. -/
theorem run_fromFile_of_no_threshold :
    let libraries : Libraries := ⟨(· == "info"), fun _ => .ok (), .mistyped⟩
    let environment : String → Option String := fun _ => none
    let text := "\x7b\"aggregation\":\x7b\"downsample\":\x7b\"downsample-num\":2\x7d\x7d\x7d"
    let files : Files := fun _ => .ok (Text.encode text)
    let words := ["--edge-num", "3", "downsample", "--downsample-num", "2"]
    let words' := ["--settling-time", "7", "--fold-policy", "offset", "from-config", "--path", "s"]
    let line : CommandLine := ⟨none, { edgeNum := 3 }, "info", none, .aggregate (.downsample 2)⟩
    let line' : CommandLine :=
      ⟨none, { settlingTime := 7, foldPolicy := .offset }, "info", none, .fromFile "s"⟩
    let config : SessionConfig := { aggregation := .downsample 2 }
    let bytes := Text.encode "4\n700\n"
    CommandLine.parse environment words = .ok line ∧
      CommandLine.parse environment words' = .ok line' ∧
      line.mode.config libraries.badName line.flags files = .ok config ∧ files.text "s" = .ok text ∧
      Description.ofText libraries.badName text = .ok config ∧
      run libraries environment files bytes words' = run libraries environment files bytes words ∧
      run libraries environment files bytes words = ⟨"704\n", none⟩ ∧
      line'.mode.warning? line'.flags =
        some "Session read from s, ignoring --fold-policy, --settling-time" := by
  intro libraries environment text files words words' line line' config bytes
  have hline : CommandLine.parse environment words = .ok line :=
    toOption_eq_some_iff.1 (by decide +kernel)
  have hline' : CommandLine.parse environment words' = .ok line' :=
    toOption_eq_some_iff.1 (by decide +kernel)
  have hconfig : line.mode.config libraries.badName line.flags files = .ok config := rfl
  have hfile : files.text "s" = .ok text := Files.text_of_encode rfl
  have htext : Description.ofText libraries.badName text = .ok config :=
    toOption_eq_some_iff.1 (by decide +kernel)
  obtain ⟨hrun, -, hsome, hwarning⟩ :=
    run_fromFile libraries files bytes hline hline' ⟨rfl, rfl, rfl⟩ rfl
  obtain ⟨warning, hgiven⟩ := Option.isSome_iff_exists.1 (hsome.2 ⟨.foldPolicy, by decide⟩)
  refine ⟨hline, hline', hconfig, hfile, htext, hrun config text hconfig hfile htext, ?_, ?_⟩
  · obtain ⟨s, hsession⟩ : ∃ s, Session.ofConfig config = .ok s := ⟨_, rfl⟩
    rw [run_eq_feed hline (setUp_eq_ok_iff.2 ⟨rfl, nofun⟩) hconfig hsession rfl]
    cases hsession
    decide +kernel
  · rw [hgiven, hwarning warning hgiven]
    decide +kernel

end Program

end DigitiserSums
