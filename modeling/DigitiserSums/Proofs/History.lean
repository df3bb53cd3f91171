import DigitiserSums.Proofs.Aggregators
import DigitiserSums.Proofs.Crossings
import DigitiserSums.Proofs.Success
import DigitiserSums.SampleLine

/-!
# What a session has taken

A session in use is described by the samples it took since its start or last reset. `Holds` is the
invariant of every run of pushes, lines and resets; from it follows what the next push gives, in
terms of these samples alone.
-/

namespace DigitiserSums

/-! ## The configuration in numbers -/

namespace SessionConfig

/-- What becomes of a sample of the deployed width before it is added. -/
def fold (config : SessionConfig) (x : Nat) : Nat :=
  if config.absoluteValue ∧ x < 512 then
    match config.foldPolicy with
    | .reflect => 1023 - x
    | .offset => x + 512
  else x

/-- The samples as they are added. -/
def numbers (config : SessionConfig) (xs : List Sample) : List Nat :=
  xs.map fun x => config.fold x.toNat

/-- The sums of the samples, in order. -/
def sums (config : SessionConfig) (xs : List Sample) : List Nat :=
  config.aggregation.sums (config.numbers xs)

/-- What is emitted when the last of the samples `xs ++ [x]` arrives. -/
def emission? (config : SessionConfig) (xs : List Sample) (x : Sample) : Option Emission :=
  (config.aggregation.due (config.numbers (xs ++ [x]))).map fun sum =>
    { sampleIndex := .ofNat xs.length
      sum := .ofNat sum
      trigger := config.edge.bind fun edge => edge.trigger? (config.sums xs) sum }

@[simp] theorem length_numbers (config : SessionConfig) (xs : List Sample) :
    (config.numbers xs).length = xs.length := by
  simp [numbers]

theorem numbers_concat (config : SessionConfig) (xs : List Sample) (x : Sample) :
    config.numbers (xs ++ [x]) = config.numbers xs ++ [config.fold x.toNat] := by
  simp [numbers]

theorem sums_concat (config : SessionConfig) (xs : List Sample) (x : Sample) :
    config.sums (xs ++ [x]) =
      config.sums xs ++ (config.aggregation.due (config.numbers (xs ++ [x]))).toList := by
  rw [sums, numbers_concat, Aggregation.sums_concat]
  rfl

theorem toNat_rectify (config : SessionConfig) (x : Sample) :
    (config.rectifier.rectify x).toNat = config.fold x.toNat := by
  have hmid : deployedWidth.midpoint.toNat = 512 := by decide
  have htop : deployedWidth.fullScale.toNat = 1023 := by decide
  unfold fold
  by_cases hen : config.absoluteValue = true
  · by_cases hlow : x.toNat < 512
    · have hlt : x < deployedWidth.midpoint := UInt16.lt_iff_toNat_lt.2 (by rw [hmid]; exact hlow)
      rw [if_pos ⟨hen, hlow⟩, Rectifier.toNat_rectify hen hlt, hmid, htop]
      rfl
    · have hle : deployedWidth.midpoint ≤ x := UInt16.le_iff_toNat_le.2 (by omega)
      rw [if_neg (fun h => hlow h.2), Rectifier.rectify_of_midpoint_le _ hle]
  · have hoff : config.rectifier.enabled = false := by simpa [rectifier] using hen
    rw [if_neg (fun h => hen h.1), Rectifier.rectify_of_not_enabled hoff]

theorem numbers_rectifier (config : SessionConfig) (xs : List Sample) :
    config.rectifier.numbers xs = config.numbers xs :=
  List.map_congr_left fun x _ => config.toNat_rectify x

end SessionConfig

namespace Session

/-! ## Steps -/

/-- What may be done to a session. -/
inductive Step where
  | push (x : Sample)
  | processLine (line : String)
  | handleLine (line : String)
  | reset
deriving DecidableEq, Repr

/-- What a step gives. -/
inductive Reply where
  | pushed (result : Except SampleOutOfRange (Option Emission))
  | processed (result : Except LineFault (Option Emission))
  | handled (outcome : LineOutcome)
  | reset

/-- A refused step leaves the session where it was. -/
def orKeep {ε : Type} (s : Session) :
    Except ε (Option Emission × Session) → Except ε (Option Emission) × Session
  | .error e => (.error e, s)
  | .ok (emission, next) => (.ok emission, next)

/-- One step. -/
def step (s : Session) : Step → Reply × Session
  | .push x => (s.orKeep (s.push x)).map .pushed id
  | .processLine line => (s.orKeep (s.processLine line)).map .processed id
  | .handleLine line => (s.handleLine line).map .handled id
  | .reset => (.reset, s.reset)

/-- The session after some steps. -/
def after (s : Session) (steps : List Step) : Session :=
  (scan step s steps).2

/-- The sample that a step brings, in range or not. -/
def Step.sample? : Step → Option Sample
  | push x => some x
  | processLine line => (sampleOfText (Text.trim line.toList)).toOption
  | handleLine line => (sampleOfText (Text.trim line.toList)).toOption
  | reset => none

/-- The samples taken once a step is added to those that led to `xs`. -/
def takenNext (xs : List Sample) : Step → List Sample
  | .reset => []
  | step => xs ++ step.sample?.toList.filter (· ≤ 1023)

/-- The samples in range that the steps brought since the last reset. -/
def taken (steps : List Step) : List Sample :=
  steps.foldl takenNext []

/-! ## The invariant -/

/-- The session after `xs` was taken, all of it in range. -/
structure Holds (s : Session) (config : SessionConfig) (xs : List Sample) : Prop where
  pipeline : s.pipeline.Holds xs
  aggregation_eq : s.pipeline.aggregation = config.aggregation
  rectifier_eq : s.pipeline.rectifier = config.rectifier
  settings_eq : s.edgeCounter.map EdgeCounter.settings = config.edge
  edgeCounter : ∀ c ∈ s.edgeCounter, c.Holds (config.sums xs)
  samplesReceived_eq : s.samplesReceived = .ofNat xs.length
  sumsEmitted_eq : s.sumsEmitted = .ofNat (config.sums xs).length

variable {s : Session} {config : SessionConfig} {xs : List Sample}

theorem Holds.size_pos (h : s.Holds config xs) : 0 < config.aggregation.size :=
  h.aggregation_eq ▸ s.pipeline.size_aggregation_pos

theorem Holds.size_le (h : s.Holds config xs) : config.aggregation.size ≤ 255 :=
  h.aggregation_eq ▸ s.pipeline.size_aggregation_le

theorem Holds.length_sums_le (h : s.Holds config xs) : (config.sums xs).length ≤ xs.length := by
  have hsums := Aggregation.length_sums_le h.size_pos (config.numbers xs)
  rwa [config.length_numbers] at hsums

/-- Both counts are exact as long as the number of samples fits its word. -/
theorem Holds.toNat_counts (h : s.Holds config xs) (hcount : xs.length < UInt64.size) :
    s.samplesReceived.toNat = xs.length ∧ s.sumsEmitted.toNat = (config.sums xs).length := by
  rw [h.samplesReceived_eq, h.sumsEmitted_eq]
  exact ⟨UInt64.toNat_ofNat_of_lt' hcount,
    UInt64.toNat_ofNat_of_lt' (Nat.lt_of_le_of_lt h.length_sums_le hcount)⟩

theorem holds_ofConfig (h : ofConfig config = .ok s) : s.Holds config [] := by
  unfold ofConfig at h
  obtain ⟨p, hp, h⟩ := bind_eq_ok_iff.1 h
  obtain ⟨counter, hcounter, h⟩ := bind_eq_ok_iff.1 h
  cases h
  obtain ⟨ha, hr, hholds⟩ := Pipeline.holds_ofAggregation hp
  have hsize := p.size_aggregation_pos
  rw [ha] at hsize
  have hsums : config.sums [] = [] := Aggregation.sums_nil hsize
  refine ⟨hholds, ha, hr, ?_, ?_, rfl, by rw [hsums]; rfl⟩
  · rcases mapM_eq_ok_iff.1 hcounter with ⟨he, rfl⟩ | ⟨edge, c, he, hc, rfl⟩
    · exact he.symm
    · rw [he]
      exact congrArg some (EdgeCounter.holds_start hc).1
  · rw [hsums]
    rcases mapM_eq_ok_iff.1 hcounter with ⟨he, rfl⟩ | ⟨edge, c, he, hc, rfl⟩
    · simp
    · intro c' hc'
      cases hc'
      exact (EdgeCounter.holds_start hc).2

/-- With an edge counter that can be built, only the aggregator can make a session be refused. -/
theorem ofConfig_of_edge (config : SessionConfig) {edge : EdgeSettings}
    (hedge : config.edge = some edge) (hnum : edge.edgeNum ≠ 0)
    (hfinite : edge.threshold.IsFinite) :
    (∀ e, Pipeline.ofAggregation config.aggregation config.rectifier = .error e →
      ofConfig config = .error e) ∧
    ∀ pipeline, Pipeline.ofAggregation config.aggregation config.rectifier = .ok pipeline →
      ∃ s, ofConfig config = .ok s := by
  obtain ⟨counter, hcounter⟩ := (EdgeCounter.ofSettings_isOk_iff edge).2 ⟨hnum, hfinite⟩
  constructor
  · intro e he
    exact bind_eq_error_iff.2 (.inl he)
  · intro pipeline hpipeline
    refine ⟨⟨pipeline, some counter, 0, 0⟩, bind_eq_ok_iff.2 ⟨pipeline, hpipeline, ?_⟩⟩
    refine bind_eq_ok_iff.2 ⟨some counter, ?_, rfl⟩
    exact mapM_eq_ok_iff.2 (.inr ⟨edge, counter, hedge, hcounter, rfl⟩)

theorem Holds.reset (h : s.Holds config xs) : s.reset.Holds config [] := by
  have hsums : config.sums [] = [] := Aggregation.sums_nil h.size_pos
  refine ⟨s.pipeline.holds_restart, ?_, ?_, ?_, ?_, rfl, by rw [hsums]; rfl⟩
  · exact (s.pipeline.aggregation_restart).trans h.aggregation_eq
  · exact (s.pipeline.rectifier_restart).trans h.rectifier_eq
  · rw [← h.settings_eq, Session.reset, Option.map_map]
    rfl
  · intro c hc
    obtain ⟨before, -, rfl⟩ := Option.map_eq_some_iff.1 hc
    rw [hsums]
    exact before.holds_reset

/-! ## A sample more -/

theorem fullScale_eq : deployedWidth.fullScale = 1023 := by decide

/-- A sample in range reaches the pipeline. -/
theorem push_eq_ok (s : Session) {x : Sample} (hx : x ≤ 1023) :
    s.push x = .ok (s.advance (s.pipeline.push x).1 (s.pipeline.push x).2) := by
  have hcheck : Aggregator.check s.pipeline x = .ok x := by
    rw [← fullScale_eq] at hx
    exact (Rectifier.check_eq_ok_iff _ _ _).2 ⟨rfl, hx⟩
  rw [push, Aggregator.tryPush_of_check_ok hcheck]
  rfl

theorem push_eq_error (s : Session) {x : Sample} (hx : ¬ x ≤ 1023) :
    s.push x = .error ⟨x, 1023⟩ := by
  rw [← fullScale_eq]
  rw [← fullScale_eq] at hx
  exact (s.push_eq_error_iff x _).2 ⟨UInt16.not_le.1 hx, rfl⟩

theorem processLine_of_ok (s : Session) {line : String} {x : Sample}
    (h : sampleOfText (Text.trim line.toList) = .ok x) :
    s.processLine line = (s.push x).mapError .outOfRange := by
  simp only [processLine, h]

theorem processLine_of_error (s : Session) {line : String} {fault : Decimal.NaturalFault}
    (h : sampleOfText (Text.trim line.toList) = .error fault) :
    s.processLine line = .error (.unreadable (Text.trim line.toList) fault) := by
  simp only [processLine, h]

namespace Holds

theorem due_eq (h : s.Holds config xs) {x : Sample} (hx : x ≤ 1023) :
    (s.pipeline.push x).1.map UInt32.toNat =
      config.aggregation.due (config.numbers (xs ++ [x])) := by
  rw [← fullScale_eq] at hx
  rw [h.pipeline.push_fst hx, h.aggregation_eq, h.rectifier_eq, config.numbers_rectifier]

/-- What the edge counter makes of the sum that falls due. -/
theorem watch (h : s.Holds config xs) (sum : Total) :
    (s.watch sum).1 =
        config.edge.bind (fun edge => edge.trigger? (config.sums xs) sum.toNat) ∧
      (s.watch sum).2.map EdgeCounter.settings = config.edge ∧
      ∀ c ∈ (s.watch sum).2, c.Holds (config.sums xs ++ [sum.toNat]) := by
  have hset := h.settings_eq
  unfold Session.watch
  cases hc : s.edgeCounter with
  | none =>
      rw [hc] at hset
      rw [← hset]
      simp
  | some c =>
      rw [hc] at hset
      obtain ⟨htrigger, hnext⟩ := (h.edgeCounter c hc).signal s.sumsEmitted sum
      rw [← hset]
      refine ⟨?_, ?_, ?_⟩
      · rw [h.sumsEmitted_eq] at htrigger
        simpa [EdgeSettings.trigger?, h.sumsEmitted_eq] using htrigger
      · simp
      · intro c' hc'
        cases hc'
        exact hnext

theorem advance (h : s.Holds config xs) {x : Sample} (hx : x ≤ 1023) :
    (s.advance (s.pipeline.push x).1 (s.pipeline.push x).2).1 = config.emission? xs x ∧
      (s.advance (s.pipeline.push x).1 (s.pipeline.push x).2).2.Holds config (xs ++ [x]) := by
  have hdue := h.due_eq hx
  have hpipe := h.pipeline.push (fullScale_eq ▸ hx)
  have hagg := (s.pipeline.aggregation_push x).trans h.aggregation_eq
  have hrect := (s.pipeline.rectifier_push x).trans h.rectifier_eq
  have hlen : UInt64.ofNat xs.length + 1 = .ofNat (xs ++ [x]).length := by
    rw [List.length_append, List.length_singleton, UInt64.ofNat_add]
    rfl
  unfold Session.advance SessionConfig.emission?
  rw [← hdue]
  cases hsum : (s.pipeline.push x).1 with
  | none =>
      rw [hsum] at hdue
      have hsums : config.sums (xs ++ [x]) = config.sums xs := by
        rw [config.sums_concat, ← hdue]
        simp
      refine ⟨rfl, hpipe, hagg, hrect, h.settings_eq, ?_, ?_, ?_⟩
      · rw [hsums]
        exact h.edgeCounter
      · rw [← hlen, ← h.samplesReceived_eq]
      · rw [hsums]
        exact h.sumsEmitted_eq
  | some sum =>
      rw [hsum] at hdue
      have hsums : config.sums (xs ++ [x]) = config.sums xs ++ [sum.toNat] := by
        rw [config.sums_concat, ← hdue]
        rfl
      obtain ⟨htrigger, hset, hcounter⟩ := h.watch sum
      refine ⟨?_, hpipe, hagg, hrect, hset, ?_, ?_, ?_⟩
      · simp [htrigger, h.samplesReceived_eq]
      · rw [hsums]
        exact hcounter
      · rw [← hlen, ← h.samplesReceived_eq]
      · rw [hsums, List.length_append, List.length_singleton, UInt64.ofNat_add,
          ← h.sumsEmitted_eq]
        rfl

/-- A sample in range is taken and gives what is due. -/
theorem push (h : s.Holds config xs) {x : Sample} (hx : x ≤ 1023) :
    ∃ next, s.push x = .ok (config.emission? xs x, next) ∧ next.Holds config (xs ++ [x]) := by
  obtain ⟨hemission, hnext⟩ := h.advance hx
  refine ⟨_, ?_, hnext⟩
  rw [s.push_eq_ok hx, ← hemission]

/-- A sample, in range or not. -/
theorem orKeep_push (h : s.Holds config xs) (x : Sample) :
    (s.orKeep (s.push x)).2.Holds config (xs ++ [x].filter (· ≤ 1023)) := by
  by_cases hx : x ≤ 1023
  · obtain ⟨next, hpush, hnext⟩ := h.push hx
    rw [hpush, List.filter_cons_of_pos (by simpa using hx)]
    exact hnext
  · rw [s.push_eq_error hx, List.filter_cons_of_neg (by simpa using hx), List.filter_nil,
      List.append_nil]
    exact h

theorem orKeep_processLine (h : s.Holds config xs) (line : String) :
    (s.orKeep (s.processLine line)).2.Holds config
      (xs ++ (sampleOfText (Text.trim line.toList)).toOption.toList.filter (· ≤ 1023)) := by
  cases ht : sampleOfText (Text.trim line.toList) with
  | error fault =>
      rw [s.processLine_of_error ht]
      simpa [Except.toOption, orKeep] using h
  | ok x =>
      have hpush := h.orKeep_push x
      rw [s.processLine_of_ok ht]
      cases hs : s.push x with
      | error e =>
          rw [hs] at hpush
          exact hpush
      | ok next =>
          rw [hs] at hpush
          exact hpush

theorem handleLine (h : s.Holds config xs) (line : String) :
    (s.handleLine line).2.Holds config
      (xs ++ (sampleOfText (Text.trim line.toList)).toOption.toList.filter (· ≤ 1023)) := by
  have hline := h.orKeep_processLine line
  unfold Session.handleLine
  by_cases hblank : Text.trim line.toList = []
  · rw [if_pos hblank, hblank]
    change s.Holds config (xs ++ [])
    rw [List.append_nil]
    exact h
  · rw [if_neg hblank]
    cases hp : s.processLine line with
    | error fault =>
        rw [hp] at hline
        exact hline
    | ok next =>
        rw [hp] at hline
        exact hline

/-- Every step keeps the invariant. -/
theorem step (h : s.Holds config xs) (st : Step) :
    (s.step st).2.Holds config (takenNext xs st) := by
  cases st with
  | push x => exact h.orKeep_push x
  | processLine line => exact h.orKeep_processLine line
  | handleLine line => exact h.handleLine line
  | reset => exact h.reset

/-- So every run keeps it. -/
theorem after (h : s.Holds config xs) (steps : List Step) :
    (s.after steps).Holds config (steps.foldl takenNext xs) := by
  induction steps generalizing s xs with
  | nil => exact h
  | cons st steps ih => exact ih (h.step st)

end Holds

theorem holds_after {start : Session} (h : ofConfig config = .ok start) (steps : List Step) :
    (start.after steps).Holds config (taken steps) :=
  (holds_ofConfig h).after steps

/-! ## The next push -/

theorem toNat_ofNat_due (h : s.Holds config xs) {x : Sample} (hx : x ≤ 1023) {sum : Nat}
    (hsum : config.aggregation.due (config.numbers (xs ++ [x])) = some sum) :
    (UInt32.ofNat sum).toNat = sum := by
  have hdue := h.due_eq hx
  rw [hsum] at hdue
  obtain ⟨total, -, rfl⟩ := Option.map_eq_some_iff.1 hdue
  rw [UInt32.ofNat_toNat]

/-- After any steps, a push of a sample that is too wide is refused and changes nothing; the push of
any other sample gives a sum exactly when one is due for the samples taken, with its exact value,
its place and the trigger that the sums so far call for. -/
theorem push_after_steps {start : Session} (hstart : ofConfig config = .ok start)
    (steps : List Step) (hcount : (taken steps).length < UInt64.size) (x : Sample) :
    (1023 < x → (start.after steps).step (.push x) =
      (.pushed (.error ⟨x, 1023⟩), start.after steps)) ∧
    (x ≤ 1023 → ∃ next,
      match config.aggregation.due (config.numbers (taken steps ++ [x])) with
      | none => (start.after steps).push x = .ok (none, next)
      | some sum => ∃ emission, (start.after steps).push x = .ok (some emission, next) ∧
          emission.sampleIndex.toNat = (taken steps).length ∧ emission.sum.toNat = sum ∧
          emission.trigger =
            config.edge.bind fun edge => edge.trigger? (config.sums (taken steps)) sum) := by
  have h := holds_after hstart steps
  constructor
  · intro hx
    have hnot : ¬ x ≤ 1023 := UInt16.not_le.2 hx
    simp [step, push_eq_error _ hnot, orKeep]
  · intro hx
    obtain ⟨next, hpush, -⟩ := h.push hx
    refine ⟨next, ?_⟩
    cases hsum : config.aggregation.due (config.numbers (taken steps ++ [x])) with
    | none =>
        rw [hpush]
        simp [SessionConfig.emission?, hsum]
    | some sum =>
        refine ⟨_, by rw [hpush, SessionConfig.emission?, hsum, Option.map_some], ?_, ?_, rfl⟩
        · exact UInt64.toNat_ofNat_of_lt' hcount
        · exact toNat_ofNat_due h hx hsum

theorem push_after_steps_of_blocks :
    let config : SessionConfig :=
      { aggregation := .downsample 2, absoluteValue := true,
        edge := some { threshold := ⟨0x44960000⟩ } }
    let steps : List Step := [.push 500, .push 2000, .push 600, .push 0]
    ∃ start emission next, ofConfig config = .ok start ∧ (taken steps).length < UInt64.size ∧
      (start.after steps).push 1000 = .ok (some emission, next) ∧
      emission.sampleIndex.toNat = 3 ∧ emission.sum.toNat = 2023 ∧
      emission.trigger = some ⟨1, 2023, 1⟩ := by
  intro config steps
  obtain ⟨start, hstart⟩ : ∃ start, ofConfig config = .ok start := ⟨_, rfl⟩
  have hcount : (taken steps).length < UInt64.size := by decide
  obtain ⟨next, h⟩ := (push_after_steps hstart steps hcount 1000).2 (by decide)
  have hdue : config.aggregation.due (config.numbers (taken steps ++ [1000])) = some 2023 := by
    decide
  rw [hdue] at h
  obtain ⟨emission, hpush, hplace, hsum, htrigger⟩ := h
  exact ⟨start, emission, next, hstart, hcount, hpush, hplace, hsum,
    htrigger.trans (by decide +kernel)⟩

end Session

end DigitiserSums
