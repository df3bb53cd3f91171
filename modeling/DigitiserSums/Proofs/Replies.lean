import DigitiserSums.Proofs.History

/-!
# Replies

What a session replies to a step follows from its configuration and from the samples that it took
since its start or last reset. So the replies of a run can be told without a session, and two runs
that take the same samples are compared through their configurations alone. A reply gives one sum at
most, and the sums are small.
-/

namespace DigitiserSums

open Session

/-! ## Replies without a session -/

namespace SessionConfig

/-- What the push of a sample gives after `xs` was taken. -/
def pushReply (config : SessionConfig) (xs : List Sample) (x : Sample) :
    Except SampleOutOfRange (Option Emission) :=
  if x ≤ 1023 then .ok (config.emission? xs x) else .error ⟨x, 1023⟩

def lineReply (config : SessionConfig) (xs : List Sample) (line : String) :
    Except LineFault (Option Emission) :=
  let text := Text.trim line.toList
  match sampleOfText text with
  | .error fault => .error (.unreadable text fault)
  | .ok x => (config.pushReply xs x).mapError .outOfRange

def lineOutcome (config : SessionConfig) (xs : List Sample) (line : String) : LineOutcome :=
  if Text.trim line.toList = [] then .blank
  else match config.lineReply xs line with
    | .error fault => .failed fault
    | .ok emission => .taken emission

def reply (config : SessionConfig) (xs : List Sample) : Step → Reply
  | .push x => .pushed (config.pushReply xs x)
  | .processLine line => .processed (config.lineReply xs line)
  | .handleLine line => .handled (config.lineOutcome xs line)
  | .reset => .reset

/-- What the steps of a run give, one after the other. -/
def replies (config : SessionConfig) : List Sample → List Step → List Reply
  | _, [] => []
  | xs, st :: steps => config.reply xs st :: config.replies (takenNext xs st) steps

end SessionConfig

namespace Session

/-- What the steps of a run give, one after the other. -/
def replies (s : Session) (steps : List Step) : List Reply :=
  (scan step s steps).1

namespace Holds

variable {s : Session} {config : SessionConfig} {xs : List Sample}

theorem orKeep_push_fst (h : s.Holds config xs) (x : Sample) :
    (s.orKeep (s.push x)).1 = config.pushReply xs x := by
  unfold SessionConfig.pushReply
  by_cases hx : x ≤ 1023
  · obtain ⟨next, hpush, -⟩ := h.push hx
    rw [hpush, if_pos hx]
    rfl
  · rw [s.push_eq_error hx, if_neg hx]
    rfl

theorem orKeep_processLine_fst (h : s.Holds config xs) (line : String) :
    (s.orKeep (s.processLine line)).1 = config.lineReply xs line := by
  cases ht : sampleOfText (Text.trim line.toList) with
  | error fault =>
      rw [s.processLine_of_error ht]
      simp only [SessionConfig.lineReply, ht, orKeep]
  | ok x =>
      rw [s.processLine_of_ok ht]
      simp only [SessionConfig.lineReply, ht, ← h.orKeep_push_fst x]
      cases s.push x <;> rfl

theorem handleLine_fst (h : s.Holds config xs) (line : String) :
    (s.handleLine line).1 = config.lineOutcome xs line := by
  have hline := h.orKeep_processLine_fst line
  unfold Session.handleLine SessionConfig.lineOutcome
  by_cases hblank : Text.trim line.toList = []
  · rw [if_pos hblank, if_pos hblank]
  · rw [if_neg hblank, if_neg hblank, ← hline]
    cases s.processLine line <;> rfl

theorem step_fst (h : s.Holds config xs) (st : Step) : (s.step st).1 = config.reply xs st := by
  cases st with
  | push x => exact congrArg Reply.pushed (h.orKeep_push_fst x)
  | processLine line => exact congrArg Reply.processed (h.orKeep_processLine_fst line)
  | handleLine line => exact congrArg Reply.handled (h.handleLine_fst line)
  | reset => rfl

/-- A session replies what follows from its configuration and the samples it took. -/
theorem replies_eq (h : s.Holds config xs) (steps : List Step) :
    s.replies steps = config.replies xs steps := by
  induction steps generalizing s xs with
  | nil => rfl
  | cons st steps ih =>
      rw [replies, scan_cons, SessionConfig.replies, ← h.step_fst, ← ih (h.step st)]
      rfl

end Holds

theorem replies_of_ofConfig {config : SessionConfig} {start : Session}
    (h : ofConfig config = .ok start) (steps : List Step) :
    start.replies steps = config.replies [] steps :=
  (holds_ofConfig h).replies_eq steps

/-! ## Samples in range -/

/-- The sample that a step brings, if it is in range. -/
def Step.inRange? (st : Step) : Option Sample :=
  st.sample?.filter (· ≤ 1023)

variable {xs : List Sample} {st : Step}

theorem takenNext_of_ne_reset (h : st ≠ .reset) :
    takenNext xs st = xs ++ st.inRange?.toList := by
  cases st with
  | reset => contradiction
  | push x => rw [takenNext, Step.inRange?, Option.toList_filter]; exact h
  | processLine line => rw [takenNext, Step.inRange?, Option.toList_filter]; exact h
  | handleLine line => rw [takenNext, Step.inRange?, Option.toList_filter]; exact h

theorem Step.le_of_inRange? {x : Sample} (h : st.inRange? = some x) : x ≤ 1023 :=
  of_decide_eq_true (Option.filter_eq_some_iff.1 h).2

theorem takenNext_le (h : ∀ x ∈ xs, x ≤ 1023) (st : Step) : ∀ x ∈ takenNext xs st, x ≤ 1023 := by
  by_cases hst : st = .reset
  · subst hst
    exact List.forall_mem_nil _
  · rw [takenNext_of_ne_reset hst, List.forall_mem_append]
    exact ⟨h, fun x hx => Step.le_of_inRange? (Option.mem_toList.1 hx)⟩

end Session

namespace SessionConfig

variable {config config' : SessionConfig} {xs : List Sample}

/-- Configurations that give the same sums and triggers give the same replies. -/
theorem replies_congr
    (h : ∀ xs, (∀ x ∈ xs, x ≤ 1023) → ∀ x ≤ 1023, config.emission? xs x = config'.emission? xs x)
    (hxs : ∀ x ∈ xs, x ≤ 1023) (steps : List Step) :
    config.replies xs steps = config'.replies xs steps := by
  induction steps generalizing xs with
  | nil => rfl
  | cons st steps ih =>
      have hpush : config.pushReply xs = config'.pushReply xs := by
        funext x
        unfold pushReply
        split
        · next hx => rw [h xs hxs x hx]
        · rfl
      have hreply : config.reply xs st = config'.reply xs st := by
        cases st <;> simp only [reply, lineOutcome, lineReply, hpush]
      rw [replies, replies, hreply, ih (takenNext_le hxs st)]

end SessionConfig

/-! ## Sums in replies -/

namespace Session.Reply

/-- The sum that a step gave, if it gave one. -/
def emission? : Reply → Option Emission
  | pushed (.ok emission) => emission
  | processed (.ok emission) => emission
  | handled (.taken emission) => emission
  | _ => none

def trigger? (reply : Reply) : Option Trigger :=
  reply.emission?.bind Emission.trigger

end Session.Reply

namespace SessionConfig

variable {config : SessionConfig} {xs : List Sample}

theorem emission?_pushReply (config : SessionConfig) (xs : List Sample) (x : Sample) :
    (Reply.pushed (config.pushReply xs x)).emission? =
      (Step.push x).inRange?.bind (config.emission? xs) := by
  by_cases hx : x ≤ 1023 <;>
    simp [pushReply, Reply.emission?, Step.inRange?, Step.sample?, Option.filter, hx]

theorem emission?_lineReply (config : SessionConfig) (xs : List Sample) (line : String) :
    (Reply.processed (config.lineReply xs line)).emission? =
      (Step.processLine line).inRange?.bind (config.emission? xs) := by
  cases ht : sampleOfText (Text.trim line.toList) with
  | error fault =>
      simp [lineReply, Reply.emission?, Step.inRange?, Step.sample?, ht, Except.toOption]
  | ok x =>
      have hpush := config.emission?_pushReply xs x
      simp only [lineReply, Step.inRange?, Step.sample?, ht, Except.toOption] at hpush ⊢
      rw [← hpush]
      cases config.pushReply xs x <;> rfl

theorem emission?_lineOutcome (config : SessionConfig) (xs : List Sample) (line : String) :
    (Reply.handled (config.lineOutcome xs line)).emission? =
      (Reply.processed (config.lineReply xs line)).emission? := by
  unfold lineOutcome
  by_cases hblank : Text.trim line.toList = []
  · rw [if_pos hblank, lineReply, hblank]
    rfl
  · rw [if_neg hblank]
    cases config.lineReply xs line <;> rfl

/-- A reply gives the sum that falls due with the sample that the step brings. -/
theorem emission?_reply (config : SessionConfig) (xs : List Sample) (st : Step) :
    (config.reply xs st).emission? = st.inRange?.bind (config.emission? xs) := by
  cases st with
  | push x => exact config.emission?_pushReply xs x
  | processLine line => exact config.emission?_lineReply xs line
  | handleLine line =>
      exact (config.emission?_lineOutcome xs line).trans (config.emission?_lineReply xs line)
  | reset => rfl

theorem numbers_le (config : SessionConfig) (h : ∀ x ∈ xs, x ≤ 1023) :
    ∀ n ∈ config.numbers xs, n ≤ 1023 := by
  rw [← config.numbers_rectifier]
  exact config.rectifier.numbers_le (fullScale_eq ▸ h)

theorem sums_le (hsize : 0 < config.aggregation.size) (h : ∀ x ∈ xs, x ≤ 1023) :
    ∀ sum ∈ config.sums xs, sum ≤ config.aggregation.size * 1023 :=
  Aggregation.sums_le hsize (config.numbers_le h)

theorem due_le (hxs : ∀ x ∈ xs, x ≤ 1023) {x : Sample} (hx : x ≤ 1023) {sum : Nat}
    (hsum : config.aggregation.due (config.numbers (xs ++ [x])) = some sum) :
    sum ≤ config.aggregation.size * 1023 := by
  have hall : ∀ y ∈ xs ++ [x], y ≤ 1023 :=
    List.forall_mem_append.2 ⟨hxs, List.forall_mem_singleton.2 hx⟩
  exact Aggregation.due_le (config.numbers_le hall) hsum

theorem sum_emission?_le (hxs : ∀ x ∈ xs, x ≤ 1023) {x : Sample} (hx : x ≤ 1023)
    {emission : Emission} (h : config.emission? xs x = some emission) :
    emission.sum.toNat ≤ config.aggregation.size * 1023 := by
  obtain ⟨sum, hsum, rfl⟩ := Option.map_eq_some_iff.1 h
  exact Nat.le_trans (Nat.mod_le sum _) (due_le hxs hx hsum)

/-- No reply of a run gives a larger sum than so many full scales. -/
theorem sum_replies_le (hxs : ∀ x ∈ xs, x ≤ 1023) (steps : List Step) :
    ∀ reply ∈ config.replies xs steps, ∀ emission ∈ reply.emission?,
      emission.sum.toNat ≤ config.aggregation.size * 1023 := by
  induction steps generalizing xs with
  | nil => exact List.forall_mem_nil _
  | cons st steps ih =>
      refine List.forall_mem_cons.2 ⟨fun emission hemission => ?_, ih (takenNext_le hxs st)⟩
      rw [emission?_reply] at hemission
      obtain ⟨x, hx, hemission⟩ := Option.bind_eq_some_iff.1 hemission
      exact sum_emission?_le hxs (Step.le_of_inRange? hx) hemission

end SessionConfig

end DigitiserSums
