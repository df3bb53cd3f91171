import DigitiserSums.EdgeCounter
import DigitiserSums.Pipeline

/-!
# Pulling no more than needed

A feed may be asked for one result, for a few or for all of them, any number of times and in any
order. Whatever was asked for, the inputs pulled so far and the results given for them fit together:
the results are those of these inputs, and unless a call ran out no fewer inputs give as many.
-/

namespace DigitiserSums

namespace Feed

variable {σ ι ο : Type}

/-- What may be asked of a feed. -/
inductive Call where
  | next
  | take (n : Nat)
  | drain
deriving DecidableEq, Repr

/-- What a call gave. It ran out if a result that was asked for did not come. -/
structure Reply (ο : Type) where
  results : List ο
  ranOut : Bool
deriving DecidableEq, Repr

variable (step : σ → ι → Option ο × σ)

/-- Asks for a number of results. -/
def ask (f : Feed σ ι) (n : Nat) : Reply ο × Feed σ ι :=
  let (results, g) := f.take step n
  (⟨results, results.length < n⟩, g)

def call (f : Feed σ ι) : Call → Reply ο × Feed σ ι
  | .next =>
    let (result, g) := f.next step
    (⟨result.toList, result.isNone⟩, g)
  | .take n => f.ask step n
  | .drain =>
    let (results, g) := f.drain step
    (⟨results, true⟩, g)

/-- From `f` to `g` the inputs `xs` were pulled, and the reply is what they gave. -/
structure Gives (f : Feed σ ι) (xs : List ι) (reply : Reply ο) (g : Feed σ ι) : Prop where
  source_eq : f.source = xs ++ g.source
  state_eq : g.state = (scan step f.state xs).2
  results_eq : reply.results = results step ⟨f.state, xs⟩
  /-- Unless the reply ran out, its last result came with the last input. -/
  sparing : reply.ranOut = false → ∀ n < xs.length,
    (results step ⟨f.state, xs.take n⟩).length < reply.results.length
  exhausted : reply.ranOut = true → g.source = []

variable {step} {f g k : Feed σ ι} {xs ys : List ι} {a b : Reply ο}

theorem Gives.append (hf : Gives step f xs a g) (hg : Gives step g ys b k) :
    Gives step f (xs ++ ys) ⟨a.results ++ b.results, a.ranOut || b.ranOut⟩ k where
  source_eq := by rw [hf.source_eq, hg.source_eq, List.append_assoc]
  state_eq := by rw [hg.state_eq, hf.state_eq, scan_append]
  results_eq := by rw [results_append, ← hf.state_eq, ← hf.results_eq, ← hg.results_eq]
  sparing hran n hn := by
    obtain ⟨ha, hb⟩ := Bool.or_eq_false_iff.1 hran
    rw [List.length_append] at hn
    rw [List.length_append]
    by_cases hlt : n < xs.length
    · have hfewer := hf.sparing ha n hlt
      rw [List.take_append_of_le_length (Nat.le_of_lt hlt)]
      omega
    · have hfewer := hg.sparing hb (n - xs.length) (by omega)
      rw [List.take_append, List.take_of_length_le (Nat.le_of_not_lt hlt), results_append,
        List.length_append, ← hf.state_eq, ← hf.results_eq]
      omega
  exhausted hran := by
    rcases Bool.or_eq_true_iff.1 hran with ha | hb
    · have hnil := hg.source_eq
      rw [hf.exhausted ha] at hnil
      exact (List.append_eq_nil_iff.1 hnil.symm).2
    · exact hg.exhausted hb

/-- An input that gives nothing is pulled for the sake of what comes after it. -/
theorem Gives.cons_none {s t : σ} {i : ι} {source : List ι} {result : Option ο}
    (hstep : step s i = (none, t))
    (hg : Gives step ⟨t, source⟩ xs ⟨result.toList, result.isNone⟩ g) :
    Gives step ⟨s, i :: source⟩ (i :: xs) ⟨result.toList, result.isNone⟩ g where
  source_eq := congrArg (i :: ·) hg.source_eq
  state_eq := by
    rw [hg.state_eq, scan_cons, hstep]
  results_eq := by
    rw [results_cons, hstep]
    exact hg.results_eq
  sparing hran n hn := by
    cases n with
    | zero =>
      cases result with
      | none => cases hran
      | some o => exact Nat.one_pos
    | succ n =>
      rw [List.take_succ_cons, results_cons, hstep]
      exact hg.sparing hran n (Nat.lt_of_succ_lt_succ hn)
  exhausted := hg.exhausted

theorem gives_one {s t : σ} {i : ι} {o : ο} {source : List ι} (hstep : step s i = (some o, t)) :
    Gives step ⟨s, i :: source⟩ [i] ⟨[o], false⟩ ⟨t, source⟩ where
  source_eq := rfl
  state_eq := by
    rw [scan_cons, hstep]
    rfl
  results_eq := by
    rw [results_cons, hstep]
    rfl
  sparing _ n hn := by
    rw [Nat.lt_one_iff.1 hn]
    exact Nat.one_pos
  exhausted hran := Bool.noConfusion hran

variable (step)

theorem gives_nothing (f : Feed σ ι) : Gives step f [] ⟨[], false⟩ f :=
  ⟨rfl, rfl, rfl, nofun, nofun⟩

theorem gives_end (s : σ) : Gives step ⟨s, []⟩ [] ⟨[], true⟩ ⟨s, []⟩ where
  source_eq := rfl
  state_eq := rfl
  results_eq := rfl
  sparing hran := Bool.noConfusion hran
  exhausted _ := rfl

theorem gives_next (f : Feed σ ι) :
    ∃ xs, Gives step f xs ⟨(f.next step).1.toList, (f.next step).1.isNone⟩ (f.next step).2 := by
  obtain ⟨s, source⟩ := f
  induction source generalizing s with
  | nil => exact ⟨[], gives_end step s⟩
  | cons i source ih =>
      rcases hstep : step s i with ⟨_ | o, t⟩
      · obtain ⟨xs, hxs⟩ := ih t
        have hnext : next step ⟨s, i :: source⟩ = next step ⟨t, source⟩ := by
          simp only [next, next.go, hstep]
        rw [hnext]
        exact ⟨i :: xs, hxs.cons_none hstep⟩
      · have hnext : next step ⟨s, i :: source⟩ = (some o, ⟨t, source⟩) := by
          simp only [next, next.go, hstep]
        rw [hnext]
        exact ⟨[i], gives_one hstep⟩

theorem gives_ask (f : Feed σ ι) (n : Nat) :
    ∃ xs, Gives step f xs (f.ask step n).1 (f.ask step n).2 := by
  induction n generalizing f with
  | zero => exact ⟨[], f.gives_nothing step⟩
  | succ n ih =>
      obtain ⟨xs, hxs⟩ := f.gives_next step
      rcases hnext : f.next step with ⟨_ | o, g⟩
      · rw [hnext] at hxs
        have hask : f.ask step (n + 1) = (⟨[], true⟩, g) := by
          simp [ask, take, hnext]
        rw [hask]
        exact ⟨xs, hxs⟩
      · rw [hnext] at hxs
        obtain ⟨ys, hys⟩ := ih g
        have hask : f.ask step (n + 1) =
            (⟨[o] ++ (g.ask step n).1.results, false || (g.ask step n).1.ranOut⟩,
              (g.ask step n).2) := by
          simp [ask, take, hnext]
        rw [hask]
        exact ⟨xs ++ ys, hxs.append hys⟩

theorem length_results_le (f : Feed σ ι) : (f.results step).length ≤ f.source.length := by
  have hscan := length_scan step f.state f.source
  exact hscan ▸ List.length_filterMap_le id _

theorem gives_call (f : Feed σ ι) (c : Call) :
    ∃ xs, Gives step f xs (f.call step c).1 (f.call step c).2 := by
  cases c with
  | next => exact f.gives_next step
  | take n => exact f.gives_ask step n
  | drain =>
      have hshort : (f.drain step).1.length < f.source.length + 1 := by
        rw [drain_fst]
        exact Nat.lt_succ_of_le (f.length_results_le step)
      have hask : f.ask step (f.source.length + 1) = f.call step .drain := by
        rw [drain] at hshort
        simp only [ask, call, drain, hshort, decide_true]
      exact hask ▸ f.gives_ask step (f.source.length + 1)

/-- What is left after calls. -/
def rest (f : Feed σ ι) (calls : List Call) : Feed σ ι :=
  (scan (call step) f calls).2

/-- The results that calls gave, in the order of the calls. -/
def returned (f : Feed σ ι) (calls : List Call) : List ο :=
  (scan (call step) f calls).1.flatMap Reply.results

/-- Whether one of the calls ran out. -/
def ranOut (f : Feed σ ι) (calls : List Call) : Bool :=
  (scan (call step) f calls).1.any Reply.ranOut

/-- The inputs that calls pulled. -/
def pulled (f : Feed σ ι) (calls : List Call) : List ι :=
  f.source.take (f.source.length - (f.rest step calls).source.length)

theorem gives_calls (f : Feed σ ι) (calls : List Call) :
    Gives step f (f.pulled step calls) ⟨f.returned step calls, f.ranOut step calls⟩
      (f.rest step calls) := by
  have hsome : ∃ xs, Gives step f xs ⟨f.returned step calls, f.ranOut step calls⟩
      (f.rest step calls) := by
    induction calls generalizing f with
    | nil => exact ⟨[], f.gives_nothing step⟩
    | cons c calls ih =>
        obtain ⟨xs, hxs⟩ := f.gives_call step c
        obtain ⟨ys, hys⟩ := ih (f.call step c).2
        exact ⟨xs ++ ys, hxs.append hys⟩
  obtain ⟨xs, hxs⟩ := hsome
  have hpulled : f.pulled step calls = xs := by
    simp [pulled, hxs.source_eq]
  rwa [hpulled]

theorem call_of_source_eq_nil (hf : f.source = []) (c : Call) :
    (f.call step c).1.results = [] ∧ (f.call step c).2 = f := by
  obtain ⟨s, source⟩ := f
  cases hf
  cases c with
  | next => exact ⟨rfl, rfl⟩
  | take n => cases n <;> exact ⟨rfl, rfl⟩
  | drain => exact ⟨rfl, rfl⟩

theorem calls_of_source_eq_nil (hf : f.source = []) (calls : List Call) :
    f.returned step calls = [] ∧ f.rest step calls = f := by
  induction calls with
  | nil => exact ⟨rfl, rfl⟩
  | cons c calls ih =>
      obtain ⟨hresults, hsame⟩ := call_of_source_eq_nil step hf c
      constructor
      · rw [returned, scan_cons, List.flatMap_cons, hresults, hsame]
        exact ih.1
      · rw [rest, scan_cons, hsame]
        exact ih.2

/-- How a feed stands after calls. -/
structure PullsLazily (f : Feed σ ι) (calls : List Call) : Prop where
  /-- No input is lost or pulled twice. -/
  source_eq : f.source = f.pulled step calls ++ (f.rest step calls).source
  state_eq : (f.rest step calls).state = (scan step f.state (f.pulled step calls)).2
  returned_eq : f.returned step calls = results step ⟨f.state, f.pulled step calls⟩
  returned_prefix : f.returned step calls <+: f.results step
  /-- Unless a call ran out, the inputs pulled are as few as give so many results. -/
  length_pulled_le_iff : f.ranOut step calls = false → ∀ n, (f.pulled step calls).length ≤ n ↔
    (f.returned step calls).length ≤ (results step ⟨f.state, f.source.take n⟩).length
  /-- Once a call ran out, every input is pulled, and further calls change nothing. -/
  exhausted : f.ranOut step calls = true → f.pulled step calls = f.source ∧
    ∀ more, (f.rest step calls).returned step more = [] ∧
      (f.rest step calls).rest step more = f.rest step calls

variable {step} in
theorem Gives.length_le_iff (hf : Gives step f xs a g) (hran : a.ranOut = false) (n : Nat) :
    xs.length ≤ n ↔ a.results.length ≤ (results step ⟨f.state, f.source.take n⟩).length := by
  constructor
  · intro hn
    rw [hf.source_eq, List.take_append, List.take_of_length_le hn, results_append,
      List.length_append, ← hf.results_eq]
    exact Nat.le_add_right _ _
  · intro hn
    refine Nat.le_of_not_lt fun hlt => ?_
    have hfewer := hf.sparing hran n hlt
    rw [hf.source_eq, List.take_append_of_le_length (Nat.le_of_lt hlt)] at hn
    omega

theorem pullsLazily (f : Feed σ ι) (calls : List Call) : PullsLazily step f calls := by
  have hgives := f.gives_calls step calls
  refine ⟨hgives.source_eq, hgives.state_eq, hgives.results_eq, ?_, hgives.length_le_iff, ?_⟩
  · have hresults := results_append step f.state (f.pulled step calls) (f.rest step calls).source
    rw [← hgives.source_eq, ← hgives.results_eq] at hresults
    exact ⟨_, hresults.symm⟩
  · intro hran
    have hnil := hgives.exhausted hran
    have hsource := hgives.source_eq
    rw [hnil, List.append_nil] at hsource
    exact ⟨hsource.symm, calls_of_source_eq_nil step hnil⟩

variable {step} in
/-- Where the number of results only depends on the number of inputs, so does the number of inputs
pulled on the number of results. -/
theorem PullsLazily.count {calls : List Call} (hf : PullsLazily step f calls) (count : Nat → Nat)
    (hcount : ∀ xs, (results step ⟨f.state, xs⟩).length = count xs.length)
    (hran : f.ranOut step calls = false) :
    (f.returned step calls).length = count (f.pulled step calls).length ∧
      ∀ n < (f.pulled step calls).length, count n < (f.returned step calls).length := by
  refine ⟨by rw [hf.returned_eq, hcount], fun n hn => ?_⟩
  have hlength := congrArg List.length hf.source_eq
  have hiff := hf.length_pulled_le_iff hran n
  rw [List.length_append] at hlength
  rw [hcount, List.length_take_of_le (by omega)] at hiff
  omega

end Feed

namespace Decimator

open Aggregator

variable {w : SampleWidth} {limit : BlockLimit w} {d : Decimator w limit} {r : Rectifier w}
  {factor : Nat}

theorem length_push (d : Decimator w limit) (x : Sample) :
    (d.push x).1.toList.length = (d.pending + 1) / d.factor := by
  have hlt := d.pending_lt
  simp only [push]
  split
  · next hfull =>
      rw [hfull, Nat.div_self d.factor_pos]
      rfl
  · have hshort : d.pending + 1 < d.factor := by omega
    exact (Nat.div_eq_of_lt hshort).symm

/-- Every full block gives a sum, whatever its samples are. -/
theorem length_sums (d : Decimator w limit) (samples : List Sample) :
    (sums d samples).length = (d.pending + samples.length) / d.factor := by
  induction samples generalizing d with
  | nil => exact (Nat.div_eq_of_lt d.pending_lt).symm
  | cons x samples ih =>
      have hcons : sums d (x :: samples) = (d.push x).1.toList ++ sums (d.push x).2 samples :=
        sums_cons d x samples
      have hdiv := Nat.div_add_mod (d.pending + 1) d.factor
      rw [hcons, List.length_append, length_push, ih, factor_push, pending_push,
        ← Nat.mul_add_div d.factor_pos, ← Nat.add_assoc, hdiv, List.length_cons, Nat.add_right_comm,
        Nat.add_assoc d.pending]

theorem length_pulled (hd : d.pending = 0) {samples : List Sample} {calls : List Feed.Call}
    (hran : Feed.ranOut Aggregator.push ⟨d, samples⟩ calls = false) :
    (Feed.pulled Aggregator.push ⟨d, samples⟩ calls).length =
      (Feed.returned Aggregator.push ⟨d, samples⟩ calls).length * d.factor := by
  have hcount : ∀ xs, (sums d xs).length = xs.length / d.factor := by
    intro xs
    rw [d.length_sums, hd, Nat.zero_add]
  obtain ⟨hreturned, hfewer⟩ :=
    (Feed.pullsLazily Aggregator.push ⟨d, samples⟩ calls).count (· / d.factor) hcount hran
  apply Nat.le_antisymm
  · refine Nat.le_of_not_lt fun hlt => ?_
    have hless := hfewer _ hlt
    rw [Nat.mul_div_cancel _ d.factor_pos] at hless
    exact Nat.lt_irrefl _ hless
  · rw [hreturned]
    exact Nat.div_mul_le_self _ _

end Decimator

namespace MovingSum

open Aggregator

variable {w : SampleWidth} {c : Capacity} {m : MovingSum w c} {r : Rectifier w} {width : Nat}

/-- Every sample gives a sum but those that fill the window, the last of them apart. -/
theorem length_sums (m : MovingSum w c) (samples : List Sample) :
    (sums m samples).length = samples.length - (m.width - 1 - m.filled) := by
  induction samples generalizing m with
  | nil => exact (Nat.zero_sub _).symm
  | cons x samples ih =>
      have hcons : sums m (x :: samples) = (m.push x).1.toList ++ sums (m.push x).2 samples :=
        sums_cons m x samples
      have hpos := m.buffer.width_pos
      have hfilled := m.filled_push x
      have hle : m.filled ≤ m.width := m.filled_le
      rw [hcons, List.length_append, ih, width_push, m.push_fst, List.length_cons]
      by_cases hwarm : (m.push x).2.IsWarm
      · have hfull : min (m.filled + 1) m.width = m.width := hfilled.symm.trans hwarm
        rw [if_pos hwarm, hfilled]
        simp only [Option.toList_some, List.length_singleton]
        omega
      · have hshort : min (m.filled + 1) m.width ≠ m.width := fun h => hwarm (hfilled.trans h)
        rw [if_neg hwarm, hfilled]
        simp only [Option.toList_none, List.length_nil]
        omega

theorem length_pulled (hm : m.filled = 0) {samples : List Sample} {calls : List Feed.Call}
    (hran : Feed.ranOut Aggregator.push ⟨m, samples⟩ calls = false) :
    (Feed.pulled Aggregator.push ⟨m, samples⟩ calls).length =
      let count := (Feed.returned Aggregator.push ⟨m, samples⟩ calls).length
      if count = 0 then 0 else count + m.width - 1 := by
  have hcount : ∀ xs, (sums m xs).length = xs.length - (m.width - 1) := by
    intro xs
    rw [m.length_sums, hm, Nat.sub_zero]
  obtain ⟨hreturned, hfewer⟩ :=
    (Feed.pullsLazily Aggregator.push ⟨m, samples⟩ calls).count (· - (m.width - 1)) hcount hran
  have hpos : 0 < m.width := m.buffer.width_pos
  have hzero := hfewer 0
  dsimp only at hreturned hzero ⊢
  split <;> omega

end MovingSum

namespace Aggregator

open Feed

/-- A source of sums pulls lazily, whatever the aggregator, and so does a source of triggers. Unless
a call ran out, the samples that a fresh aggregator pulled are those of as many full blocks as sums
were returned, or those of the first window and one more for each sum after the first. -/
theorem sources_pull_lazily :
    (∀ (α : Type) [Aggregator α] (a : α) (samples : List Sample) (calls : List Call),
      PullsLazily push ⟨a, samples⟩ calls) ∧
    (∀ (w : SampleWidth) (limit : BlockLimit w) (r : Rectifier w) (factor : Nat)
      (d : Decimator w limit), Decimator.ofFactor factor r = .ok d → ∀ samples calls,
      let source : Source (Decimator w limit) := ⟨d, samples⟩
      source.ranOut push calls = false →
      (source.pulled push calls).length = (source.returned push calls).length * factor) ∧
    (∀ (w : SampleWidth) (c : Capacity) (r : Rectifier w) (width : Nat) (m : MovingSum w c),
      MovingSum.ofWidth width r = .ok m → ∀ samples calls,
      let source : Source (MovingSum w c) := ⟨m, samples⟩
      let count := (source.returned push calls).length
      source.ranOut push calls = false →
      (source.pulled push calls).length = if count = 0 then 0 else count + width - 1) ∧
    ∀ (e : EdgeCounter) (items : List (Position × Total)) (calls : List Call),
      PullsLazily EdgeCounter.signalAt ⟨e, items⟩ calls := by
  refine ⟨fun α _ a samples calls => pullsLazily push _ calls, ?_, ?_,
    fun e items calls => pullsLazily EdgeCounter.signalAt _ calls⟩
  · intro w limit r factor d hd samples calls source hran
    obtain ⟨_, rfl⟩ := Decimator.eq_fresh_of_ofFactor hd
    exact Decimator.length_pulled rfl hran
  · intro w c r width m hm samples calls source count hran
    obtain ⟨_, rfl⟩ := MovingSum.eq_fresh_of_ofWidth hm
    exact MovingSum.length_pulled rfl hran

theorem sources_pull_lazily_of_five_samples :
    let c : Capacity := { slots := 4 }
    let r : Rectifier deployedWidth := { enabled := false }
    let calls : List Call := [.next, .take 0, .take 1]
    ∃ (d : Decimator deployedWidth deployedLimit) (m : MovingSum deployedWidth c),
      Decimator.ofFactor 2 r = .ok d ∧ MovingSum.ofWidth 3 r = .ok m ∧
      (pulled push ⟨d, [1, 2, 3, 4, 5]⟩ calls).length = 4 ∧
      (pulled push ⟨m, [1, 2, 3, 4, 5]⟩ calls).length = 4 ∧
      pulled push ⟨d, [1, 2, 3, 4, 5]⟩ (calls ++ [.drain]) = [1, 2, 3, 4, 5] := by
  intro c r calls
  have hfactor : 1 ≤ 2 ∧ 2 ≤ deployedLimit.max := by decide
  have hwidth : 1 ≤ 3 ∧ 3 ≤ c.slots := by decide
  have hd := Decimator.ofFactor_of_allowed r hfactor
  have hm := MovingSum.ofWidth_of_allowed r hwidth
  obtain ⟨hlazy, hblocks, hwindows, -⟩ := sources_pull_lazily
  exact ⟨_, _, hd, hm, hblocks _ _ _ _ _ hd _ calls rfl, hwindows _ _ _ _ _ hm _ calls rfl,
    ((hlazy _ _ _ _).exhausted rfl).1⟩

end Aggregator

end DigitiserSums
