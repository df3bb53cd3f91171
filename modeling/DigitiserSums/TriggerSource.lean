import DigitiserSums.Aggregator
import DigitiserSums.EdgeCounter

/-!
# Triggers pulled from samples

An edge counter may pull its sums from an aggregator, which in turn pulls its samples. Asked for a
trigger, it takes sums one by one, numbers them and stops at the first that completes a trigger.
-/

namespace DigitiserSums

open Aggregator

/-- An edge counter with the sums that it has still to take. -/
structure TriggerSource (α : Type) where
  counter : EdgeCounter
  /-- The place of the next sum. -/
  place : Position
  sums : Source α

namespace TriggerSource

variable {α : Type} [Aggregator α]

/-- Takes sums up to the one that completes a trigger; without such a sum, takes them all. -/
def next (t : TriggerSource α) : Option Trigger × TriggerSource α :=
  match h : t.sums.next with
  | (none, sums) => (none, { t with sums })
  | (some sum, sums) =>
    match t.counter.signal t.place sum with
    | (some trigger, counter) => (some trigger, ⟨counter, t.place + 1, sums⟩)
    | (none, counter) =>
      have := Feed.length_source_next push h
      next ⟨counter, t.place + 1, sums⟩
termination_by t.sums.source.length

/-- Asks for at most `n` triggers, and stops at the first that does not come. -/
def take : Nat → TriggerSource α → List Trigger × TriggerSource α
  | 0, t => ([], t)
  | n + 1, t =>
    match t.next with
    | (none, t) => ([], t)
    | (some trigger, t) =>
      let (rest, t) := take n t
      (trigger :: rest, t)

/-- Asks for every trigger. As each takes a sample, there are no more of them than samples. -/
def drain (t : TriggerSource α) : List Trigger × TriggerSource α :=
  t.take (t.sums.source.length + 1)

/-- The triggers of all the sums that the samples give. -/
def results (t : TriggerSource α) : List Trigger :=
  (t.counter.signalAll t.place (t.sums.results push)).1.filterMap id

theorem results_of_next {f g : Source α} {sum : Option Total} (h : f.next = (sum, g)) :
    f.results push = sum.toList ++ g.results push := by
  have hresults := Feed.results_eq_next push f
  rwa [show Feed.next push f = (sum, g) from h] at hresults

/-- Asking for one trigger neither loses nor repeats any. -/
theorem results_eq_next (t : TriggerSource α) :
    t.results = t.next.1.toList ++ t.next.2.results := by
  fun_induction next t with
  | case1 t sums h => simp [results, results_of_next h]
  | case2 t sum sums h trigger counter hsignal =>
    simp [results, results_of_next h, EdgeCounter.signalAll, EdgeCounter.numbered,
      EdgeCounter.signalAt, hsignal]
  | case3 t sum sums h counter hsignal _ ih =>
    rw [← ih]
    simp [results, results_of_next h, EdgeCounter.signalAll, EdgeCounter.numbered,
      EdgeCounter.signalAt, hsignal]

/-- A trigger takes a sample at least. -/
theorem length_source_next {t u : TriggerSource α} {trigger : Trigger}
    (h : t.next = (some trigger, u)) : u.sums.source.length < t.sums.source.length := by
  fun_induction next t with
  | case1 t sums hsums => cases h
  | case2 t sum sums hsums trigger' counter hsignal =>
    cases h
    exact Feed.length_source_next push hsums
  | case3 t sum sums hsums counter hsignal hlt ih => exact Nat.lt_trans (ih h) hlt

/-- Without a trigger, no sum is left. -/
theorem results_next_eq_nil {t u : TriggerSource α} (h : t.next = (none, u)) : u.results = [] := by
  fun_induction next t with
  | case1 t sums hsums =>
    cases h
    simp [results, Feed.results, Feed.source_next_eq_nil push hsums, EdgeCounter.signalAll,
      EdgeCounter.numbered]
  | case2 t sum sums hsums trigger counter hsignal => cases h
  | case3 t sum sums hsums counter hsignal _ ih => exact ih h

/-- Asking for more triggers than there are samples gives all of them. -/
theorem take_fst_of_length_lt {n : Nat} {t : TriggerSource α} (h : t.sums.source.length < n) :
    (t.take n).1 = t.results := by
  induction n generalizing t with
  | zero => omega
  | succ n ih =>
    rw [results_eq_next]
    rcases hnext : t.next with ⟨_ | trigger, u⟩
    · simp [take, hnext, results_next_eq_nil hnext]
    · have hlength := length_source_next hnext
      simp [take, hnext, ih (t := u) (by omega)]

theorem drain_fst (t : TriggerSource α) : t.drain.1 = t.results :=
  take_fst_of_length_lt (Nat.lt_succ_self _)

end TriggerSource

end DigitiserSums
