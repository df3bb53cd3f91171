import DigitiserSums.Proofs.Resizing

/-!
# Blocks without gaps

A decimator starts over when it is told to or is given another block length. The sums that it gave
since then are those of full blocks which follow one another without a gap, the first of them
beginning at the start. The samples of the block under way are in no sum yet.
-/

namespace DigitiserSums

namespace Aggregator

/-- A step that takes no sample beyond `top` without a check. -/
def Step.InRange (top : Sample) : Step → Prop
  | .push x => x ≤ top
  | _ => True

instance (top : Sample) : (st : Step) → Decidable (st.InRange top)
  | .push x => inferInstanceAs (Decidable (x ≤ top))
  | .tryPush _ => .isTrue trivial
  | .restart => .isTrue trivial
  | .reset _ => .isTrue trivial

/-- The sums since the last start, once a reply is added. -/
def givenNext (sums : List Total) : Reply → List Total
  | .pushed sum => sums ++ sum.toList
  | .tried (.ok sum) => sums ++ sum.toList
  | .tried (.error _) => sums
  | .restarted => []
  | .resized (.ok ()) => []
  | .resized (.error _) => sums

/-- The sums that were given since the last start. -/
def given (replies : List Reply) : List Total :=
  replies.foldl givenNext []

section Keeping

variable {α : Type} [Resizable α] {top : Sample} {max : Nat} {P : α → Stretch → List Total → Prop}
  {a : α} {t : Stretch} {sums : List Total}

/-- What holds of an aggregator, its stretch and the sums given is kept by every step in range if it
is kept by the push of a sample in range and holds again at a start. -/
theorem step_keeps
    (htry : ∀ x, tryPush a x = if x ≤ top then .ok (push a x) else .error ⟨x, top⟩)
    (hpush : ∀ x ≤ top, P (push a x).2 (t.take x) (sums ++ (push a x).1.toList))
    (hrestart : P (restart a) t.restart [])
    (hreset : ∀ size, if 1 ≤ size ∧ size ≤ max
      then ∃ b, Resizable.reset a size = .ok b ∧ P b { size } []
      else ∃ e, Resizable.reset a size = .error e)
    (h : P a t sums) {st : Step} (hst : st.InRange top) :
    P (step a st).2 (extend top max t st) (givenNext sums (step a st).1) := by
  cases st with
  | push x => exact hpush x hst
  | tryPush x =>
      by_cases hx : x ≤ top
      · simp only [step, htry, if_pos hx, extend]
        exact hpush x hx
      · simp only [step, htry, if_neg hx, extend]
        exact h
  | restart => exact hrestart
  | reset size =>
      have hsize := hreset size
      by_cases hallowed : 1 ≤ size ∧ size ≤ max
      · rw [if_pos hallowed] at hsize
        obtain ⟨b, hb, hstart⟩ := hsize
        simp only [step, hb, extend, Stretch.resize, if_pos hallowed]
        exact hstart
      · rw [if_neg hallowed] at hsize
        obtain ⟨e, he⟩ := hsize
        simp only [step, he, extend, Stretch.resize, if_neg hallowed]
        exact h

/-- What every step in range keeps is kept by a run. -/
theorem scan_keeps
    (hstep : ∀ {a t sums st}, Step.InRange top st → P a t sums →
      P (step a st).2 (extend top max t st) (givenNext sums (step a st).1))
    (h : P a t sums) {steps : List Step} (hsteps : ∀ st ∈ steps, st.InRange top) :
    P (scan step a steps).2 (steps.foldl (extend top max) t)
      ((scan step a steps).1.foldl givenNext sums) := by
  induction steps generalizing a t sums with
  | nil => exact h
  | cons st steps ih =>
      exact ih (hstep (hsteps st List.mem_cons_self) h) fun st hst =>
        hsteps st (List.mem_cons_of_mem _ hst)

end Keeping

end Aggregator

/-- The sums given are those of the samples taken, with one sample more as before it. -/
theorem Rectifier.map_toNat_append_due {w : SampleWidth} {r : Rectifier w} {a : Aggregation}
    {xs : List Sample} {x : Sample} {sums : List Total} {sum : Option Total}
    (hsums : sums.map UInt32.toNat = a.sums (r.numbers xs))
    (hdue : sum.map UInt32.toNat = a.due (r.numbers (xs ++ [x]))) :
    (sums ++ sum.toList).map UInt32.toNat = a.sums (r.numbers (xs ++ [x])) := by
  rw [r.numbers_concat] at hdue ⊢
  rw [Aggregation.sums_concat, ← hdue, List.map_append, hsums]
  cases sum <;> rfl

namespace Decimator

open Aggregator

variable {w : SampleWidth} {limit : BlockLimit w} {d : Decimator w limit} {r : Rectifier w}
  {t : Stretch} {factor : Nat} {sums : List Total}

theorem tryPush_eq (d : Decimator w limit) (x : Sample) :
    tryPush d x = if x ≤ w.fullScale then .ok (d.push x) else .error ⟨x, w.fullScale⟩ :=
  tryPush_eq_of_check (fun _ => rfl) x

/-- The decimator after a stretch, with the sums that it gave and its blocks as long as was asked
for. -/
structure HoldsStretch (d : Decimator w limit) (r : Rectifier w) (t : Stretch)
    (sums : List Total) : Prop where
  factor_eq : d.factor = t.size
  rectifier_eq : d.rectifier = r
  samples : d.Holds t.samples
  sums_eq : sums.map UInt32.toNat = (Aggregation.downsample t.size).sums (r.numbers t.samples)

theorem holdsStretch_fresh (r : Rectifier w) (h : 1 ≤ factor ∧ factor ≤ limit.max) :
    (fresh r factor h.1 h.2 : Decimator w limit).HoldsStretch r { size := factor } [] :=
  ⟨rfl, rfl, holds_fresh r factor h.1 h.2,
    (Aggregation.sums_nil (a := .downsample factor) h.1).symm⟩

namespace HoldsStretch

theorem push (h : d.HoldsStretch r t sums) {x : Sample} (hx : x ≤ w.fullScale) :
    (d.push x).2.HoldsStretch r (t.take x) (sums ++ (d.push x).1.toList) := by
  have hdue := h.samples.push_fst hx
  rw [h.factor_eq, h.rectifier_eq] at hdue
  exact ⟨(d.factor_push x).trans h.factor_eq, (d.rectifier_push x).trans h.rectifier_eq,
    h.samples.push hx, Rectifier.map_toNat_append_due h.sums_eq hdue⟩

theorem restart (h : d.HoldsStretch r t sums) : d.restart.HoldsStretch r t.restart [] := by
  have hpos : 0 < t.size := h.factor_eq ▸ d.factor_pos
  exact ⟨h.factor_eq, h.rectifier_eq, d.holds_restart,
    (Aggregation.sums_nil (a := .downsample t.size) hpos).symm⟩

/-- Every step that is in range keeps a decimator true to its stretch. -/
theorem step (h : d.HoldsStretch r t sums) {st : Step} (hst : st.InRange w.fullScale) :
    (step d st).2.HoldsStretch r (extend w.fullScale limit.max t st)
      (givenNext sums (step d st).1) := by
  refine step_keeps (P := (HoldsStretch · r)) d.tryPush_eq (fun _ => h.push) h.restart
    (fun factor => ?_) h hst
  have hreset : Resizable.reset d factor = ofFactor factor r :=
    congrArg (ofFactor factor) h.rectifier_eq
  rw [hreset]
  split
  · next hallowed => exact ⟨_, ofFactor_of_allowed r hallowed, holdsStretch_fresh r hallowed⟩
  · next hallowed => exact ⟨_, ofFactor_of_not_allowed r hallowed⟩

theorem scan (h : d.HoldsStretch r t sums) {steps : List Step}
    (hsteps : ∀ st ∈ steps, st.InRange w.fullScale) :
    (scan Aggregator.step d steps).2.HoldsStretch r
      (steps.foldl (extend w.fullScale limit.max) t)
      ((scan Aggregator.step d steps).1.foldl givenNext sums) :=
  scan_keeps (P := (HoldsStretch · r)) (fun hst h => h.step hst) h hsteps

/-- The samples of a stretch are those of full blocks, whose sums were given, and those of the block
under way, whose sum has not been given. -/
theorem exists_blocks (h : d.HoldsStretch r t sums) :
    d.pending = t.samples.length % t.size ∧
      ∃ (blocks : List (List Nat)) (unfinished : List Nat),
        r.numbers t.samples = blocks.flatten ++ unfinished ∧
        (∀ block ∈ blocks, block.length = t.size) ∧ unfinished.length = d.pending ∧
        sums.map UInt32.toNat = blocks.map List.sum ∧ d.total.toNat = unfinished.sum := by
  have hpending : d.pending = (r.numbers t.samples).length % t.size := by
    rw [h.samples.pending_eq, h.factor_eq, r.length_numbers]
  have hlength := length_drop_blocks t.size (r.numbers t.samples)
  rw [← hpending] at hlength
  refine ⟨by rw [hpending, r.length_numbers], blocks t.size (r.numbers t.samples), _,
    (flatten_blocks_append t.size _).symm, fun _ => length_of_mem_blocks, hlength, ?_, ?_⟩
  · rw [h.sums_eq, ← blockSums_eq_map_sum]
    rfl
  · have hnewest : (r.numbers t.samples).length - d.pending =
        t.size * ((r.numbers t.samples).length / t.size) := by
      have hdiv := Nat.div_add_mod (r.numbers t.samples).length t.size
      omega
    rw [h.samples.toNat_total, h.rectifier_eq, newestSum, hnewest]

end HoldsStretch

/-- A decimator with an allowed block length can be had. Let any steps follow, of which those that
push without a check push samples in range. Then the samples taken since the last start are, after
folding, those of full blocks of the length in force, one right after the other, and of the block
under way. The sums given since then are the exact sums of the full blocks and nothing else, and the
total kept is that of the block under way. The next push of a sample in range stays in range at each
operation, and a push that checks does the same with such a sample and refuses any other. -/
theorem blocks_after_steps (r : Rectifier w) (hfactor : 1 ≤ factor ∧ factor ≤ limit.max) :
    ∃ start : Decimator w limit, ofFactor factor r = .ok start ∧
      ∀ steps : List Step, (∀ st ∈ steps, st.InRange w.fullScale) →
        let sums := given (DigitiserSums.scan Aggregator.step start steps).1
        let d := after start steps
        let t := stretch w.fullScale limit.max factor steps
        d.factor = t.size ∧
        d.pending = t.samples.length % t.size ∧
        (∃ (blocks : List (List Nat)) (unfinished : List Nat),
          r.numbers t.samples = blocks.flatten ++ unfinished ∧
          (∀ block ∈ blocks, block.length = t.size) ∧ unfinished.length = d.pending ∧
          sums.map UInt32.toNat = blocks.map List.sum ∧ d.total.toNat = unfinished.sum) ∧
        (∀ x ≤ w.fullScale, d.push? x = some (d.push x)) ∧
        ∀ x, tryPush d x =
          if x ≤ w.fullScale then .ok (d.push x) else .error ⟨x, w.fullScale⟩ := by
  refine ⟨_, ofFactor_of_allowed r hfactor, fun steps hsteps => ?_⟩
  have h := (holdsStretch_fresh r hfactor).scan hsteps
  rw [scan_step_snd] at h
  obtain ⟨hpending, hblocks⟩ := h.exists_blocks
  exact ⟨h.factor_eq, hpending, hblocks, fun _ => h.samples.push?_eq, tryPush_eq _⟩

theorem blocks_after_steps_of_four_bits :
    let w : SampleWidth := { bits := 4 }
    let limit : BlockLimit w := ⟨5, by decide⟩
    let r : Rectifier w := { enabled := true }
    let steps : List Step :=
      [.push 3, .push 9, .reset 3, .push 1, .tryPush 20, .reset 6, .push 15, .push 0, .tryPush 8]
    (1 ≤ 2 ∧ 2 ≤ limit.max) ∧ (∀ st ∈ steps, st.InRange w.fullScale) ∧
      ∃ start : Decimator w limit, ofFactor 2 r = .ok start ∧
        (after start steps).pending = 1 ∧ tryPush (after start steps) 16 = .error ⟨16, 15⟩ ∧
        (∃ (blocks : List (List Nat)) (unfinished : List Nat),
          [14, 15, 15, 8] = blocks.flatten ++ unfinished ∧
          (∀ block ∈ blocks, block.length = 3) ∧ unfinished.length = 1 ∧
          (given (DigitiserSums.scan Aggregator.step start steps).1).map UInt32.toNat =
            blocks.map List.sum) ∧
        (after start steps).push? 15 = some ((after start steps).push 15) := by
  intro w limit r steps
  have hallowed : 1 ≤ 2 ∧ 2 ≤ limit.max := by decide
  have hsteps : ∀ st ∈ steps, st.InRange w.fullScale := by decide
  obtain ⟨start, hstart, h⟩ := blocks_after_steps r hallowed
  obtain ⟨-, hpending, ⟨blocks, unfinished, hnumbers, hlength, hrest, hsums, -⟩, hpush, htry⟩ :=
    h steps hsteps
  have hone := hpending.trans (show _ = 1 by decide)
  exact ⟨hallowed, hsteps, start, hstart, hone, (htry 16).trans (if_neg (by decide)),
    ⟨blocks, unfinished, (show _ = _ by decide).trans hnumbers, hlength, hrest.trans hone, hsums⟩,
    hpush 15 (by decide)⟩

end Decimator

end DigitiserSums
