import DigitiserSums.Proofs.Streams

/-!
# Block sums at the ends of blocks

A decimator adds up a block and starts over; a moving sum adds what enters its window and takes away
what leaves it. The window of `n` samples that ends with a block of `n` samples is that block. So,
on the same stream, block sums are the moving sums at the ends of the blocks, and what happens at
any one push tells so already.
-/

namespace DigitiserSums

variable {absoluteValue : Bool} {foldPolicy : FoldPolicy} {n : Nat}

/-- A session without an edge counter. -/
def SessionConfig.untriggered (absoluteValue : Bool) (foldPolicy : FoldPolicy)
    (aggregation : Aggregation) : SessionConfig :=
  { aggregation, absoluteValue, foldPolicy }

namespace Session

open SessionConfig

/-! ## Both sessions at a push -/

/-- What a session gives for the next sample of a stream, if it takes it. -/
def replyTo (s : Session) (front : List Sample) (x : Sample) :
    Except SampleOutOfRange (Option Emission) :=
  ((s.after (front.map .push)).push x).map Prod.fst

theorem foldl_takenNext_map_push (taken stream : List Sample) :
    (stream.map Step.push).foldl takenNext taken = taken ++ stream.filter (· ≤ 1023) := by
  induction stream generalizing taken with
  | nil => simp
  | cons x stream ih =>
      have hnext : takenNext taken (.push x) = taken ++ [x].filter (· ≤ 1023) := rfl
      rw [List.map_cons, List.foldl_cons, ih, hnext, List.append_assoc, ← List.filter_append,
        List.singleton_append]

/-- The block that ends with a sample is the window that ends with it. -/
theorem emission?_downsample (xs : List Sample) (x : Sample) :
    (untriggered absoluteValue foldPolicy (.downsample n)).emission? xs x =
      if n ∣ xs.length + 1 then
        (untriggered absoluteValue foldPolicy (.movingSum n)).emission? xs x
      else none := by
  unfold emission? Aggregation.due untriggered
  simp only [length_numbers, List.length_append, List.length_singleton, Option.bind_none]
  by_cases hd : n ∣ xs.length + 1
  · have hle : n ≤ xs.length + 1 := Nat.le_of_dvd (Nat.succ_pos _) hd
    rw [if_pos hd, if_pos hd, if_pos hle]
    rfl
  · rw [if_neg hd, if_neg hd, Option.map_none]

theorem replyTo_of_le {s : Session} {config : SessionConfig} (hstart : ofConfig config = .ok s)
    (front : List Sample) {x : Sample} (hx : x ≤ 1023) :
    s.replyTo front x = .ok (config.emission? (front.filter (· ≤ 1023)) x) := by
  have h := holds_after hstart (front.map .push)
  rw [taken, foldl_takenNext_map_push, List.nil_append] at h
  obtain ⟨next, hpush, -⟩ := h.push hx
  rw [replyTo, hpush]
  rfl

theorem replyTo_of_not_le (s : Session) (front : List Sample) {x : Sample} (hx : ¬ x ≤ 1023) :
    s.replyTo front x = .error ⟨x, 1023⟩ := by
  rw [replyTo, push_eq_error _ hx]
  rfl

/-! ## Whole streams -/

namespace Holds

variable {s t : Session} {xs : List Sample}

/-- As long as the places of the samples fit their word, the emissions at the ends of blocks are
known by their places. -/
theorem emissions_downsample
    (hs : s.Holds (untriggered absoluteValue foldPolicy (.downsample n)) xs)
    (ht : t.Holds (untriggered absoluteValue foldPolicy (.movingSum n)) xs) (stream : List Sample)
    (hcount : xs.length + (stream.filter (· ≤ 1023)).length ≤ UInt64.size) :
    s.emissions stream = (t.emissions stream).filter fun e => n ∣ e.sampleIndex.toNat + 1 := by
  -- Both sessions have taken the same samples before each sample of the stream.
  induction stream generalizing s t xs with
  | nil => rfl
  | cons x stream ih =>
      by_cases hx : x ≤ 1023
      · rw [List.filter_cons_of_pos (by simpa using hx), List.length_cons] at hcount
        obtain ⟨s', hpush, hs'⟩ := hs.push hx
        obtain ⟨t', hpush', ht'⟩ := ht.push hx
        have hrest := ih hs' ht' (by rw [List.length_append, List.length_singleton]; omega)
        have hplace : (UInt64.ofNat xs.length).toNat = xs.length :=
          UInt64.toNat_ofNat_of_lt' (by omega)
        rw [emissions_cons_of_ok hpush, emissions_cons_of_ok hpush', List.filter_append, ← hrest,
          emission?_downsample]
        congr 1
        cases hdue : (untriggered absoluteValue foldPolicy (.movingSum n)).emission? xs x with
        | none => simp
        | some e =>
            obtain ⟨sum, -, rfl⟩ := Option.map_eq_some_iff.1 hdue
            by_cases hd : n ∣ xs.length + 1
            · simp [hd, hplace]
            · simp [hd, hplace]
      · rw [List.filter_cons_of_neg (by simpa using hx)] at hcount
        rw [emissions_cons_of_error (s.push_eq_error hx),
          emissions_cons_of_error (t.push_eq_error hx), ih hs ht hcount]

end Holds

theorem exists_ofConfig_downsample (absoluteValue : Bool) (foldPolicy : FoldPolicy) (hpos : 1 ≤ n)
    (hmax : n ≤ deployedMaxFactor) :
    ∃ s, ofConfig (untriggered absoluteValue foldPolicy (.downsample n)) = .ok s := by
  have hpipeline := congrArg (Except.map Pipeline.downsample) (Decimator.ofFactor_of_allowed
    (untriggered absoluteValue foldPolicy (.downsample n)).rectifier ⟨hpos, hmax⟩)
  exact ⟨⟨_, none, 0, 0⟩, bind_eq_ok_iff.2 ⟨_, hpipeline, rfl⟩⟩

theorem exists_ofConfig_movingSum (absoluteValue : Bool) (foldPolicy : FoldPolicy) (hpos : 1 ≤ n)
    (hmax : n ≤ deployedMaxWindow) :
    ∃ s, ofConfig (untriggered absoluteValue foldPolicy (.movingSum n)) = .ok s := by
  have hpipeline := congrArg (Except.map Pipeline.movingSum) (MovingSum.ofWidth_of_allowed
    (untriggered absoluteValue foldPolicy (.movingSum n)).rectifier ⟨hpos, hmax⟩)
  exact ⟨⟨_, none, 0, 0⟩, bind_eq_ok_iff.2 ⟨_, hpipeline, rfl⟩⟩

/-- Let blocks and windows have the same size, which both allow. Whatever came before, a sample is
refused by both for the same reason; and where a sample completes a block, the block gives what the
window gives, and elsewhere it gives nothing. So of a stream whose places fit their word, the block
sums are the moving sums at the places `i` with `n ∣ i + 1`. -/
theorem downsample_eq_movingSum_at_block_ends (absoluteValue : Bool) (foldPolicy : FoldPolicy)
    (hpos : 1 ≤ n) (hmax : n ≤ 128) :
    ∃ blocks windows,
      ofConfig (untriggered absoluteValue foldPolicy (.downsample n)) = .ok blocks ∧
      ofConfig (untriggered absoluteValue foldPolicy (.movingSum n)) = .ok windows ∧
      (∀ front x, blocks.replyTo front x = (windows.replyTo front x).map fun emission =>
        if n ∣ ((front ++ [x]).filter (· ≤ 1023)).length then emission else none) ∧
      ∀ stream, (stream.filter (· ≤ 1023)).length ≤ UInt64.size →
        blocks.emissions stream =
          (windows.emissions stream).filter fun e => n ∣ e.sampleIndex.toNat + 1 := by
  have hmax' : n ≤ deployedMaxFactor := Nat.le_trans hmax (by decide)
  obtain ⟨blocks, hblocks⟩ := exists_ofConfig_downsample absoluteValue foldPolicy hpos hmax'
  obtain ⟨windows, hwindows⟩ := exists_ofConfig_movingSum absoluteValue foldPolicy hpos hmax
  refine ⟨blocks, windows, hblocks, hwindows, fun front x => ?_, fun stream hcount => ?_⟩
  · by_cases hx : x ≤ 1023
    · have hlength : ((front ++ [x]).filter (· ≤ 1023)).length =
          (front.filter (· ≤ 1023)).length + 1 := by
        rw [List.filter_append, List.filter_cons_of_pos (by simpa using hx), List.length_append]
        rfl
      rw [replyTo_of_le hblocks front hx, replyTo_of_le hwindows front hx,
        emission?_downsample, hlength]
      rfl
    · rw [replyTo_of_not_le blocks front hx, replyTo_of_not_le windows front hx]
      rfl
  · have hcount' : ([] : List Sample).length + (stream.filter (· ≤ 1023)).length ≤ UInt64.size := by
      simpa using hcount
    exact (holds_ofConfig hblocks).emissions_downsample (holds_ofConfig hwindows) stream hcount'

theorem downsample_eq_movingSum_at_block_ends_of_pairs :
    ∃ blocks windows,
      ofConfig (untriggered true .reflect (.downsample 2)) = .ok blocks ∧
      ofConfig (untriggered true .reflect (.movingSum 2)) = .ok windows ∧
      (windows.emissions [600, 2000, 500, 700, 800]).map Emission.sum = [1123, 1223, 1500] ∧
      (blocks.emissions [600, 2000, 500, 700, 800]).map Emission.sum = [1123, 1500] := by
  obtain ⟨blocks, windows, hblocks, hwindows, -, hstream⟩ :=
    downsample_eq_movingSum_at_block_ends (n := 2) true .reflect (by decide) (by decide)
  have hcount : ([600, 2000, 500, 700, 800].filter fun x : Sample => decide (x ≤ 1023)).length ≤
      UInt64.size := by decide
  refine ⟨blocks, windows, hblocks, hwindows, ?_, ?_⟩
  · cases hwindows
    decide +kernel
  · rw [hstream _ hcount]
    cases hwindows
    decide +kernel

end Session

end DigitiserSums
