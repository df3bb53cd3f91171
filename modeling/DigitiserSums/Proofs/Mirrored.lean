import DigitiserSums.Proofs.SideBySide
import DigitiserSums.Proofs.WholeNumbers

/-!
# Upside down

Turn every sample of a stream upside down, so that a sample and its image add up to full scale. Then
every sum and its image add up to as many full scales as there are samples in it, falls become
rises, and where the sums cross a threshold downwards the images cross its image upwards. Two
streams are compared through numbers that add up to the same; the sums are small enough to be exact
when they meet a threshold.
-/

namespace DigitiserSums

/-- Two numbers that add up to `top`. -/
def Complementary (top x y : Nat) : Prop :=
  x + y = top

instance (top x y : Nat) : Decidable (Complementary top x y) :=
  inferInstanceAs (Decidable (_ = _))

/-- One more of each. -/
theorem forall₂_concat {α β : Type} {R : α → β → Prop} {xs : List α} {ys : List β} {x : α} {y : β}
    (h : List.Forall₂ R xs ys) (hlast : R x y) : List.Forall₂ R (xs ++ [x]) (ys ++ [y]) :=
  List.rel_append h (.cons hlast .nil)

/-! ## Sums -/

section Sums

variable {m n k : Nat} {xs ys : List Nat}

theorem complementary_sum (h : List.Forall₂ (Complementary m) xs ys) :
    Complementary (xs.length * m) xs.sum ys.sum := by
  unfold Complementary
  induction h with
  | nil => simp
  | cons hfirst _ ih =>
      have hfirst : _ + _ = m := hfirst
      rw [List.sum_cons, List.sum_cons, List.length_cons, Nat.succ_mul, ← ih]
      omega

/-- A stretch of `n` numbers and the same stretch of the others. -/
theorem complementary_sum_take_drop (h : List.Forall₂ (Complementary m) xs ys)
    (hk : k + n ≤ xs.length) :
    Complementary (n * m) ((xs.drop k).take n).sum ((ys.drop k).take n).sum := by
  have hlength : ((xs.drop k).take n).length = n := by
    rw [List.length_take, List.length_drop]
    omega
  have hsum := complementary_sum (List.forall₂_take n (List.forall₂_drop k h))
  rwa [hlength] at hsum

theorem complementary_newestSum (h : List.Forall₂ (Complementary m) xs ys) (hn : n ≤ xs.length) :
    Complementary (n * m) (newestSum n xs) (newestSum n ys) := by
  have hlength := h.length_eq
  rw [← sum_take_drop_eq_newestSum (show xs.length - n + n = xs.length by omega),
    ← sum_take_drop_eq_newestSum (show xs.length - n + n = ys.length by omega)]
  exact complementary_sum_take_drop h (by omega)

theorem complementary_getD (h : List.Forall₂ (Complementary m) xs ys) (hk : k < xs.length) :
    Complementary m (xs.getD k 0) (ys.getD k 0) := by
  have hk' : k < ys.length := h.length_eq ▸ hk
  rw [List.getD_eq_getElem _ _ hk, List.getD_eq_getElem _ _ hk']
  exact h.get hk hk'

namespace Aggregation

/-- Sums fall due at the same places of both. -/
theorem due_complementary (a : Aggregation) (h : List.Forall₂ (Complementary m) xs ys)
    (hpos : 0 < xs.length) :
    Option.Rel (Complementary (a.size * m)) (a.due xs) (a.due ys) := by
  cases a with
  | downsample factor =>
      simp only [due, ← h.length_eq]
      by_cases hd : factor ∣ xs.length
      · rw [if_pos hd, if_pos hd]
        exact .some (complementary_newestSum h (Nat.le_of_dvd hpos hd))
      · rw [if_neg hd, if_neg hd]
        exact .none
  | movingSum width =>
      simp only [due, ← h.length_eq]
      by_cases hw : width ≤ xs.length
      · rw [if_pos hw, if_pos hw]
        exact .some (complementary_newestSum h hw)
      · rw [if_neg hw, if_neg hw]
        exact .none

theorem sums_complementary (a : Aggregation) (h : List.Forall₂ (Complementary m) xs ys) :
    List.Forall₂ (Complementary (a.size * m)) (a.sums xs) (a.sums ys) := by
  cases a with
  | downsample factor =>
      simp only [sums, blockSums, ← h.length_eq, List.forall₂_map_left_iff,
        List.forall₂_map_right_iff, List.forall₂_same, List.mem_range]
      intro k hk
      have hmul : factor * (k + 1) ≤ xs.length :=
        Nat.le_trans (Nat.mul_le_mul_left factor hk) (Nat.mul_div_le xs.length factor)
      rw [Nat.mul_succ] at hmul
      exact complementary_sum_take_drop (n := factor) h hmul
  | movingSum width =>
      simp only [sums, windowSums, ← h.length_eq, List.forall₂_map_left_iff,
        List.forall₂_map_right_iff, List.forall₂_same, List.mem_range]
      intro k hk
      exact complementary_sum_take_drop (n := width) h (by omega)

end Aggregation

end Sums

/-! ## Crossings -/

/-- A falling crossing is a rising one upside down, whatever is the top. -/
theorem EdgeKind.crosses_falling_iff_sub (top t p c : Int) :
    falling.Crosses t p c ↔ rising.Crosses (top - t) (top - p) (top - c) := by
  rw [crosses_falling_iff]
  simp only [Crosses]
  omega

theorem Single.stepsOfNat_complementary {top x y : Nat} (h : Complementary top x y)
    (htop : top < 1 <<< 24) :
    (stepsOfNat y : Int) = top * Binary.Format.single.unit - stepsOfNat x := by
  have hsum : x + y = top := h
  rw [stepsOfNat_of_lt (show x < 1 <<< 24 by omega), stepsOfNat_of_lt (show y < 1 <<< 24 by omega),
    ← hsum]
  push_cast
  rw [Int.add_mul]
  omega

namespace EdgeSettings

/-- Settings for falls, and settings that look for the same when all is upside down. -/
structure Mirrors (top : Nat) (falling rising : EdgeSettings) : Prop where
  falling_kind : falling.kind = .falling
  rising_kind : rising.kind = .rising
  threshold : ∃ t : Int, falling.threshold.Denotes t ∧ rising.threshold.Denotes (top - t)
  settlingTime_eq : rising.settlingTime = falling.settlingTime
  edgeNum_eq : rising.edgeNum = falling.edgeNum

namespace Mirrors

variable {top : Nat} {falling rising : EdgeSettings} {sums sums' : List Nat}

theorem crossesAt_iff (h : falling.Mirrors top rising) (htop : top < 1 <<< 24)
    (hsums : List.Forall₂ (Complementary top) sums sums') (i : Nat) :
    falling.CrossesAt sums i ↔ rising.CrossesAt sums' i := by
  obtain ⟨t, hlow, hhigh⟩ := h.threshold
  unfold CrossesAt
  rw [← hsums.length_eq]
  refine and_congr_right fun hpos => and_congr_right fun hi => ?_
  -- No sum is rounded on its way to the threshold, so its steps and those of its image add up too.
  have hcurrent := Single.stepsOfNat_complementary (complementary_getD hsums hi) htop
  have hprevious := Single.stepsOfNat_complementary
    (complementary_getD hsums (show i - 1 < sums.length by omega)) htop
  rw [h.falling_kind, h.rising_kind, hlow.2, hhigh.2, hcurrent, hprevious, Int.sub_mul]
  exact EdgeKind.crosses_falling_iff_sub _ _ _ _

theorem triggersAt_iff (h : falling.Mirrors top rising) (htop : top < 1 <<< 24)
    (hsums : List.Forall₂ (Complementary top) sums sums') (i : Nat) :
    falling.TriggersAt sums i ↔ rising.TriggersAt sums' i :=
  triggersAt_congr h.settlingTime_eq h.edgeNum_eq (h.crossesAt_iff htop hsums) i

end Mirrors

end EdgeSettings

/-! ## What is given -/

/-- Triggers on the same sum, and on its image. -/
structure Trigger.Mirrors (top : Nat) (a b : Trigger) : Prop where
  index_eq : b.index = a.index
  sum : Complementary top a.sum.toNat b.sum.toNat
  edges_eq : b.edges = a.edges

structure Emission.Mirrors (top : Nat) (a b : Emission) : Prop where
  sampleIndex_eq : b.sampleIndex = a.sampleIndex
  sum : Complementary top a.sum.toNat b.sum.toNat
  trigger : Option.Rel (Trigger.Mirrors top) a.trigger b.trigger

/-- Neither sample is refused, and both give a sum or neither does. -/
structure Session.Sight.Mirrors (top : Nat) (a b : Session.Sight) : Prop where
  reply : ∃ emission emission', a.reply = .ok emission ∧ b.reply = .ok emission' ∧
    Option.Rel (Emission.Mirrors top) emission emission'
  samplesReceived_eq : b.samplesReceived = a.samplesReceived
  sumsEmitted_eq : b.sumsEmitted = a.sumsEmitted

/-- Sums that are exact as 32-bit numbers fit their word all the more. -/
theorem complementary_ofNat {top x y : Nat} (h : Complementary top x y) (htop : top < 1 <<< 24) :
    Complementary top (UInt32.ofNat x).toNat (UInt32.ofNat y).toNat := by
  have hsum : x + y = top := h
  have hword : 1 <<< 24 < UInt32.size := by decide
  rwa [UInt32.toNat_ofNat_of_lt' (by omega), UInt32.toNat_ofNat_of_lt' (by omega)]

theorem EdgeSettings.Mirrors.trigger? {top sum sum' : Nat} {falling rising : EdgeSettings}
    {earlier earlier' : List Nat} (h : falling.Mirrors top rising) (htop : top < 1 <<< 24)
    (hearlier : List.Forall₂ (Complementary top) earlier earlier')
    (hsum : Complementary top sum sum') :
    Option.Rel (Trigger.Mirrors top) (falling.trigger? earlier sum)
      (rising.trigger? earlier' sum') := by
  have hsums : List.Forall₂ (Complementary top) (earlier ++ [sum]) (earlier' ++ [sum']) :=
    forall₂_concat hearlier hsum
  have htrigger := h.triggersAt_iff htop hsums earlier.length
  unfold EdgeSettings.trigger?
  rw [← hearlier.length_eq]
  by_cases hfalling : falling.TriggersAt (earlier ++ [sum]) earlier.length
  · rw [if_pos hfalling, if_pos (htrigger.1 hfalling)]
    exact .some ⟨rfl, complementary_ofNat hsum htop, h.edgeNum_eq⟩
  · rw [if_neg hfalling, if_neg fun hrising => hfalling (htrigger.2 hrising)]
    exact .none

/-! ## Sessions -/

/-- A sample and its image. -/
def Sample.Mirrors (x y : Sample) : Prop :=
  Complementary 1023 x.toNat y.toNat

theorem Sample.mirrors_sub {x : Sample} (hx : x ≤ 1023) : Mirrors x (1023 - x) := by
  have hle : x.toNat ≤ 1023 := UInt16.le_iff_toNat_le.1 hx
  have himage : (1023 - x).toNat = 1023 - x.toNat := UInt16.toNat_sub_of_le _ _ hx
  unfold Mirrors Complementary
  omega

namespace SessionConfig

/-- The sum of a sum and its image. -/
def top (config : SessionConfig) : Nat :=
  config.aggregation.size * 1023

/-- Configurations that look for the same, the one as falls and the other as rises. -/
structure Mirrors (falling rising : SessionConfig) : Prop where
  aggregation_eq : rising.aggregation = falling.aggregation
  falling_unfolded : falling.absoluteValue = false
  rising_unfolded : rising.absoluteValue = false
  edge : Option.Rel (EdgeSettings.Mirrors falling.top) falling.edge rising.edge

theorem numbers_of_unfolded {config : SessionConfig} (h : config.absoluteValue = false)
    (xs : List Sample) : config.numbers xs = xs.map UInt16.toNat := by
  simp [numbers, fold, h]

namespace Mirrors

variable {falling rising : SessionConfig} {xs ys : List Sample} {x y : Sample}

theorem numbers (h : falling.Mirrors rising) (hxs : List.Forall₂ Sample.Mirrors xs ys) :
    List.Forall₂ (Complementary 1023) (falling.numbers xs) (rising.numbers ys) := by
  rw [numbers_of_unfolded h.falling_unfolded, numbers_of_unfolded h.rising_unfolded,
    List.forall₂_map_left_iff, List.forall₂_map_right_iff]
  exact hxs

theorem sums (h : falling.Mirrors rising) (hxs : List.Forall₂ Sample.Mirrors xs ys) :
    List.Forall₂ (Complementary falling.top) (falling.sums xs) (rising.sums ys) := by
  rw [SessionConfig.sums, SessionConfig.sums, h.aggregation_eq]
  exact falling.aggregation.sums_complementary (h.numbers hxs)

theorem emission? (h : falling.Mirrors rising) (htop : falling.top < 1 <<< 24)
    (hxs : List.Forall₂ Sample.Mirrors xs ys) (hx : Sample.Mirrors x y) :
    Option.Rel (Emission.Mirrors falling.top) (falling.emission? xs x)
      (rising.emission? ys y) := by
  have hdue := falling.aggregation.due_complementary
    (h.numbers (forall₂_concat hxs hx)) (by simp)
  unfold SessionConfig.emission?
  rw [h.aggregation_eq]
  -- The sums that are due become variables, so that the cases of their relation can be taken.
  generalize falling.aggregation.due (falling.numbers (xs ++ [x])) = due,
    falling.aggregation.due (rising.numbers (ys ++ [y])) = due' at hdue
  cases hdue with
  | none => exact .none
  | some hsum =>
      refine .some ⟨by rw [hxs.length_eq], complementary_ofNat hsum htop, ?_⟩
      have hedge := h.edge
      generalize falling.edge = edge, rising.edge = edge' at hedge
      cases hedge with
      | none => exact .none
      | some hedge => exact hedge.trigger? htop (h.sums hxs) hsum

end Mirrors

end SessionConfig

namespace Session

theorem Holds.top_lt {s : Session} {config : SessionConfig} {xs : List Sample}
    (h : s.Holds config xs) : config.top < 1 <<< 24 :=
  Nat.lt_of_le_of_lt (Nat.mul_le_mul_right 1023 h.size_le) (by decide)

/-- Two sessions that took the images of each other's samples. -/
def HoldMirrored (falling rising : SessionConfig) (s t : Session) : Prop :=
  ∃ xs ys, List.Forall₂ Sample.Mirrors xs ys ∧ s.Holds falling xs ∧ t.Holds rising ys

variable {falling rising : SessionConfig} {s t : Session}

/-- One sample more. -/
theorem HoldMirrored.see (hst : HoldMirrored falling rising s t) (h : falling.Mirrors rising)
    {x y : Sample} (hx : Sample.Mirrors x y) :
    Sight.Mirrors falling.top (s.see x).1 (t.see y).1 ∧
      HoldMirrored falling rising (s.see x).2 (t.see y).2 := by
  obtain ⟨xs, ys, hxs, hs, ht⟩ := hst
  have hsum : x.toNat + y.toNat = 1023 := hx
  have hxle : x ≤ 1023 := UInt16.le_iff_toNat_le.2 (show x.toNat ≤ 1023 by omega)
  have hyle : y ≤ 1023 := UInt16.le_iff_toNat_le.2 (show y.toNat ≤ 1023 by omega)
  have hall := forall₂_concat hxs hx
  obtain ⟨s', hpush, hs'⟩ := hs.push hxle
  obtain ⟨t', hpush', ht'⟩ := ht.push hyle
  rw [see_of_ok hpush, see_of_ok hpush']
  refine ⟨⟨⟨_, _, rfl, rfl, h.emission? hs.top_lt hxs hx⟩, ?_, ?_⟩, _, _, hall, hs', ht'⟩
  · rw [ht'.samplesReceived_eq, hs'.samplesReceived_eq, hall.length_eq]
  · rw [ht'.sumsEmitted_eq, hs'.sumsEmitted_eq, (h.sums hall).length_eq]

/-- So it is along whole streams. -/
theorem HoldMirrored.sights (hst : HoldMirrored falling rising s t) (h : falling.Mirrors rising)
    {stream stream' : List Sample} (hstream : List.Forall₂ Sample.Mirrors stream stream') :
    List.Forall₂ (Sight.Mirrors falling.top) (s.sights stream) (t.sights stream') :=
  (scan_forall₂ (HoldMirrored falling rising) Sample.Mirrors (Sight.Mirrors falling.top)
    (fun _ _ _ _ hstates hinput => hstates.see h hinput) hst hstream).1

/-- Falls and rises are each other's image: let a session look for falls through a threshold that is
a whole number, and another for rises through the threshold that makes it up to as many full scales
as there are samples in a sum; `Single.denotes_ofInt` gives such thresholds. Both sessions are
refused if the aggregator is. Otherwise, on a stream and its image they give sums at the same pushes,
which add up to so many full scales, and triggers at the same pushes, with the same place and number
of edges. -/
theorem falling_rising_mirrored (aggregation : Aggregation) (foldPolicy : FoldPolicy)
    (settlingTime edgeNum : UInt8) (hnum : edgeNum ≠ 0) {t : Int} {low high : Single}
    (hlow : low.Denotes t) (hhigh : high.Denotes (aggregation.size * 1023 - t)) :
    let falling : SessionConfig :=
      { aggregation, foldPolicy,
        edge := some { threshold := low, kind := .falling, settlingTime, edgeNum } }
    let rising : SessionConfig :=
      { aggregation, foldPolicy,
        edge := some { threshold := high, kind := .rising, settlingTime, edgeNum } }
    (∀ e, Pipeline.ofAggregation aggregation falling.rectifier = .error e →
      ofConfig falling = .error e ∧ ofConfig rising = .error e) ∧
    ∀ pipeline, Pipeline.ofAggregation aggregation falling.rectifier = .ok pipeline →
      ∃ s r, ofConfig falling = .ok s ∧ ofConfig rising = .ok r ∧
        ∀ stream, (∀ x ∈ stream, x ≤ 1023) →
          List.Forall₂ (Sight.Mirrors (aggregation.size * 1023)) (s.sights stream)
            (r.sights (stream.map (1023 - ·))) := by
  intro falling rising
  have hfalling := ofConfig_of_edge falling rfl hnum hlow.1
  have hrising := ofConfig_of_edge rising rfl hnum hhigh.1
  have hconfigs : falling.Mirrors rising :=
    ⟨rfl, rfl, rfl, .some ⟨rfl, rfl, ⟨t, hlow, hhigh⟩, rfl, rfl⟩⟩
  refine ⟨fun e he => ⟨hfalling.1 e he, hrising.1 e he⟩, fun pipeline hpipeline => ?_⟩
  obtain ⟨s, hs⟩ := hfalling.2 pipeline hpipeline
  obtain ⟨r, hr⟩ := hrising.2 pipeline hpipeline
  refine ⟨s, r, hs, hr, fun stream hrange => ?_⟩
  have himage : List.Forall₂ Sample.Mirrors stream (stream.map (1023 - ·)) := by
    rw [List.forall₂_map_right_iff, List.forall₂_same]
    exact fun x hx => Sample.mirrors_sub (hrange x hx)
  have hstart : HoldMirrored falling rising s r :=
    ⟨[], [], .nil, holds_ofConfig hs, holds_ofConfig hr⟩
  exact hstart.sights hconfigs himage

/-- Pairs of samples; the third sum goes down to the threshold and no further. -/
theorem falling_rising_mirrored_of_pairs :
    let falling : SessionConfig :=
      { aggregation := .movingSum 2,
        edge := some { threshold := .ofInt 1000, kind := .falling, settlingTime := 1 } }
    let rising : SessionConfig :=
      { aggregation := .movingSum 2,
        edge := some { threshold := .ofInt 1046, kind := .rising, settlingTime := 1 } }
    let stream : List Sample := [700, 800, 200, 900, 0]
    ∃ s r, ofConfig falling = .ok s ∧ ofConfig rising = .ok r ∧
      s.sights stream = [⟨.ok none, 1, 0⟩, ⟨.ok (some ⟨1, 1500, none⟩), 2, 1⟩,
        ⟨.ok (some ⟨2, 1000, some ⟨1, 1000, 1⟩⟩), 3, 2⟩, ⟨.ok (some ⟨3, 1100, none⟩), 4, 3⟩,
        ⟨.ok (some ⟨4, 900, some ⟨3, 900, 1⟩⟩), 5, 4⟩] ∧
      List.Forall₂ (Sight.Mirrors 2046) (s.sights stream)
        (r.sights [323, 223, 823, 123, 1023]) := by
  intro falling rising stream
  have hlow : (Single.ofInt 1000).Denotes 1000 := Single.denotes_ofInt (by decide)
  have hhigh : (Single.ofInt 1046).Denotes ((Aggregation.movingSum 2).size * 1023 - 1000) :=
    Single.denotes_ofInt (by decide)
  obtain ⟨pipeline, hpipeline⟩ : ∃ pipeline, Pipeline.ofAggregation (.movingSum 2)
      ⟨false, .reflect⟩ = .ok pipeline := ⟨_, rfl⟩
  obtain ⟨s, r, hs, hr, hstream⟩ :=
    (falling_rising_mirrored (.movingSum 2) .reflect 1 1 (by decide) hlow hhigh).2 pipeline hpipeline
  have hrange : ∀ x ∈ stream, x ≤ 1023 :=
    List.forall_iff_forall_mem.1 (by decide)
  refine ⟨s, r, hs, hr, ?_, hstream _ hrange⟩
  cases hs
  decide +kernel

end Session

end DigitiserSums
