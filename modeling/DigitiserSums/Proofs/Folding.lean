import DigitiserSums.Proofs.SideBySide

/-!
# A session sees folded samples only

A session looks at a sample twice: whether it is in range, and what it is once folded. So samples may
be folded beforehand, and while they are mirrored it makes no difference which of a sample and its
mirror image arrives. Folding a sample that was folded before changes nothing, and a sample out of
range is never changed.
-/

namespace DigitiserSums

/-! ## Folding -/

namespace SampleWidth

theorem toNat_midpoint_pos (w : SampleWidth) : 0 < w.midpoint.toNat :=
  w.toNat_midpoint ▸ w.half_pos

theorem midpoint_le_fullScale (w : SampleWidth) : w.midpoint ≤ w.fullScale := by
  have hpos := w.toNat_midpoint_pos
  have htop := w.toNat_fullScale_eq
  rw [UInt16.le_iff_toNat_le]
  omega

end SampleWidth

namespace Rectifier

variable {w : SampleWidth} {r : Rectifier w} {s : Sample}

theorem rectify_of_fullScale_lt (r : Rectifier w) (hs : w.fullScale < s) : r.rectify s = s :=
  r.rectify_of_midpoint_le
    (UInt16.le_of_lt (UInt16.lt_of_le_of_lt w.midpoint_le_fullScale hs))

theorem rectify_le_fullScale (r : Rectifier w) (hs : s ≤ w.fullScale) :
    r.rectify s ≤ w.fullScale :=
  UInt16.le_iff_toNat_le.2 (r.toNat_rectify_le hs)

/-- What was folded lies in the upper half. -/
theorem midpoint_le_rectify (h : r.enabled = true) (s : Sample) : w.midpoint ≤ r.rectify s := by
  by_cases hm : w.midpoint ≤ s
  · rw [r.rectify_of_midpoint_le hm]
    exact hm
  · have hlow := UInt16.not_le.1 hm
    have hlt : s.toNat < w.midpoint.toNat := UInt16.lt_iff_toNat_lt.1 hlow
    have htop := w.toNat_fullScale_eq
    have hfold := toNat_rectify h hlow
    apply UInt16.le_iff_toNat_le.2
    cases hp : r.policy with
    | reflect =>
        simp only [hp] at hfold
        omega
    | offset =>
        simp only [hp] at hfold
        omega

theorem rectify_rectify (r : Rectifier w) (s : Sample) :
    r.rectify (r.rectify s) = r.rectify s := by
  by_cases h : r.enabled = true
  · exact r.rectify_of_midpoint_le (midpoint_le_rectify h s)
  · exact rectify_of_not_enabled (by simpa using h) _

theorem toNat_rectify_of_reflect (h : r.enabled = true) (hp : r.policy = .reflect)
    (hs : s < w.midpoint) : (r.rectify s).toNat = w.fullScale.toNat - s.toNat := by
  have hfold := toNat_rectify h hs
  simpa only [hp] using hfold

/-- A sample and its mirror image are the same once folded. -/
theorem rectify_fullScale_sub (h : r.enabled = true) (hp : r.policy = .reflect)
    (hs : s ≤ w.fullScale) : r.rectify (w.fullScale - s) = r.rectify s := by
  have hmirror : (w.fullScale - s).toNat = w.fullScale.toNat - s.toNat :=
    UInt16.toNat_sub_of_le _ _ hs
  have hle : s.toNat ≤ w.fullScale.toNat := UInt16.le_iff_toNat_le.1 hs
  have htop := w.toNat_fullScale_eq
  have hpos := w.toNat_midpoint_pos
  apply UInt16.toNat_inj.1
  by_cases hm : w.midpoint ≤ s
  · have hge : w.midpoint.toNat ≤ s.toNat := UInt16.le_iff_toNat_le.1 hm
    have hlow : w.fullScale - s < w.midpoint := by
      rw [UInt16.lt_iff_toNat_lt, hmirror]
      omega
    rw [toNat_rectify_of_reflect h hp hlow, r.rectify_of_midpoint_le hm]
    omega
  · have hlow := UInt16.not_le.1 hm
    have hlt : s.toNat < w.midpoint.toNat := UInt16.lt_iff_toNat_lt.1 hlow
    have hhigh : w.midpoint ≤ w.fullScale - s := by
      rw [UInt16.le_iff_toNat_le, hmirror]
      omega
    rw [r.rectify_of_midpoint_le hhigh, toNat_rectify_of_reflect h hp hlow, hmirror]

/-- Two samples that are the same behind two transforms, and in range or not alike. -/
structure Alike (r r' : Rectifier w) (x y : Sample) : Prop where
  rectify_eq : r.rectify x = r'.rectify y
  range : x = y ∨ (x ≤ w.fullScale ∧ y ≤ w.fullScale)

/-- What is folded once more than another sample is alike if that changes nothing. -/
theorem forall₂_alike_rectify {r r' : Rectifier w}
    (hfolded : ∀ x, r'.rectify (r.rectify x) = r.rectify x) (stream : List Sample) :
    List.Forall₂ (r.Alike r') stream (stream.map r.rectify) := by
  rw [List.forall₂_map_right_iff, List.forall₂_same]
  intro x _
  refine ⟨(hfolded x).symm, ?_⟩
  by_cases hx : x ≤ w.fullScale
  · exact .inr ⟨hx, r.rectify_le_fullScale hx⟩
  · exact .inl (r.rectify_of_fullScale_lt (UInt16.not_le.1 hx)).symm

end Rectifier

/-! ## The same state behind another transform -/

namespace Decimator

variable {w : SampleWidth} {limit : BlockLimit w}

def withRectifier (d : Decimator w limit) (r : Rectifier w) : Decimator w limit :=
  { d with rectifier := r }

theorem push_withRectifier (d : Decimator w limit) {r : Rectifier w} {x y : Sample}
    (h : d.rectifier.rectify x = r.rectify y) :
    (d.withRectifier r).push y = ((d.push x).1, (d.push x).2.withRectifier r) := by
  by_cases hfull : d.pending + 1 = d.factor
  · simp [push, withRectifier, h, hfull]
  · simp [push, withRectifier, h, hfull]

end Decimator

namespace MovingSum

variable {w : SampleWidth} {c : Capacity}

def withRectifier (m : MovingSum w c) (r : Rectifier w) : MovingSum w c :=
  { m with rectifier := r }

theorem push_withRectifier (m : MovingSum w c) {r : Rectifier w} {x y : Sample}
    (h : m.rectifier.rectify x = r.rectify y) :
    (m.withRectifier r).push y = ((m.push x).1, (m.push x).2.withRectifier r) := by
  simp [push, withRectifier, h]

end MovingSum

namespace Pipeline

def withRectifier (p : Pipeline) (r : Rectifier deployedWidth) : Pipeline :=
  match p with
  | downsample d => downsample (d.withRectifier r)
  | movingSum m => movingSum (m.withRectifier r)

@[simp] theorem withRectifier_rectifier (p : Pipeline) : p.withRectifier p.rectifier = p := by
  cases p <;> rfl

/-- A push depends on a sample only as it is once folded. -/
theorem push_withRectifier (p : Pipeline) {r : Rectifier deployedWidth} {x y : Sample}
    (h : p.rectifier.rectify x = r.rectify y) :
    (p.withRectifier r).push y = ((p.push x).1, (p.push x).2.withRectifier r) := by
  cases p with
  | downsample d =>
      have hpush := d.push_withRectifier h
      simp only [withRectifier, push, hpush]
  | movingSum m =>
      have hpush := m.push_withRectifier h
      simp only [withRectifier, push, hpush]

/-- The transform has no say in which sizes are allowed. -/
theorem ofAggregation_withRectifier (a : Aggregation) (r r' : Rectifier deployedWidth) :
    ofAggregation a r' = (ofAggregation a r).map fun p => p.withRectifier r' := by
  cases a with
  | downsample factor =>
      simp only [ofAggregation, Decimator.ofFactor]
      cases deployedLimit.checkFactor factor <;> rfl
  | movingSum width =>
      simp only [ofAggregation, MovingSum.ofWidth]
      cases (RingBuffer.ofWidth width : Except _ (RingBuffer deployedCapacity)) <;> rfl

end Pipeline

namespace Session

/-- The session in the same state behind another transform. -/
def withRectifier (s : Session) (r : Rectifier deployedWidth) : Session :=
  { s with pipeline := s.pipeline.withRectifier r }

@[simp] theorem withRectifier_rectifier (s : Session) :
    s.withRectifier s.pipeline.rectifier = s := by
  simp [withRectifier]

theorem advance_withRectifier (s : Session) (r : Rectifier deployedWidth) (sum : Option Total)
    (p : Pipeline) :
    (s.withRectifier r).advance sum (p.withRectifier r) =
      ((s.advance sum p).1, (s.advance sum p).2.withRectifier r) := by
  cases sum <;> rfl

theorem pipeline_advance (s : Session) (sum : Option Total) (p : Pipeline) :
    (s.advance sum p).2.pipeline = p := by
  cases sum <;> rfl

theorem rectifier_see (s : Session) (x : Sample) :
    (s.see x).2.pipeline.rectifier = s.pipeline.rectifier := by
  by_cases hx : x ≤ 1023
  · rw [see_of_ok (s.push_eq_ok hx), pipeline_advance]
    exact s.pipeline.rectifier_push x
  · rw [see_of_error (s.push_eq_error hx)]

theorem rectifier_scan_see (s : Session) (stream : List Sample) :
    (scan see s stream).2.pipeline.rectifier = s.pipeline.rectifier := by
  induction stream generalizing s with
  | nil => rfl
  | cons x stream ih => exact (ih (s.see x).2).trans (s.rectifier_see x)

theorem see_withRectifier_of_le (s : Session) {r : Rectifier deployedWidth} {x y : Sample}
    (h : s.pipeline.rectifier.rectify x = r.rectify y) (hx : x ≤ 1023) (hy : y ≤ 1023) :
    (s.withRectifier r).see y = ((s.see x).1, (s.see x).2.withRectifier r) := by
  have hpush := s.pipeline.push_withRectifier h
  have hadvance := s.advance_withRectifier r (s.pipeline.push x).1 (s.pipeline.push x).2
  have hok : (s.withRectifier r).push y = .ok ((s.withRectifier r).advance
      (s.pipeline.push x).1 ((s.pipeline.push x).2.withRectifier r)) := by
    rw [push_eq_ok _ hy]
    simp only [withRectifier, hpush]
  rw [see_of_ok (s.push_eq_ok hx), see_of_ok (hok.trans (congrArg Except.ok hadvance))]
  rfl

theorem see_withRectifier_of_not_le (s : Session) (r : Rectifier deployedWidth) {x : Sample}
    (hx : ¬ x ≤ 1023) :
    (s.withRectifier r).see x = ((s.see x).1, (s.see x).2.withRectifier r) := by
  rw [see_of_error (push_eq_error _ hx), see_of_error (s.push_eq_error hx)]
  rfl

/-- Samples that are alike behind two transforms are the same push to both sessions. -/
theorem see_withRectifier (s : Session) {r : Rectifier deployedWidth} {x y : Sample}
    (h : s.pipeline.rectifier.Alike r x y) :
    (s.withRectifier r).see y = ((s.see x).1, (s.see x).2.withRectifier r) := by
  have hrange : x = y ∨ (x ≤ 1023 ∧ y ≤ 1023) := fullScale_eq ▸ h.range
  by_cases hx : x ≤ 1023
  · have hy : y ≤ 1023 := by
      rcases hrange with rfl | hboth
      · exact hx
      · exact hboth.2
    exact s.see_withRectifier_of_le h.rectify_eq hx hy
  · have hsame : x = y := by
      rcases hrange with hsame | hboth
      · exact hsame
      · exact absurd hboth.1 hx
    exact hsame ▸ s.see_withRectifier_of_not_le r hx

/-- So are two streams, sample by sample; the states stay the same but for the transform. -/
theorem scan_see_withRectifier (s : Session) {r : Rectifier deployedWidth}
    {stream stream' : List Sample}
    (h : List.Forall₂ (s.pipeline.rectifier.Alike r) stream stream') :
    scan see (s.withRectifier r) stream' =
      ((scan see s stream).1, (scan see s stream).2.withRectifier r) := by
  -- The transform of a session never changes, so that alike stays the same relation throughout.
  let States (a b : Session) : Prop :=
    a.pipeline.rectifier = s.pipeline.rectifier ∧ b = a.withRectifier r
  have hstep : ∀ a b x y, States a b → s.pipeline.rectifier.Alike r x y →
      (a.see x).1 = (b.see y).1 ∧ States (a.see x).2 (b.see y).2 := by
    rintro a _ x y ⟨hrectifier, rfl⟩ halike
    rw [← hrectifier] at halike
    rw [a.see_withRectifier halike]
    exact ⟨rfl, (a.rectifier_see x).trans hrectifier, rfl⟩
  have hruns := scan_forall₂ States (s.pipeline.rectifier.Alike r) Eq hstep ⟨rfl, rfl⟩ h
  rw [List.forall₂_eq_eq_eq] at hruns
  exact Prod.ext hruns.1.symm hruns.2.2

theorem sights_withRectifier (s : Session) {r : Rectifier deployedWidth}
    {stream stream' : List Sample}
    (h : List.Forall₂ (s.pipeline.rectifier.Alike r) stream stream') :
    (s.withRectifier r).sights stream' = s.sights stream := by
  rw [sights, s.scan_see_withRectifier h]
  rfl

/-! ## Sessions with and without folding -/

/-- Configurations that differ in folding only are refused for the same reason or give sessions in
the same state. -/
theorem ofConfig_withRectifier {config config' : SessionConfig}
    (haggregation : config'.aggregation = config.aggregation)
    (hedge : config'.edge = config.edge) :
    ofConfig config' = (ofConfig config).map fun s => s.withRectifier config'.rectifier := by
  unfold ofConfig
  rw [haggregation, hedge, Pipeline.ofAggregation_withRectifier _ config.rectifier]
  cases Pipeline.ofAggregation config.aggregation config.rectifier with
  | error e => rfl
  | ok pipeline => cases config.edge.mapM EdgeCounter.ofSettings <;> rfl

theorem rectifier_ofConfig {config : SessionConfig} {s : Session} (h : ofConfig config = .ok s) :
    s.pipeline.rectifier = config.rectifier :=
  (holds_ofConfig h).rectifier_eq

/-- It makes no difference whether a session folds the samples, is given them folded and does not
fold, or does both: with either policy these sessions are refused for the same reason, or else they
give the same at every push, also for samples that are out of range. -/
theorem rectified_inside_or_before (config : SessionConfig) :
    let inside : SessionConfig := { config with absoluteValue := true }
    let before : SessionConfig := { config with absoluteValue := false }
    (∀ e, ofConfig inside = .error e ↔ ofConfig before = .error e) ∧
    ∀ s, ofConfig inside = .ok s → ∃ t, ofConfig before = .ok t ∧ ∀ stream,
      let rectified := stream.map inside.rectifier.rectify
      t.sights rectified = s.sights stream ∧ s.sights rectified = s.sights stream := by
  intro inside before
  have hbefore : ofConfig before = (ofConfig inside).map fun s => s.withRectifier before.rectifier :=
    ofConfig_withRectifier rfl rfl
  refine ⟨fun e => ?_, fun s hs => ⟨s.withRectifier before.rectifier, ?_, fun stream => ?_⟩⟩
  · rw [hbefore, map_eq_error_iff]
  · rw [hbefore, hs]
    rfl
  · rw [← rectifier_ofConfig hs]
    constructor
    · exact s.sights_withRectifier (Rectifier.forall₂_alike_rectify
        (fun x => Rectifier.rectify_of_not_enabled rfl _) stream)
    · have hsame := s.sights_withRectifier (Rectifier.forall₂_alike_rectify
        s.pipeline.rectifier.rectify_rectify stream)
      rwa [withRectifier_rectifier] at hsame

theorem rectified_inside_or_before_of_blocks :
    let config : SessionConfig :=
      { aggregation := .downsample 2, foldPolicy := .offset,
        edge := some { threshold := ⟨0x44960000⟩ } }
    let stream : List Sample := [500, 2000, 600, 100, 90]
    let rectified : List Sample := [1012, 2000, 600, 612, 602]
    ∃ s t, ofConfig { config with absoluteValue := true } = .ok s ∧
      ofConfig { config with absoluteValue := false } = .ok t ∧
      s.sights stream = [⟨.ok none, 1, 0⟩, ⟨.error ⟨2000, 1023⟩, 1, 0⟩,
        ⟨.ok (some ⟨1, 1612, none⟩), 2, 1⟩, ⟨.ok none, 3, 1⟩, ⟨.ok (some ⟨3, 1214, none⟩), 4, 2⟩] ∧
      t.sights rectified = s.sights stream ∧ s.sights rectified = s.sights stream := by
  intro config stream rectified
  obtain ⟨s, hs⟩ : ∃ s, ofConfig { config with absoluteValue := true } = .ok s := ⟨_, rfl⟩
  obtain ⟨t, ht, hsights⟩ := (rectified_inside_or_before config).2 s hs
  obtain ⟨hbefore, htwice⟩ := hsights stream
  have hsee : s.sights stream = [⟨.ok none, 1, 0⟩, ⟨.error ⟨2000, 1023⟩, 1, 0⟩,
      ⟨.ok (some ⟨1, 1612, none⟩), 2, 1⟩, ⟨.ok none, 3, 1⟩,
      ⟨.ok (some ⟨3, 1214, none⟩), 4, 2⟩] := by
    cases hs
    decide +kernel
  exact ⟨s, t, hs, ht, hsee, hbefore, htwice⟩

/-! ## Mirrored samples -/

/-- The stream with the samples at some places turned upside down. -/
def invertAt (places : Nat → Bool) (stream : List Sample) : List Sample :=
  stream.mapIdx fun i x => if places i then 1023 - x else x

theorem forall₂_alike_invertAt {r : Rectifier deployedWidth} (h : r.enabled = true)
    (hp : r.policy = .reflect) (places : Nat → Bool) {stream : List Sample}
    (hrange : ∀ x ∈ stream, x ≤ 1023) :
    List.Forall₂ (r.Alike r) stream (invertAt places stream) := by
  induction stream generalizing places with
  | nil => exact .nil
  | cons x stream ih =>
      rw [List.forall_mem_cons] at hrange
      rw [invertAt, List.mapIdx_cons]
      refine .cons ?_ (ih (fun i => places (i + 1)) hrange.2)
      by_cases hplace : places 0 = true
      · rw [if_pos hplace, ← fullScale_eq]
        rw [← fullScale_eq] at hrange
        refine ⟨(Rectifier.rectify_fullScale_sub h hp hrange.1).symm, .inr ⟨hrange.1, ?_⟩⟩
        exact UInt16.sub_le hrange.1
      · rw [if_neg hplace]
        exact ⟨rfl, .inl rfl⟩

/-- A session that mirrors samples about the middle of the range does not see which of the samples
arrive upside down: whichever do, it gives the same at every push and is in the same state after
them. -/
theorem scan_see_invertAt {config : SessionConfig} {s : Session} (hstart : ofConfig config = .ok s)
    (hon : config.absoluteValue = true) (hpolicy : config.foldPolicy = .reflect)
    (places : Nat → Bool) {stream : List Sample} (hrange : ∀ x ∈ stream, x ≤ 1023) :
    scan see s (invertAt places stream) = scan see s stream := by
  have hrectifier := rectifier_ofConfig hstart
  have halike := forall₂_alike_invertAt (r := s.pipeline.rectifier) (by rw [hrectifier]; exact hon)
    (by rw [hrectifier]; exact hpolicy) places hrange
  have hruns := s.scan_see_withRectifier halike
  -- The other transform is the session's own here, at the start and at the end.
  have hlast := (scan see s stream).2.withRectifier_rectifier
  rw [s.rectifier_scan_see stream] at hlast
  rwa [withRectifier_rectifier, hlast] at hruns

theorem scan_see_invertAt_of_pulses :
    let config : SessionConfig :=
      { aggregation := .movingSum 2, absoluteValue := true,
        edge := some { threshold := ⟨0x44960000⟩ } }
    let stream : List Sample := [520, 500, 900, 100, 512]
    let places (i : Nat) : Bool := i % 3 = 1
    ∃ s, ofConfig config = .ok s ∧ (∀ x ∈ stream, x ≤ 1023) ∧
      invertAt places stream = [520, 523, 900, 100, 511] ∧
      s.sights stream = [⟨.ok none, 1, 0⟩, ⟨.ok (some ⟨1, 1043, none⟩), 2, 1⟩,
        ⟨.ok (some ⟨2, 1423, some ⟨1, 1423, 1⟩⟩), 3, 2⟩, ⟨.ok (some ⟨3, 1823, none⟩), 4, 3⟩,
        ⟨.ok (some ⟨4, 1435, none⟩), 5, 4⟩] ∧
      scan see s (invertAt places stream) = scan see s stream := by
  intro config stream places
  obtain ⟨s, hs⟩ : ∃ s, ofConfig config = .ok s := ⟨_, rfl⟩
  have hrange : ∀ x ∈ stream, x ≤ 1023 := List.forall_iff_forall_mem.1 (by decide)
  have hsame := scan_see_invertAt hs rfl rfl places hrange
  refine ⟨s, hs, hrange, by decide, ?_, hsame⟩
  cases hs
  decide +kernel

end Session

end DigitiserSums
