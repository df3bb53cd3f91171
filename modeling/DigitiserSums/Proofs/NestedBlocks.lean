import DigitiserSums.Proofs.Aggregators

/-!
# Blocks of blocks

Two decimators take the same samples, and a block of the one is as long as `b` blocks of the other.
The large block adds up sample by sample what comes of adding up the sums of `b` small blocks. While
it is under way, it consists of the small blocks since the last large one and of the small block
under way. One sample more keeps that, whether it completes no block, a small one, or both.
-/

namespace DigitiserSums

/-! ## Groups of numbers -/

/-- Counted in groups of `a` and single ones, the next number completes `b` groups if both counts
are one short. -/
theorem mul_add_add_one_eq_mul_iff {a b k p : Nat} (hp : p < a) (hk : k < b) :
    a * k + p + 1 = a * b ↔ p + 1 = a ∧ k + 1 = b := by
  constructor
  · intro hfull
    have hle : a * k + a ≤ a * b := Nat.mul_le_mul_left a hk
    have hone : p + 1 = a := by omega
    have hmul : a * (k + 1) = a * b := by rw [Nat.mul_succ]; omega
    exact ⟨hone, Nat.eq_of_mul_eq_mul_left (by omega) hmul⟩
  · rintro ⟨hone, rfl⟩
    rw [Nat.mul_succ]
    omega

/-- Numbers that come after the unfinished group: they complete groups of `b`, of which `wholes` are
the sums, and leave `rest` unfinished. -/
def CompletesGroups (b : Nat) (unfinished more wholes rest : List Nat) : Prop :=
  ∃ groups : List (List Nat), unfinished ++ more = groups.flatten ++ rest ∧
    (∀ group ∈ groups, group.length = b) ∧ wholes = groups.map List.sum

namespace CompletesGroups

variable {b : Nat} {unfinished more wholes rest : List Nat}

theorem keep (b : Nat) (unfinished more : List Nat) :
    CompletesGroups b unfinished more [] (unfinished ++ more) :=
  ⟨[], rfl, nofun, rfl⟩

theorem close (h : (unfinished ++ more).length = b) :
    CompletesGroups b unfinished more [(unfinished ++ more).sum] [] :=
  ⟨[unfinished ++ more], by simp, by simpa using h, rfl⟩

theorem trans {more' wholes' rest' : List Nat} (h : CompletesGroups b unfinished more wholes rest)
    (h' : CompletesGroups b rest more' wholes' rest') :
    CompletesGroups b unfinished (more ++ more') (wholes ++ wholes') rest' := by
  obtain ⟨groups, hmore, hlength, rfl⟩ := h
  obtain ⟨groups', hmore', hlength', rfl⟩ := h'
  refine ⟨groups ++ groups', ?_, List.forall_mem_append.2 ⟨hlength, hlength'⟩,
    List.map_append.symm⟩
  rw [← List.append_assoc, hmore, List.append_assoc, hmore', List.flatten_append,
    List.append_assoc]

end CompletesGroups

namespace Decimator

variable {w : SampleWidth} {limit : BlockLimit w} {d small large : Decimator w limit}
  {a b : Nat} {unfinished : List Nat} {xs : List Sample} {x : Sample}

/-! ## One push -/

theorem push_of_full (h : d.pending + 1 = d.factor) :
    d.push x = (some (d.total + (d.rectifier.rectify x).toUInt32),
      { d with pending := 0, total := 0, pending_lt := d.factor_pos }) :=
  dif_pos h

theorem push_of_not_full (h : d.pending + 1 ≠ d.factor) :
    d.push x = (none, { d with
      pending := d.pending + 1
      total := d.total + (d.rectifier.rectify x).toUInt32
      pending_lt := by have := d.pending_lt; omega }) :=
  dif_neg h

theorem toNat_total_add (h : d.total.toNat + (d.rectifier.rectify x).toNat < UInt32.size) :
    (d.total + (d.rectifier.rectify x).toUInt32).toNat =
      d.total.toNat + (d.rectifier.rectify x).toNat := by
  rw [UInt32.toNat_add, UInt16.toNat_toUInt32]
  exact Nat.mod_eq_of_lt h

/-! ## Two decimators -/

/-- Small blocks of `a` samples and large ones of `b` small ones: under way of a large block are the
small blocks with the sums `unfinished` and the small block under way. -/
structure Nests (a b : Nat) (small large : Decimator w limit) (unfinished : List Nat) : Prop where
  small_factor : small.factor = a
  large_factor : large.factor = a * b
  rectifier_eq : large.rectifier = small.rectifier
  pending_eq : large.pending = a * unfinished.length + small.pending
  total_eq : large.total.toNat = unfinished.sum + small.total.toNat

namespace Nests

theorem length_lt (h : Nests a b small large unfinished) : unfinished.length < b := by
  have hlt := large.pending_lt
  rw [h.large_factor, h.pending_eq] at hlt
  exact Nat.lt_of_mul_lt_mul_left (Nat.lt_of_le_of_lt (Nat.le_add_right _ _) hlt)

/-- A large block ends with a small block, namely the last that it is made of. -/
theorem full_iff (h : Nests a b small large unfinished) :
    large.pending + 1 = large.factor ↔
      small.pending + 1 = small.factor ∧ unfinished.length + 1 = b := by
  have hlt := small.pending_lt
  rw [h.small_factor] at hlt ⊢
  rw [h.large_factor, h.pending_eq]
  exact mul_add_add_one_eq_mul_iff hlt h.length_lt

section Push

variable (h : Nests a b small large unfinished)
  (hfits : large.total.toNat + (large.rectifier.rectify x).toNat < UInt32.size)

include h hfits

/-- Both totals have room for a sample if the large one has. -/
theorem toNat_totals_add :
    (small.total + (small.rectifier.rectify x).toUInt32).toNat =
        small.total.toNat + (small.rectifier.rectify x).toNat ∧
      (large.total + (large.rectifier.rectify x).toUInt32).toNat =
        unfinished.sum + (small.total.toNat + (small.rectifier.rectify x).toNat) := by
  have hlarge := toNat_total_add hfits
  have htotal := h.total_eq
  rw [h.rectifier_eq] at hfits hlarge ⊢
  exact ⟨toNat_total_add (by omega), by omega⟩

/-- Inside a small block, both blocks take the sample. -/
theorem push_inside (hsmall : small.pending + 1 ≠ small.factor) :
    (small.push x).1 = none ∧ (large.push x).1 = none ∧
      Nests a b (small.push x).2 (large.push x).2 unfinished := by
  obtain ⟨hpart, hwhole⟩ := h.toNat_totals_add hfits
  have hlarge : large.pending + 1 ≠ large.factor := fun hfull => hsmall (h.full_iff.1 hfull).1
  rw [push_of_not_full hsmall, push_of_not_full hlarge]
  refine ⟨rfl, rfl, h.small_factor, h.large_factor, h.rectifier_eq, ?_, ?_⟩
  · exact congrArg (· + 1) h.pending_eq
  · exact hwhole.trans (congrArg (unfinished.sum + ·) hpart.symm)

/-- At the end of a small block that is not the last one, the large block goes on. -/
theorem push_small (hsmall : small.pending + 1 = small.factor) (hmore : unfinished.length + 1 ≠ b) :
    ∃ part, (small.push x).1 = some part ∧ (large.push x).1 = none ∧
      Nests a b (small.push x).2 (large.push x).2 (unfinished ++ [part.toNat]) := by
  obtain ⟨hpart, hwhole⟩ := h.toNat_totals_add hfits
  have hlarge : large.pending + 1 ≠ large.factor := fun hfull => hmore (h.full_iff.1 hfull).2
  rw [push_of_full hsmall, push_of_not_full hlarge]
  refine ⟨_, rfl, rfl, h.small_factor, h.large_factor, h.rectifier_eq, ?_, ?_⟩
  · have hpending := h.pending_eq
    have hfull := h.small_factor
    change large.pending + 1 = a * (unfinished ++ [_]).length + 0
    rw [List.length_append, List.length_singleton, Nat.mul_succ]
    omega
  · rw [List.sum_append, List.sum_singleton, hpart]
    exact hwhole

/-- At the end of the last small block, the large block ends too, with the sum of them all. -/
theorem push_large (hsmall : small.pending + 1 = small.factor) (hlast : unfinished.length + 1 = b) :
    ∃ part whole, (small.push x).1 = some part ∧ (large.push x).1 = some whole ∧
      whole.toNat = (unfinished ++ [part.toNat]).sum ∧
      Nests a b (small.push x).2 (large.push x).2 [] := by
  obtain ⟨hpart, hwhole⟩ := h.toNat_totals_add hfits
  rw [push_of_full hsmall, push_of_full (h.full_iff.2 ⟨hsmall, hlast⟩)]
  refine ⟨_, _, rfl, rfl, ?_, h.small_factor, h.large_factor, h.rectifier_eq, rfl, rfl⟩
  rw [List.sum_append, List.sum_singleton, hpart]
  exact hwhole

/-- A sample that both decimators take: the sum that the small one may give goes to the unfinished
group, and the large one gives the sum of the group if that completes it. -/
theorem push :
    ∃ rest, Nests a b (small.push x).2 (large.push x).2 rest ∧
      CompletesGroups b unfinished ((small.push x).1.toList.map UInt32.toNat)
        ((large.push x).1.toList.map UInt32.toNat) rest := by
  by_cases hsmall : small.pending + 1 = small.factor
  · by_cases hlast : unfinished.length + 1 = b
    · obtain ⟨part, whole, hpart, hwhole, hsum, hnext⟩ := h.push_large hfits hsmall hlast
      refine ⟨_, hnext, ?_⟩
      rw [hpart, hwhole]
      change CompletesGroups b unfinished [part.toNat] [whole.toNat] []
      rw [hsum]
      exact .close (by simpa using hlast)
    · obtain ⟨part, hpart, hwhole, hnext⟩ := h.push_small hfits hsmall hlast
      refine ⟨_, hnext, ?_⟩
      rw [hpart, hwhole]
      exact .keep b unfinished [part.toNat]
  · obtain ⟨hpart, hwhole, hnext⟩ := h.push_inside hfits hsmall
    refine ⟨_, hnext, ?_⟩
    rw [hpart, hwhole]
    simpa using CompletesGroups.keep b unfinished []

end Push

/-- What one sample keeps, a stream of samples in range keeps. -/
theorem pushAll (h : Nests a b small large unfinished) (hlarge : large.Holds xs)
    {stream : List Sample} (hstream : ∀ x ∈ stream, x ≤ w.fullScale) :
    ∃ rest, Nests a b (Aggregator.pushAll small stream).2 (Aggregator.pushAll large stream).2 rest ∧
      CompletesGroups b unfinished ((Aggregator.sums small stream).map UInt32.toNat)
        ((Aggregator.sums large stream).map UInt32.toNat) rest := by
  -- What the large decimator has taken, all of it in range, leaves room in its total.
  induction stream generalizing small large unfinished xs with
  | nil => exact ⟨unfinished, h, [], by simp [Aggregator.sums, Aggregator.pushAll], nofun, rfl⟩
  | cons x stream ih =>
      obtain ⟨hx, hstream⟩ := List.forall_mem_cons.1 hstream
      obtain ⟨_, hnext, hone⟩ := h.push (hlarge.toNat_total_add_lt hx)
      obtain ⟨rest, hend, hmore⟩ := ih hnext (hlarge.push hx) hstream
      refine ⟨rest, hend, ?_⟩
      rw [Aggregator.sums_cons, Aggregator.sums_cons, List.map_append, List.map_append]
      exact hone.trans hmore

end Nests

theorem nests_fresh (r : Rectifier w) (ha : 1 ≤ a ∧ a ≤ limit.max)
    (hab : 1 ≤ a * b ∧ a * b ≤ limit.max) :
    Nests a b (fresh r a ha.1 ha.2 : Decimator w limit) (fresh r (a * b) hab.1 hab.2) [] :=
  ⟨rfl, rfl, rfl, rfl, rfl⟩

/-- Let blocks of `a * b` samples be allowed. Then decimators with blocks of `a` and of `a * b`
samples can be had, and on any stream in range the sums of the large blocks are those of groups of
`b` consecutive sums of small blocks. Fewer than `b` sums of small blocks are left over; their
blocks and the small block under way make up the large block under way, its samples and its
total. -/
theorem sums_of_mul_factor (r : Rectifier w) (ha : 1 ≤ a) (hb : 1 ≤ b) (hab : a * b ≤ limit.max) :
    ∃ small large : Decimator w limit, ofFactor a r = .ok small ∧ ofFactor (a * b) r = .ok large ∧
      ∀ stream : List Sample, (∀ x ∈ stream, x ≤ w.fullScale) →
        let small' := (Aggregator.pushAll small stream).2
        let large' := (Aggregator.pushAll large stream).2
        ∃ (groups : List (List Nat)) (unfinished : List Nat),
          (Aggregator.sums small stream).map UInt32.toNat = groups.flatten ++ unfinished ∧
          (∀ group ∈ groups, group.length = b) ∧ unfinished.length < b ∧
          (Aggregator.sums large stream).map UInt32.toNat = groups.map List.sum ∧
          large'.pending = a * unfinished.length + small'.pending ∧
          large'.total.toNat = unfinished.sum + small'.total.toNat := by
  have hsmall : 1 ≤ a ∧ a ≤ limit.max := ⟨ha, Nat.le_trans (Nat.le_mul_of_pos_right a hb) hab⟩
  have hlarge : 1 ≤ a * b ∧ a * b ≤ limit.max := ⟨Nat.mul_pos ha hb, hab⟩
  refine ⟨_, _, ofFactor_of_allowed r hsmall, ofFactor_of_allowed r hlarge,
    fun stream hstream => ?_⟩
  obtain ⟨unfinished, hend, groups, hparts, hlength, hwholes⟩ :=
    (nests_fresh r hsmall hlarge).pushAll (holds_fresh r _ hlarge.1 hlarge.2) hstream
  exact ⟨groups, unfinished, hparts, hlength, hend.length_lt, hwholes, hend.pending_eq,
    hend.total_eq⟩

theorem sums_of_mul_factor_of_four_bits :
    let w : SampleWidth := { bits := 4 }
    let limit : BlockLimit w := ⟨6, by decide⟩
    let r : Rectifier w := { enabled := true }
    let stream : List Sample := [3, 9, 0, 15, 8, 7, 1, 2, 14, 10, 5]
    (1 ≤ 2 ∧ 1 ≤ 3 ∧ 2 * 3 ≤ limit.max) ∧ (∀ x ∈ stream, x ≤ w.fullScale) ∧
      ∃ small large : Decimator w limit, ofFactor 2 r = .ok small ∧ ofFactor (2 * 3) r = .ok large ∧
        (∃ (groups : List (List Nat)) (unfinished : List Nat),
          [21, 30, 16, 27, 24] = groups.flatten ++ unfinished ∧
          (∀ group ∈ groups, group.length = 3) ∧ unfinished.length < 3 ∧
          [67] = groups.map List.sum ∧ 5 = 2 * unfinished.length + 1) := by
  intro w limit r stream
  have hfactors : 1 ≤ 2 ∧ 1 ≤ 3 ∧ 2 * 3 ≤ limit.max := by decide
  have hall : stream.all (· ≤ w.fullScale) = true := by decide
  have hstream : ∀ x ∈ stream, x ≤ w.fullScale :=
    fun x hx => of_decide_eq_true (List.all_eq_true.1 hall x hx)
  obtain ⟨small, large, hsmall, hlarge, hsums⟩ :=
    sums_of_mul_factor r hfactors.1 hfactors.2.1 hfactors.2.2
  obtain ⟨groups, unfinished, hparts, hlength, hlt, hwholes, hpending, -⟩ := hsums stream hstream
  have hsmall' : (Aggregator.sums small stream).map UInt32.toNat = [21, 30, 16, 27, 24] ∧
      (Aggregator.pushAll small stream).2.pending = 1 := by
    cases hsmall
    decide +kernel
  have hlarge' : (Aggregator.sums large stream).map UInt32.toNat = [67] ∧
      (Aggregator.pushAll large stream).2.pending = 5 := by
    cases hlarge
    decide +kernel
  rw [hsmall'.1] at hparts
  rw [hlarge'.1] at hwholes
  rw [hlarge'.2, hsmall'.2] at hpending
  exact ⟨hfactors, hstream, small, large, hsmall, hlarge, groups, unfinished, hparts, hlength, hlt,
    hwholes, hpending⟩

end Decimator

end DigitiserSums
