import DigitiserSums.Pipeline
import Mathlib

/-!
# Sums of blocks and of windows

What an aggregator should emit, said with lists of natural numbers alone: the numbers taken since
the last restart stand in order, the newest last. Nothing here knows of rings, running totals or
words.
-/

namespace DigitiserSums

/-- The sum of the newest `n` numbers. -/
def newestSum (n : Nat) (xs : List Nat) : Nat :=
  (xs.drop (xs.length - n)).sum

/-- The sums of the full blocks of `n` numbers, the first block starting at the first number. -/
def blockSums (n : Nat) (xs : List Nat) : List Nat :=
  (List.range (xs.length / n)).map fun k => ((xs.drop (n * k)).take n).sum

/-- The sums of `n` consecutive numbers, wherever they start. -/
def windowSums (n : Nat) (xs : List Nat) : List Nat :=
  (List.range (xs.length + 1 - n)).map fun k => ((xs.drop k).take n).sum

/-! ## The newest numbers -/

theorem newestSum_eq_sum_take (n : Nat) (xs : List Nat) :
    newestSum n xs = (xs.reverse.take n).sum := by
  rw [List.take_reverse, List.sum_reverse]
  rfl

@[simp] theorem newestSum_zero (xs : List Nat) : newestSum 0 xs = 0 := by
  simp [newestSum]

@[simp] theorem newestSum_nil (n : Nat) : newestSum n [] = 0 := by
  simp [newestSum]

/-- A number that arrives is the newest and leaves room for one less of the others. -/
theorem newestSum_concat (n : Nat) (xs : List Nat) (x : Nat) :
    newestSum (n + 1) (xs ++ [x]) = newestSum n xs + x := by
  rw [newestSum_eq_sum_take, newestSum_eq_sum_take, List.reverse_append]
  simp [Nat.add_comm]

theorem newestSum_succ (n : Nat) (xs : List Nat) :
    newestSum (n + 1) xs = newestSum n xs + xs.reverse.getD n 0 := by
  rw [newestSum_eq_sum_take, newestSum_eq_sum_take]
  by_cases h : n < xs.reverse.length
  · rw [List.take_succ_eq_append_getElem h, List.sum_append_nat, List.getD_eq_getElem _ _ h]
    simp
  · have hle : xs.reverse.length ≤ n := by omega
    rw [List.take_of_length_le hle, List.take_of_length_le (by omega),
      List.getD_eq_default _ _ hle, Nat.add_zero]

/-- The newest numbers added up by their age, with zeros before the first. -/
theorem newestSum_eq_sum_range (n : Nat) (xs : List Nat) :
    newestSum n xs = ((List.range n).map fun age => xs.reverse.getD age 0).sum := by
  induction n with
  | zero => simp
  | succ n ih =>
      rw [newestSum_succ, ih, List.range_succ, List.map_append, List.map_singleton, List.sum_append,
        List.sum_singleton]

theorem newestSum_le {n m : Nat} {xs : List Nat} (h : ∀ x ∈ xs, x ≤ m) :
    newestSum n xs ≤ n * m := by
  induction n with
  | zero => simp
  | succ n ih =>
      have hlast : xs.reverse.getD n 0 ≤ m := by
        by_cases hn : n < xs.reverse.length
        · rw [List.getD_eq_getElem _ _ hn]
          exact h _ (List.mem_reverse.1 (List.getElem_mem hn))
        · rw [List.getD_eq_default _ _ (by omega)]
          exact Nat.zero_le m
      rw [newestSum_succ, Nat.succ_mul]
      omega

/-- There are no more of the newest numbers than there are numbers. -/
theorem newestSum_eq_min (n : Nat) (xs : List Nat) :
    newestSum n xs = newestSum (min n xs.length) xs := by
  unfold newestSum
  congr 2
  omega

/-- A stretch that ends at the last number is made of the newest ones. -/
theorem sum_take_drop_eq_newestSum {n k : Nat} {xs : List Nat} (h : k + n = xs.length) :
    ((xs.drop k).take n).sum = newestSum n xs := by
  have hk : xs.length - n = k := by omega
  rw [newestSum, hk, List.take_of_length_le]
  rw [List.length_drop]
  omega

/-- A stretch of the older numbers is not touched by one that arrives. -/
theorem take_drop_concat {n k : Nat} {xs : List Nat} (x : Nat) (h : k + n ≤ xs.length) :
    ((xs ++ [x]).drop k).take n = (xs.drop k).take n := by
  rw [List.drop_append_of_le_length (by omega), List.take_append_of_le_length]
  rw [List.length_drop]
  omega

/-! ## Full blocks -/

/-- The full blocks of `n` numbers, the first block starting at the first number. -/
def blocks (n : Nat) (xs : List Nat) : List (List Nat) :=
  (List.range (xs.length / n)).map fun k => (xs.drop (n * k)).take n

theorem blockSums_eq_map_sum (n : Nat) (xs : List Nat) :
    blockSums n xs = (blocks n xs).map List.sum := by
  rw [blocks, List.map_map]
  rfl

theorem length_of_mem_blocks {n : Nat} {xs block : List Nat} (h : block ∈ blocks n xs) :
    block.length = n := by
  obtain ⟨k, hk, rfl⟩ := List.mem_map.1 h
  have hlt : k + 1 ≤ xs.length / n := List.mem_range.1 hk
  have hmul : n * (k + 1) ≤ xs.length :=
    Nat.le_trans (Nat.mul_le_mul_left n hlt) (Nat.mul_div_le xs.length n)
  rw [Nat.mul_succ] at hmul
  rw [List.length_take, List.length_drop]
  omega

theorem flatten_blocks (n : Nat) (xs : List Nat) :
    (blocks n xs).flatten = xs.take (n * (xs.length / n)) := by
  unfold blocks
  induction xs.length / n with
  | zero => simp
  | succ m ih =>
      rw [List.range_succ, List.map_append, List.flatten_append, ih, Nat.mul_succ, List.take_add]
      simp

/-- The full blocks and the numbers left over are all the numbers in order. -/
theorem flatten_blocks_append (n : Nat) (xs : List Nat) :
    (blocks n xs).flatten ++ xs.drop (n * (xs.length / n)) = xs := by
  rw [flatten_blocks, List.take_append_drop]

/-- Fewer numbers than a block takes are left over. -/
theorem length_drop_blocks (n : Nat) (xs : List Nat) :
    (xs.drop (n * (xs.length / n))).length = xs.length % n := by
  have h := Nat.div_add_mod xs.length n
  rw [List.length_drop]
  omega

/-! ## One more number -/

theorem blockSums_concat (n : Nat) (xs : List Nat) (x : Nat) :
    blockSums n (xs ++ [x]) =
      blockSums n xs ++ if n ∣ xs.length + 1 then [newestSum n (xs ++ [x])] else [] := by
  have hlen : (xs ++ [x]).length = xs.length + 1 := by simp
  have hold : ∀ k ∈ List.range (xs.length / n),
      (((xs ++ [x]).drop (n * k)).take n).sum = ((xs.drop (n * k)).take n).sum := by
    intro k hk
    have hlt : k + 1 ≤ xs.length / n := List.mem_range.1 hk
    have hmul : n * (k + 1) ≤ xs.length :=
      Nat.le_trans (Nat.mul_le_mul_left n hlt) (Nat.mul_div_le xs.length n)
    rw [take_drop_concat x (by rw [Nat.mul_succ] at hmul; exact hmul)]
  unfold blockSums
  rw [hlen, Nat.succ_div]
  by_cases hd : n ∣ xs.length + 1
  · have hend : n * (xs.length / n) + n = (xs ++ [x]).length := by
      have hq : (xs.length + 1) / n = xs.length / n + 1 := by rw [Nat.succ_div, if_pos hd]
      rw [hlen, ← Nat.mul_div_cancel' hd, hq, Nat.mul_succ]
    rw [if_pos hd, if_pos hd, List.range_succ, List.map_append, List.map_congr_left hold,
      List.map_singleton, sum_take_drop_eq_newestSum hend]
  · rw [if_neg hd, if_neg hd, Nat.add_zero, List.map_congr_left hold, List.append_nil]

theorem windowSums_concat (n : Nat) (xs : List Nat) (x : Nat) :
    windowSums n (xs ++ [x]) =
      windowSums n xs ++ if n ≤ xs.length + 1 then [newestSum n (xs ++ [x])] else [] := by
  have hlen : (xs ++ [x]).length = xs.length + 1 := by simp
  have hold : ∀ k ∈ List.range (xs.length + 1 - n),
      (((xs ++ [x]).drop k).take n).sum = ((xs.drop k).take n).sum := by
    intro k hk
    have hlt : k < xs.length + 1 - n := List.mem_range.1 hk
    rw [take_drop_concat x (by omega)]
  unfold windowSums
  rw [hlen]
  by_cases hle : n ≤ xs.length + 1
  · have hq : xs.length + 1 + 1 - n = xs.length + 1 - n + 1 := by omega
    have hend : xs.length + 1 - n + n = (xs ++ [x]).length := by omega
    rw [if_pos hle, hq, List.range_succ, List.map_append, List.map_congr_left hold,
      List.map_singleton, sum_take_drop_eq_newestSum hend]
  · have hz : xs.length + 1 + 1 - n = 0 := by omega
    have hz' : xs.length + 1 - n = 0 := by omega
    rw [if_neg hle, hz, hz', List.append_nil, List.range_zero, List.map_nil, List.map_nil]

/-! ## What an aggregator owes -/

namespace Aggregation

/-- The number of samples that go into a sum. -/
def size : Aggregation → Nat
  | downsample factor => factor
  | movingSum width => width

/-- All sums due after the numbers, in order. -/
def sums : Aggregation → List Nat → List Nat
  | downsample factor, xs => blockSums factor xs
  | movingSum width, xs => windowSums width xs

/-- The sum that is due when the last of the numbers arrives. -/
def due : Aggregation → List Nat → Option Nat
  | downsample factor, xs => if factor ∣ xs.length then some (newestSum factor xs) else none
  | movingSum width, xs => if width ≤ xs.length then some (newestSum width xs) else none

@[simp] theorem sums_nil {a : Aggregation} (h : 0 < a.size) : a.sums [] = [] := by
  cases a with
  | downsample factor => simp [sums, blockSums]
  | movingSum width =>
      have hw : 1 - width = 0 := by
        change 0 < width at h
        omega
      simp [sums, windowSums, hw]

/-- The sums grow by what falls due. -/
theorem sums_concat (a : Aggregation) (xs : List Nat) (x : Nat) :
    a.sums (xs ++ [x]) = a.sums xs ++ (a.due (xs ++ [x])).toList := by
  cases a with
  | downsample factor =>
      have hs := blockSums_concat factor xs x
      simp only [sums, due, List.length_append, List.length_singleton]
      by_cases hd : factor ∣ xs.length + 1 <;> simpa [hd] using hs
  | movingSum width =>
      have hs := windowSums_concat width xs x
      simp only [sums, due, List.length_append, List.length_singleton]
      by_cases hd : width ≤ xs.length + 1 <;> simpa [hd] using hs

/-- A sum that is due is that of the newest numbers. -/
theorem eq_newestSum_of_due {a : Aggregation} {sum : Nat} {xs : List Nat}
    (h : a.due xs = some sum) : sum = newestSum a.size xs := by
  cases a with
  | downsample factor => exact (Option.some.inj (Option.ite_none_right_eq_some.1 h).2).symm
  | movingSum width => exact (Option.some.inj (Option.ite_none_right_eq_some.1 h).2).symm

theorem due_le {a : Aggregation} {m sum : Nat} {xs : List Nat} (h : ∀ x ∈ xs, x ≤ m)
    (hsum : a.due xs = some sum) : sum ≤ a.size * m :=
  eq_newestSum_of_due hsum ▸ newestSum_le h

theorem sums_le {a : Aggregation} (hsize : 0 < a.size) {m : Nat} {xs : List Nat}
    (h : ∀ x ∈ xs, x ≤ m) : ∀ sum ∈ a.sums xs, sum ≤ a.size * m := by
  induction xs using List.reverseRecOn with
  | nil => simp [sums_nil hsize]
  | append_singleton xs x ih =>
      rw [sums_concat, List.forall_mem_append]
      refine ⟨ih (List.forall_mem_append.1 h).1, fun sum hsum => ?_⟩
      exact due_le h (Option.mem_toList.1 hsum)

theorem length_sums_downsample (factor : Nat) (xs : List Nat) :
    ((downsample factor).sums xs).length = xs.length / factor := by
  simp [sums, blockSums]

theorem length_sums_movingSum (width : Nat) (xs : List Nat) :
    ((movingSum width).sums xs).length = xs.length + 1 - width := by
  simp [sums, windowSums]

theorem length_sums_le {a : Aggregation} (h : 0 < a.size) (xs : List Nat) :
    (a.sums xs).length ≤ xs.length := by
  cases a with
  | downsample factor =>
      rw [length_sums_downsample]
      exact Nat.div_le_self _ _
  | movingSum width =>
      change 0 < width at h
      rw [length_sums_movingSum]
      omega

end Aggregation

end DigitiserSums
