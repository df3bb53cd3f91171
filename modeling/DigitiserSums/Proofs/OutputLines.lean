import DigitiserSums.Proofs.Spellings

/-!
# Lines of output are told apart

A line of output is the numeral of a sum, perhaps a mark behind it, and a line feed. The line feeds
cut a text of such lines into its records, and each record gives back its sum and whether it is
marked. So the text determines all that is written in it.
-/

namespace DigitiserSums

/-! ## Numerals -/

namespace Decimal

/-- The numeral of a number: its digits, without a zero in front of others. -/
def IsNumeral (n : Nat) (text : List Char) : Prop :=
  ∃ digits, Json.IsWhole digits ∧ value digits = n ∧ text = digits.map digitChar

theorem isNumeral_toDigits (n : Nat) : IsNumeral n (Nat.toDigits 10 n) := by
  obtain ⟨digits, htext, hvalue, hwhole⟩ := exists_toDigits_eq n
  exact ⟨digits, hwhole, hvalue, htext⟩

theorem isDigit_of_mem_toDigits {n : Nat} : ∀ c ∈ Nat.toDigits 10 n, c.isDigit = true := fun _ =>
  Nat.isDigit_of_mem_toDigits (by decide) (by decide)

theorem toDigits_inj {m n : Nat} (h : Nat.toDigits 10 m = Nat.toDigits 10 n) : m = n := by
  rw [← Nat.ofDigitChars_ten_toDigits (n := m), h, Nat.ofDigitChars_ten_toDigits]

end Decimal

namespace Emission

/-! ## One line -/

/-- What is written behind the numeral of a sum. -/
def mark (e : Emission) : List Char :=
  if e.trigger.isSome then ",trigger".toList else []

/-- A line of output without its line feed. -/
def record (e : Emission) : List Char :=
  Nat.toDigits 10 e.sum.toNat ++ e.mark

theorem toList_line (e : Emission) : e.line.toList = e.record ++ ['\n'] := by
  unfold line record mark
  cases e.trigger.isSome <;> simp

theorem lineFeed_not_mem_record (e : Emission) : '\n' ∉ e.record := by
  unfold record mark
  intro h
  rcases List.mem_append.1 h with h | h
  · exact absurd (Decimal.isDigit_of_mem_toDigits _ h) (by decide)
  · cases htrigger : e.trigger.isSome <;> simp [htrigger] at h

/-- The digits of a record end where its mark begins. -/
theorem takeWhile_record (e : Emission) :
    e.record.takeWhile Char.isDigit = Nat.toDigits 10 e.sum.toNat := by
  have hmark : e.mark.takeWhile Char.isDigit = [] := by
    unfold mark
    cases e.trigger.isSome <;> simp
  rw [record, List.takeWhile_append_of_pos Decimal.isDigit_of_mem_toDigits, hmark, List.append_nil]

theorem mark_inj {e e' : Emission} (h : e.mark = e'.mark) :
    e.trigger.isSome = e'.trigger.isSome := by
  unfold mark at h
  cases htrigger : e.trigger.isSome <;> cases htrigger' : e'.trigger.isSome <;>
    simp [htrigger, htrigger'] at h ⊢

/-- A record is one of its sum and of whether it is marked. -/
theorem record_eq_iff {e e' : Emission} :
    e.record = e'.record ↔ e.sum = e'.sum ∧ e.trigger.isSome = e'.trigger.isSome := by
  constructor
  · intro h
    have hdigits : Nat.toDigits 10 e.sum.toNat = Nat.toDigits 10 e'.sum.toNat := by
      rw [← takeWhile_record, h, takeWhile_record]
    rw [record, record, hdigits] at h
    exact ⟨UInt32.toNat_inj.1 (Decimal.toDigits_inj hdigits), mark_inj (List.append_cancel_left h)⟩
  · intro h
    rw [record, record, mark, mark, h.1, h.2]

/-! ## All lines -/

/-- The line feeds cut a text of lines into its records. -/
theorem linesOf_join (emissions : List Emission) :
    Text.linesOf (String.join (emissions.map line)).toList = emissions.map record := by
  induction emissions with
  | nil => rfl
  | cons e emissions ih =>
      rw [List.map_cons, List.map_cons, String.join_cons, String.toList_append, toList_line,
        List.append_assoc, List.singleton_append,
        Text.linesOf_append_lineFeed _ e.lineFeed_not_mem_record, ih]

theorem map_line_eq (emissions : List Emission) :
    emissions.map line = (emissions.map record).map fun r => .ofList (r ++ ['\n']) := by
  rw [List.map_map]
  refine List.map_congr_left fun e _ => ?_
  rw [Function.comp_apply, ← toList_line, String.ofList_toList]

theorem join_lines_eq_iff_map_record {emissions emissions' : List Emission} :
    String.join (emissions.map line) = String.join (emissions'.map line) ↔
      emissions.map record = emissions'.map record := by
  constructor
  · intro h
    rw [← linesOf_join, h, linesOf_join]
  · intro h
    rw [map_line_eq, h, ← map_line_eq]

/-- Two lists of sums are written as one text exactly if they have the same length and agree, place
by place, on the sum and on whether it completed a trigger. What is written of a sum, up to its mark
and the line feed, is the numeral of its value. -/
theorem join_lines_eq_iff (emissions emissions' : List Emission) :
    (String.join (emissions.map line) = String.join (emissions'.map line) ↔
      List.Forall₂ (fun e e' => e.sum = e'.sum ∧ e.trigger.isSome = e'.trigger.isSome)
        emissions emissions') ∧
    ∀ e : Emission, ∃ numeral, Decimal.IsNumeral e.sum.toNat numeral ∧
      e.line.toList = numeral ++ (if e.trigger.isSome then ",trigger\n" else "\n").toList := by
  constructor
  · rw [join_lines_eq_iff_map_record, ← List.forall₂_eq_eq_eq, List.forall₂_map_left_iff,
      List.forall₂_map_right_iff]
    simp only [record_eq_iff]
  · intro e
    refine ⟨_, Decimal.isNumeral_toDigits e.sum.toNat, ?_⟩
    rw [line, String.toList_append]
    exact congrArg (· ++ _) String.toList_ofList

end Emission

end DigitiserSums
