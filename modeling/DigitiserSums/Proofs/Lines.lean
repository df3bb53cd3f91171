import DigitiserSums.Text.Encoding
import DigitiserSums.Text.Line
import Mathlib

/-!
# Lines of a text

The program splits bytes and reads each piece as text. No byte of a character other than the line
feed is a line feed, so for the bytes of a text the pieces are the lines of the text, and only an
empty last line leaves no piece.
-/

namespace DigitiserSums.Text

/-! ## Bytes of characters -/

theorem encode_ofList (cs : List Char) :
    encode (.ofList cs) = cs.flatMap String.utf8EncodeChar := by
  rw [encode, String.toByteArray_ofList, List.utf8Encode]
  simp

theorem ofNat_ne_lineFeed {n : Nat} (hlt : n < 256) (hne : n ≠ 10) : UInt8.ofNat n ≠ lineFeed := by
  intro h
  have htoNat := congrArg UInt8.toNat h
  rw [UInt8.toNat_ofNat_of_lt' hlt] at htoNat
  exact hne htoNat

theorem lineFeed_not_mem_utf8EncodeChar {c : Char} (h : c ≠ '\n') :
    lineFeed ∉ String.utf8EncodeChar c := by
  have hc : c.val.toNat ≠ 10 := by
    intro hval
    apply h
    exact Char.ext (UInt32.toNat_inj.1 hval)
  intro hmem
  simp only [String.utf8EncodeChar] at hmem
  -- A character alone in one byte is that byte; every byte of a longer one has its top bit set.
  split at hmem
  · rw [List.mem_singleton] at hmem
    exact ofNat_ne_lineFeed (by omega) hc hmem.symm
  · split at hmem
    · simp only [List.mem_cons, List.not_mem_nil, or_false] at hmem
      rcases hmem with hmem | hmem
      all_goals exact ofNat_ne_lineFeed (by omega) (by omega) hmem.symm
    · split at hmem
      · simp only [List.mem_cons, List.not_mem_nil, or_false] at hmem
        rcases hmem with hmem | hmem | hmem
        all_goals exact ofNat_ne_lineFeed (by omega) (by omega) hmem.symm
      · simp only [List.mem_cons, List.not_mem_nil, or_false] at hmem
        rcases hmem with hmem | hmem | hmem | hmem
        all_goals exact ofNat_ne_lineFeed (by omega) (by omega) hmem.symm

theorem lineFeed_not_mem_encode {cs : List Char} (h : '\n' ∉ cs) :
    lineFeed ∉ encode (.ofList cs) := by
  rw [encode_ofList]
  intro hmem
  obtain ⟨c, hc, hbyte⟩ := List.mem_flatMap.1 hmem
  exact lineFeed_not_mem_utf8EncodeChar (fun heq => h (heq ▸ hc)) hbyte

theorem encode_ofList_eq_nil_iff {cs : List Char} : encode (.ofList cs) = [] ↔ cs = [] := by
  rw [encode_ofList, List.flatMap_eq_nil_iff]
  constructor
  · intro h
    cases cs with
    | nil => rfl
    | cons c cs => exact absurd (h c List.mem_cons_self) String.utf8EncodeChar_ne_nil
  · intro h
    subst h
    simp

theorem encode_ofList_append_lineFeed (cs rest : List Char) :
    encode (.ofList (cs ++ '\n' :: rest)) =
      encode (.ofList cs) ++ lineFeed :: encode (.ofList rest) := by
  rw [encode_ofList, encode_ofList, encode_ofList, List.flatMap_append, List.flatMap_cons]
  rfl

/-! ## Lines of characters -/

/-- The lines of a text. The text behind the last line feed is a line only if there is any. -/
def linesOf (cs : List Char) : List (List Char) :=
  let pieces := cs.splitOn '\n'
  if pieces.getLast? = some [] then pieces.dropLast else pieces

theorem linesOf_of_not_mem {cs : List Char} (h : '\n' ∉ cs) :
    linesOf cs = if cs = [] then [] else [cs] := by
  rw [linesOf, List.splitOn_eq_singleton h]
  simp

theorem linesOf_append_lineFeed {cs : List Char} (rest : List Char) (h : '\n' ∉ cs) :
    linesOf (cs ++ '\n' :: rest) = cs :: linesOf rest := by
  have hne : rest.splitOn '\n' ≠ [] := List.splitOn_ne_nil _ _
  rw [linesOf, linesOf, List.splitOn_append_cons_self_of_not_mem h, List.getLast?_cons,
    List.getLast?_eq_getLast_of_ne_nil hne]
  simp only [Option.getD_some]
  split
  · rw [List.dropLast_cons_of_ne_nil hne]
  · rfl

/-- The pieces of the bytes of a text are the bytes of its lines. -/
theorem lines_encode (cs : List Char) :
    lines (encode (.ofList cs)) = ((linesOf cs).map String.ofList).map encode := by
  -- By recursion on the lines: the text behind the first line feed is shorter.
  by_cases h : '\n' ∈ cs
  · obtain ⟨line, rest, hcs, hline⟩ := List.eq_append_cons_of_mem h
    have ih := lines_encode rest
    rw [hcs, encode_ofList_append_lineFeed,
      lines_append_lineFeed _ (lineFeed_not_mem_encode hline), ih,
      linesOf_append_lineFeed rest hline]
    rfl
  · rw [linesOf_of_not_mem h]
    by_cases hnil : cs = []
    · rw [if_pos hnil, hnil]
      rfl
    · rw [if_neg hnil, lines_of_not_mem (mt encode_ofList_eq_nil_iff.1 hnil)
        (lineFeed_not_mem_encode h)]
      rfl
termination_by cs.length
decreasing_by
  rw [hcs, List.length_append, List.length_cons]
  omega

/-- What only lines with text in them give is given by the pieces between line feeds. -/
theorem filterMap_linesOf {α : Type} {f : List Char → Option α} (h : f [] = none) (cs : List Char) :
    (linesOf cs).filterMap f = (cs.splitOn '\n').filterMap f := by
  unfold linesOf
  simp only
  split
  · next hlast =>
      obtain ⟨front, hfront⟩ := List.getLast?_eq_some_iff.1 hlast
      rw [hfront, List.dropLast_concat, List.filterMap_append]
      simp [h]
  · rfl

end DigitiserSums.Text
