/-!
# Lines of bytes

A line ends at a line feed, or at the end of the bytes if these do not end in one. A carriage return
before the line feed stays with the line, where it is a blank like any other.
-/

namespace DigitiserSums.Text

def lineFeed : UInt8 := 10

/-- The lines of what follows `line`, which is the beginning of a line, backwards, behind the lines
found already, the last first. -/
def linesFrom (found : List (List UInt8)) (line : List UInt8) : List UInt8 → List (List UInt8)
  | [] => (if line = [] then found else line.reverse :: found).reverse
  | b :: bytes =>
    if b = lineFeed then linesFrom (line.reverse :: found) [] bytes
    else linesFrom found (b :: line) bytes

/-- The lines of a text, without their line feeds. -/
def lines (bytes : List UInt8) : List (List UInt8) :=
  linesFrom [] [] bytes

/-- What was found before stays in front. -/
theorem linesFrom_eq_append (found : List (List UInt8)) (line bytes : List UInt8) :
    linesFrom found line bytes = found.reverse ++ linesFrom [] line bytes := by
  induction bytes generalizing found line with
  | nil =>
    simp only [linesFrom]
    split <;> simp
  | cons b bytes ih =>
    simp only [linesFrom]
    split
    · rw [ih (line.reverse :: found), ih [line.reverse]]
      simp
    · exact ih found (b :: line)

/-- Bytes that end no line go on with the one begun. -/
theorem linesFrom_append (line begun rest : List UInt8) (h : lineFeed ∉ line) :
    linesFrom [] begun (line ++ rest) = linesFrom [] (line.reverse ++ begun) rest := by
  induction line generalizing begun with
  | nil => rfl
  | cons b line ih =>
    simp only [List.mem_cons, not_or] at h
    simp only [List.cons_append, linesFrom, if_neg (Ne.symm h.1), ih (b :: begun) h.2,
      List.reverse_cons, List.append_assoc, List.nil_append]

/-- A line ends at its line feed. -/
theorem lines_append_lineFeed {line : List UInt8} (rest : List UInt8) (h : lineFeed ∉ line) :
    lines (line ++ lineFeed :: rest) = line :: lines rest := by
  rw [lines, linesFrom_append line [] _ h, linesFrom, if_pos rfl, linesFrom_eq_append]
  simp [lines]

/-- The last line needs no line feed. -/
theorem lines_of_not_mem {line : List UInt8} (hne : line ≠ []) (h : lineFeed ∉ line) :
    lines line = [line] := by
  have ha := linesFrom_append line [] [] h
  simp only [List.append_nil] at ha
  simp [lines, ha, linesFrom, hne]

end DigitiserSums.Text
