/-!
# Buffered output

Text that is written waits in a buffer until the buffer is flushed or has no room for more. `text`
is all that was handed over, written or not: a flush writes all of it and a push appends to it.
-/

namespace DigitiserSums

/-- Text on its way out. -/
structure OutputBuffer where
  /-- What has left the program. -/
  written : String := ""
  pending : String := ""
deriving DecidableEq, Repr

namespace OutputBuffer

/-- The number of bytes that may wait. -/
def capacity : Nat := 8192

/-- All the text that was handed over. -/
def text (b : OutputBuffer) : String :=
  b.written ++ b.pending

def flush (b : OutputBuffer) : OutputBuffer where
  written := b.written ++ b.pending

/-- Hands over a text; what is waiting is written out first if there is no room for both. -/
def push (b : OutputBuffer) (text : String) : OutputBuffer :=
  if capacity < b.pending.utf8ByteSize + text.utf8ByteSize then { b.flush with pending := text }
  else { b with pending := b.pending ++ text }

@[simp] theorem text_empty : ({} : OutputBuffer).text = "" :=
  rfl

theorem written_flush (b : OutputBuffer) : b.flush.written = b.text :=
  rfl

@[simp] theorem text_push (b : OutputBuffer) (t : String) : (b.push t).text = b.text ++ t := by
  simp only [push]
  split <;> simp [text, flush, String.append_assoc]

end OutputBuffer

end DigitiserSums
