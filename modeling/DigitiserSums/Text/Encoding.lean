/-!
# Texts as bytes

A text is kept in files and streams as its UTF-8 bytes; not every list of bytes is a text.
-/

namespace DigitiserSums.Text

def encode (text : String) : List UInt8 :=
  text.toByteArray.data.toList

/-- The text of bytes, if they are one. -/
def decode? (bytes : List UInt8) : Option String :=
  String.fromUTF8? ⟨bytes.toArray⟩

@[simp] theorem decode?_encode (text : String) : decode? (encode text) = some text := by
  have h : (⟨(encode text).toArray⟩ : ByteArray) = text.toByteArray := by
    rw [encode, Array.toArray_toList]
  rw [decode?, h, String.fromUTF8?]
  exact dif_pos text.isValidUTF8

/-- Only the bytes of a text can be read. -/
theorem eq_encode_of_decode? {bytes : List UInt8} {text : String} (h : decode? bytes = some text) :
    bytes = encode text := by
  simp only [decode?, String.fromUTF8?] at h
  split at h
  · cases h
    rfl
  · contradiction

end DigitiserSums.Text
