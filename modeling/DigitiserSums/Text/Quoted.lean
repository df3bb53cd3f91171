import DigitiserSums.Text.Hidden

/-!
# Quoted texts

A text in double quotes in which everything that would not show is written out: quotes and
backslashes after a backslash, the common controls by a letter, and every other character that does
not print, or that joins the one before it, by its code point in braces.
-/

namespace DigitiserSums.Text

/-- How a character is written inside the quotes. -/
def quotedChar : Char → List Char
  | '\x00' => ['\\', '0']
  | '\t' => ['\\', 't']
  | '\r' => ['\\', 'r']
  | '\n' => ['\\', 'n']
  | '"' => ['\\', '"']
  | '\\' => ['\\', '\\']
  | c => if isHidden c then '\\' :: 'u' :: '{' :: (Nat.toDigits 16 c.toNat ++ ['}']) else [c]

def quoted (cs : List Char) : List Char :=
  '"' :: (cs.flatMap quotedChar ++ ['"'])

end DigitiserSums.Text
