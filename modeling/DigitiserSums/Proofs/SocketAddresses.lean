import DigitiserSums.SocketAddress
import DigitiserSums.Proofs.Spellings

/-!
# Socket addresses that are read back

An address of four bytes and a port, written in decimal, is read as what it was written from. The
reader of a number takes all the digits that are there, and what is written behind each number is no
digit.
-/

namespace DigitiserSums

namespace SocketAddress

open Decimal

variable {rest : List Char}

theorem mark_cons (c : Char) (cs : List Char) : mark c (c :: cs) = some ((), cs) :=
  if_pos rfl

/-! ## Numbers -/

theorem decimalBelow_toDigits_append {limit n : Nat} (hn : n < limit) (h : NoDigit rest) :
    decimalBelow limit (Nat.toDigits 10 n ++ rest) = some (n, rest) := by
  obtain ⟨digits, htext, rfl, hwhole⟩ := exists_toDigits_eq n
  have hne : digits ≠ [] := by
    rintro rfl
    exact hwhole
  rw [htext, decimalBelow, span_map_digitChar_append digits h]
  exact if_pos ⟨hne, hn⟩

/-- A number that is written with a zero in front is zero. -/
theorem length_span_toDigits_append {n : Nat} (h : NoDigit rest)
    (hzero : (Nat.toDigits 10 n ++ rest).head? = some '0') :
    (span (Nat.toDigits 10 n ++ rest)).1.length = 1 := by
  obtain ⟨digits, htext, -, hwhole⟩ := exists_toDigits_eq n
  rw [htext] at hzero ⊢
  rw [span_map_digitChar_append digits h]
  cases digits with
  | nil => exact hwhole.elim
  | cons d digits =>
      have hchar : ∀ d, digitChar d = '0' → d = 0 := by decide
      have hdigits : digits = [] := hwhole (hchar d (Option.some.inj hzero))
      rw [hdigits]
      rfl

theorem byte_toDigits_append (b : UInt8) (h : NoDigit rest) :
    byte (Nat.toDigits 10 b.toNat ++ rest) = some (b, rest) := by
  have hread := decimalBelow_toDigits_append b.toNat_lt_size h
  rw [byte, if_neg fun hr => hr.2 (length_span_toDigits_append h hr.1)]
  simp [Functor.map, StateT.map, hread]

/-! ## Addresses -/

theorem fourBytes_toDigits_append (a b c d : UInt8) (h : NoDigit rest) :
    fourBytes (Nat.toDigits 10 a.toNat ++ '.' :: (Nat.toDigits 10 b.toNat ++
      '.' :: (Nat.toDigits 10 c.toNat ++ '.' :: (Nat.toDigits 10 d.toNat ++ rest)))) =
      some ((a, b, c, d), rest) := by
  have hpoint (cs : List Char) : NoDigit ('.' :: cs) := noDigit_cons rfl
  simp [fourBytes, bind, StateT.bind, byte_toDigits_append, mark_cons, hpoint, h, pure, StateT.pure]

theorem hostAddress_of_fourBytes {cs : List Char} {a b c d : UInt8}
    (h : fourBytes cs = some ((a, b, c, d), rest)) : hostAddress cs = some (.v4 a b c d, rest) := by
  simp [hostAddress, bind, StateT.bind, h, pure, StateT.pure, HOrElse.hOrElse, OrElse.orElse,
    Alternative.orElse, StateT.orElse]

theorem toList_text (a b c d : UInt8) (port : UInt16) :
    (s!"{a}.{b}.{c}.{d}:{port}").toList =
      Nat.toDigits 10 a.toNat ++ '.' :: (Nat.toDigits 10 b.toNat ++
        '.' :: (Nat.toDigits 10 c.toNat ++ '.' :: (Nat.toDigits 10 d.toNat ++
          ':' :: Nat.toDigits 10 port.toNat))) := by
  have hbyte (n : UInt8) : (toString n).toList = Nat.toDigits 10 n.toNat := Nat.toList_repr
  have hsize (n : UInt16) : (toString n).toList = Nat.toDigits 10 n.toNat := Nat.toList_repr
  have hstring (text : String) : toString text = text := rfl
  simp [hbyte, hsize, hstring]

/-- An address of four bytes is read back from its usual text. -/
theorem ofText?_v4 (a b c d : UInt8) (port : UInt16) :
    ofText? s!"{a}.{b}.{c}.{d}:{port}" = some ⟨.v4 a b c d, port⟩ := by
  have hend : NoDigit [] := nofun
  have hport := decimalBelow_toDigits_append port.toNat_lt_size hend
  rw [List.append_nil] at hport
  have hcolon : NoDigit (':' :: Nat.toDigits 10 port.toNat) := noDigit_cons rfl
  have hhost := hostAddress_of_fourBytes (fourBytes_toDigits_append a b c d hcolon)
  rw [ofText?, toList_text, hhost]
  simp [bind, StateT.bind, hport, mark_cons, SeqRight.seqRight]

end SocketAddress

end DigitiserSums
