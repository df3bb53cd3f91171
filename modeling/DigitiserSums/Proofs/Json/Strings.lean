import DigitiserSums.Json.Lexer

/-!
# How strings are spelled

A string of a JSON text is a quote, its parts and another quote. A part is a plain character, a
backslash with a letter for a character, or a backslash with four hexadecimal digits.
-/

namespace DigitiserSums.Json

/-- The characters of a part. -/
inductive SpellsPart : StringPart → List Char → Prop where
  | plain {c : Char} : 0x20 ≤ c.toNat → c ≠ '"' → c ≠ '\\' → SpellsPart (.char c) [c]
  | escaped {letter c : Char} : escaped? letter = some c → SpellsPart (.char c) ['\\', letter]
  | unit {a b c d : Char} {u : UInt16} : unit? a b c d = some u →
      SpellsPart (.unit u) ['\\', 'u', a, b, c, d]

/-- The characters of parts in a row. -/
inductive SpellsParts : List StringPart → List Char → Prop where
  | nil : SpellsParts [] []
  | cons {part : StringPart} {parts : List StringPart} {front rest : List Char} :
      SpellsPart part front → SpellsParts parts rest → SpellsParts (part :: parts) (front ++ rest)

/-! ## Scanning a part -/

theorem scanUnit_sound {cs rest : List Char} {part : StringPart}
    (h : scanUnit cs = .ok (part, rest)) :
    ∃ a b c d u, unit? a b c d = some u ∧ part = .unit u ∧ cs = a :: b :: c :: d :: rest := by
  unfold scanUnit at h
  split at h
  · split at h
    · next u hu =>
        cases h
        exact ⟨_, _, _, _, u, hu, rfl, rfl⟩
    · cases h
  · cases h

theorem scanEscape_sound {cs rest : List Char} {part : StringPart}
    (h : scanEscape cs = .ok (part, rest)) :
    ∃ front, SpellsPart part ('\\' :: front) ∧ cs = front ++ rest := by
  unfold scanEscape at h
  split at h
  · cases h
  · obtain ⟨a, b, c, d, u, hu, rfl, rfl⟩ := scanUnit_sound h
    exact ⟨_, .unit hu, rfl⟩
  · split at h
    · next hc =>
        cases h
        exact ⟨_, .escaped hc, rfl⟩
    · cases h

/-- A part is taken by its characters, and the closing quote by itself. -/
theorem scanPart_sound {cs rest : List Char} {part : Option StringPart}
    (h : scanPart cs = .ok (part, rest)) :
    match part with
    | none => cs = '"' :: rest
    | some part => ∃ front, SpellsPart part front ∧ cs = front ++ rest := by
  unfold scanPart at h
  split at h
  · cases h
  · cases h
    rfl
  · obtain ⟨⟨part, rest'⟩, hescape, heq⟩ := exists_of_map_eq_ok h
    cases heq
    obtain ⟨front, hpart, hcs⟩ := scanEscape_sound hescape
    exact ⟨_, hpart, by rw [hcs]; rfl⟩
  · next c _ hquote hslash =>
      split at h
      · cases h
      · next hcontrol =>
          cases h
          exact ⟨[c], .plain (Nat.not_lt.1 hcontrol) hquote hslash, rfl⟩

theorem scanPart_complete {part : StringPart} {front : List Char} (rest : List Char)
    (h : SpellsPart part front) : scanPart (front ++ rest) = .ok (some part, rest) := by
  cases h with
  | plain hcontrol hquote hslash =>
      rw [List.singleton_append]
      unfold scanPart
      split
      · next heq => cases heq
      · next heq => exact absurd (List.cons.inj heq).1 hquote
      · next heq => exact absurd (List.cons.inj heq).1 hslash
      · next heq =>
          cases heq
          rw [if_neg (Nat.not_lt.2 hcontrol)]
  | escaped hletter =>
      have hu : escaped? 'u' = none := by decide
      change (scanEscape (_ :: rest)).map _ = _
      unfold scanEscape
      split
      · next heq => cases heq
      · next heq =>
          cases heq
          rw [hu] at hletter
          cases hletter
      · next heq =>
          cases heq
          rw [hletter]
          rfl
  | unit hu =>
      change (scanUnit (_ :: _ :: _ :: _ :: rest)).map _ = _
      unfold scanUnit
      simp only [hu]
      rfl

/-! ## Scanning a string -/

theorem scanString_sound {cs rest : List Char} (h : (scanString cs).2 = .ok rest) :
    ∃ front, SpellsParts (scanString cs).1 front ∧ cs = front ++ '"' :: rest := by
  fun_induction scanString cs with
  | case1 cs how hscan => cases h
  | case2 cs rest' hscan =>
      cases h
      exact ⟨[], .nil, scanPart_sound hscan⟩
  | case3 cs part rest' hscan hlength parts outcome hrest ih =>
      rw [hrest] at ih
      obtain ⟨front, hparts, hcs⟩ := ih h
      obtain ⟨first, hpart, hfirst⟩ := scanPart_sound hscan
      exact ⟨first ++ front, .cons hpart hparts, by rw [hfirst, hcs, List.append_assoc]⟩

theorem scanString_complete {parts : List StringPart} {front : List Char} (rest : List Char)
    (h : SpellsParts parts front) : scanString (front ++ '"' :: rest) = (parts, .ok rest) := by
  induction h with
  | nil =>
      rw [scanString]
      split
      · next hscan => cases hscan
      · next hscan =>
          cases hscan
          rfl
      · next hscan => cases hscan
  | @cons part parts first front hpart hparts ih =>
      have hfirst := scanPart_complete (front ++ '"' :: rest) hpart
      rw [List.append_assoc, scanString]
      split
      · next hscan =>
          rw [hfirst] at hscan
          cases hscan
      · next hscan =>
          rw [hfirst] at hscan
          cases hscan
      · next hscan =>
          rw [hfirst] at hscan
          cases hscan
          rw [ih]

end DigitiserSums.Json
