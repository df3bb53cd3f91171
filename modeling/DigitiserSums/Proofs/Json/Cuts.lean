import DigitiserSums.Proofs.Json.Continuation

/-!
# Texts that are cut

The beginning of a text of whole tokens has these tokens too, up to the cut. A cut inside a word or a
string breaks that token off. A cut inside a number may break it off as well, but it may also leave
a shorter number.
-/

namespace DigitiserSums.Json

open Decimal

/-- The cut between two texts falls inside a number of the text that they make: some tokens stand
before it, and each of the texts has a part of it. -/
def CutsNumber (front back : List Char) : Prop :=
  ∃ ts pre a b post n, front = pre ++ a ∧ back = b ++ post ∧ a ≠ [] ∧ b ≠ [] ∧ Layout ts pre ∧
    SpellsNumeral n (a ++ b) ∧ tokens (front ++ back) = ts ++ .number n :: tokens post

/-- What a cut inside a number leaves of it. -/
inductive Token.TornFrom (n : Numeral) : Token → Prop where
  | number {m : Numeral} {a b : List Char} :
      SpellsNumeral m a → SpellsNumeral n (a ++ b) → TornFrom n (.number m)
  | broken : TornFrom n (.brokenNumber .ended)

/-- The tokens `ts` end with what is left of a number of `ts'`, and are the same before it. -/
def EndsTorn (ts ts' : List Token) : Prop :=
  ∃ front n x back, ts = front ++ [x] ∧ ts' = front ++ .number n :: back ∧ Token.TornFrom n x

theorem EndsTorn.cons {ts ts' : List Token} (h : EndsTorn ts ts') (t : Token) :
    EndsTorn (t :: ts) (t :: ts') := by
  obtain ⟨front, n, x, back, rfl, rfl, hx⟩ := h
  exact ⟨t :: front, n, x, back, rfl, rfl, hx⟩

section CutsNumber

variable {front back : List Char}

theorem CutsNumber.space (h : CutsNumber front back) {c : Char} (hc : isSpace c = true) :
    CutsNumber (c :: front) back := by
  obtain ⟨ts, pre, a, b, post, n, rfl, rfl, ha, hb, hpre, hn, htokens⟩ := h
  refine ⟨ts, c :: pre, a, b, post, n, rfl, rfl, ha, hb, .space hc hpre, hn, ?_⟩
  rw [List.cons_append, tokens_cons_of_isSpace hc, htokens]

theorem CutsNumber.token (h : CutsNumber front back) {t : Token} {first : List Char}
    (ht : Spells t first)
    (htokens : tokens (first ++ front ++ back) = t :: tokens (front ++ back)) :
    CutsNumber (first ++ front) back := by
  obtain ⟨ts, pre, a, b, post, n, rfl, rfl, ha, hb, hpre, hn, hts⟩ := h
  refine ⟨t :: ts, first ++ pre, a, b, post, n, by rw [List.append_assoc], rfl, ha, hb,
    .token ht hpre, hn, ?_⟩
  rw [htokens, hts, List.cons_append]

end CutsNumber

/-- Only the first character of a number starts a number, whole or broken. -/
theorem scanToken_number {c : Char} {cs : List Char}
    (h : (∃ n, (scanToken c cs).1 = .number n) ∨ ∃ how, (scanToken c cs).1 = .brokenNumber how) :
    c = '-' ∨ (digit? c).isSome := by
  rcases scanToken_cases c with ⟨t, hc⟩ | ⟨letters, word, hc⟩ | rfl | hc | hc
  · rw [scanToken_of_punctuation hc] at h
    rcases punctuation?_eq_some hc with rfl | rfl | rfl | rfl | rfl | rfl
    all_goals
      cases hc
      simp at h
  · rw [scanToken_of_word hc] at h
    have hword := (word?_isWord hc).1
    cases hscan : afterLetters letters cs with
    | error how => simp [hscan, orBroken, Except.map] at h
    | ok rest =>
        rw [hscan] at h
        rcases h with ⟨n, rfl⟩ | ⟨how, rfl⟩
        · exact hword.elim
        · exact hword.elim
  · rw [scanToken_quote] at h
    cases hscan : (scanString cs).2 <;> simp [hscan, orBroken, Except.map] at h
  · exact hc
  · simp [hc] at h

/-- The beginning of a text that starts with a number has the whole number, or a part of it and
nothing else. -/
theorem scanNumeral_cut {cs more post : List Char} {n : Numeral}
    (h : scanNumeral (cs ++ more) = .ok (n, post)) (hpost : Stops post) :
    (∃ rest, scanNumeral cs = .ok (n, rest) ∧ post = rest ++ more) ∨
      ∃ b, b ≠ [] ∧ more = b ++ post ∧ SpellsNumeral n (cs ++ b) := by
  obtain ⟨front, hn, heq⟩ := scanNumeral_sound h
  rcases List.append_eq_append_iff.1 heq with ⟨b, rfl, rfl⟩ | ⟨rest, rfl, rfl⟩
  · cases b with
    | nil =>
        rw [List.append_nil] at hn
        have hscan : scanNumeral (cs ++ []) = .ok (n, []) := scanNumeral_complete hn nofun
        rw [List.append_nil] at hscan
        exact .inl ⟨[], hscan, rfl⟩
    | cons c b => exact .inr ⟨c :: b, List.cons_ne_nil c b, rfl, hn⟩
  · refine .inl ⟨rest, scanNumeral_complete hn ?_, rfl⟩
    cases rest with
    | nil => exact nofun
    | cons c rest => exact hpost

/-- What the beginning has of a number that it does not have whole. -/
theorem scanNumeral_torn {cs b post : List Char} {n : Numeral} (hn : SpellsNumeral n (cs ++ b))
    (h : scanNumeral (cs ++ (b ++ post)) = .ok (n, post)) (hb : b ≠ []) :
    ∃ x, orBroken .number .brokenNumber (scanNumeral cs) = (x, []) ∧ x.TornFrom n := by
  cases hscan : scanNumeral cs with
  | error how =>
      cases how with
      | ended => exact ⟨_, rfl, .broken⟩
      | malformed =>
          rw [decidesByNext_scanNumeral.malformed hscan] at h
          cases h
  | ok scanned =>
      obtain ⟨m, rest⟩ := scanned
      obtain ⟨front, hm, hcs⟩ := scanNumeral_sound hscan
      cases rest with
      | nil =>
          rw [List.append_nil] at hcs
          subst hcs
          exact ⟨_, rfl, .number hm hn⟩
      | cons c rest =>
          -- A character that stops the shorter number would have stopped the longer one there.
          rw [decidesByNext_scanNumeral.ok hscan (.inl (List.cons_ne_nil c rest))] at h
          have hlength := congrArg List.length (Prod.ext_iff.1 (Except.ok.inj h)).2
          have hpos := List.length_pos_iff.2 hb
          simp only [List.length_append, List.length_cons] at hlength
          omega

/-- Up to the cut, the tokens of the beginning are those of the whole text, and what stands at the
cut is explained. -/
def TokensUpTo (cs more : List Char) : Prop :=
  Continues (tokens cs) (tokens (cs ++ more)) ∨
    CutsNumber cs more ∧ EndsTorn (tokens cs) (tokens (cs ++ more))

section Step

variable {c : Char} {cs more : List Char}

theorem tokensUpTo_of_isSpace (hc : isSpace c = true) (h : TokensUpTo cs more) :
    TokensUpTo (c :: cs) more := by
  unfold TokensUpTo
  rw [List.cons_append, tokens_cons_of_isSpace hc, tokens_cons_of_isSpace hc]
  exact h.imp_right fun hr => ⟨hr.1.space hc, hr.2⟩

/-- A token that the beginning has whole is followed by what follows it in the whole text. -/
theorem tokensUpTo_of_isSound (hc : isSpace c = false) {t : Token} {rest : List Char}
    (hscan : scanToken c cs = (t, rest)) (ht : t.IsSound)
    (hall : scanToken c (cs ++ more) = (t, rest ++ more)) (h : TokensUpTo rest more) :
    TokensUpTo (c :: cs) more := by
  have htokens : tokens (c :: cs ++ more) = t :: tokens (rest ++ more) := by
    rw [List.cons_append, tokens_cons_of_not_isSpace hc, hall]
  unfold TokensUpTo
  rw [tokens_cons_of_not_isSpace hc, hscan, htokens]
  rcases h with hcontinues | ⟨hcuts, htorn⟩
  · exact .inl (.cons _ hcontinues)
  · obtain ⟨first, hspells, hcs⟩ := scanToken_sound hscan ht
    refine .inr ⟨?_, htorn.cons _⟩
    rw [hcs]
    apply hcuts.token hspells
    rw [← hcs, htokens]

/-- A number that the beginning has in part ends it. -/
theorem tokensUpTo_of_torn (hc : isSpace c = false) (hnumber : c = '-' ∨ (digit? c).isSome)
    {b post : List Char} {n : Numeral} (hn : SpellsNumeral n (c :: cs ++ b)) (hb : b ≠ [])
    (hscan : scanNumeral (c :: cs ++ (b ++ post)) = .ok (n, post)) :
    TokensUpTo (c :: cs) (b ++ post) := by
  have htokens : tokens (c :: cs ++ (b ++ post)) = .number n :: tokens post := by
    rw [List.cons_append, tokens_cons_of_not_isSpace hc, scanToken_of_number hnumber,
      ← List.cons_append, hscan]
    rfl
  obtain ⟨x, hx, htorn⟩ := scanNumeral_torn hn hscan hb
  have hfront : tokens (c :: cs) = [x] := by
    rw [tokens_cons_of_not_isSpace hc, scanToken_of_number hnumber, hx, tokens_nil]
  right
  constructor
  · exact ⟨[], [], c :: cs, b, post, n, rfl, rfl, List.cons_ne_nil c cs, hb, .nil, hn, htokens⟩
  · exact ⟨[], n, x, tokens post, hfront, htokens, htorn⟩

/-- A number stands whole in the beginning, or the beginning ends with a part of it. -/
theorem tokensUpTo_of_number (hc : isSpace c = false) (hnumber : c = '-' ∨ (digit? c).isSome)
    (h : Sound (tokens (c :: cs ++ more)))
    (ih : Sound (tokens ((scanToken c cs).2 ++ more)) → TokensUpTo (scanToken c cs).2 more) :
    TokensUpTo (c :: cs) more := by
  rw [List.cons_append, tokens_cons_of_not_isSpace hc] at h
  obtain ⟨hsound, hstop, htail⟩ := h
  cases hscan : scanNumeral (c :: cs ++ more) with
  | error how =>
      rw [scanToken_of_number hnumber, ← List.cons_append, hscan] at hsound
      exact hsound.elim
  | ok scanned =>
      obtain ⟨n, post⟩ := scanned
      have hall : scanToken c (cs ++ more) = (.number n, post) := by
        rw [scanToken_of_number hnumber, ← List.cons_append, hscan]
        rfl
      rw [hall] at hstop htail
      -- What follows the number in the whole text starts with no number.
      have hpost : Stops post := (tokens_sound post htail.isSound).stops (hstop ⟨n, rfl⟩)
      rcases scanNumeral_cut hscan hpost with ⟨rest, hbegin, rfl⟩ | ⟨b, hb, rfl, hn⟩
      · have hscan' : scanToken c cs = (.number n, rest) := by
          rw [scanToken_of_number hnumber, hbegin]
          rfl
        rw [hscan'] at ih
        exact tokensUpTo_of_isSound hc hscan' trivial hall (ih htail)
      · exact tokensUpTo_of_torn hc hnumber hn hb hscan

/-- Any other token stands whole in the beginning, or the beginning breaks it off. -/
theorem tokensUpTo_of_not_number (hc : isSpace c = false)
    (hnumber : ¬ (c = '-' ∨ (digit? c).isSome)) (h : Sound (tokens (c :: cs ++ more)))
    (ih : Sound (tokens ((scanToken c cs).2 ++ more)) → TokensUpTo (scanToken c cs).2 more) :
    TokensUpTo (c :: cs) more := by
  rw [List.cons_append, tokens_cons_of_not_isSpace hc] at h
  obtain ⟨hsound, -, htail⟩ := h
  have hscan : scanToken c cs = ((scanToken c cs).1, (scanToken c cs).2) := rfl
  by_cases ht : (scanToken c cs).1.IsSound
  · have hno (n : Numeral) (hn : (scanToken c cs).1 = .number n) :
        (scanToken c cs).2 ≠ [] ∨ StartsWithSpace more :=
      absurd (scanToken_number (.inl ⟨n, hn⟩)) hnumber
    have hall := scanToken_append_of_isSound hscan ht hno
    rw [hall] at htail
    exact tokensUpTo_of_isSound hc hscan ht hall (ih htail)
  · have hno (hn : (scanToken c cs).1 = .brokenNumber .ended) : StartsWithSpace more :=
      absurd (scanToken_number (.inr ⟨_, hn⟩)) hnumber
    obtain ⟨hrest, ht'⟩ := scanToken_append_of_not_isSound hscan ht hno
    left
    rw [List.cons_append, tokens_cons_of_not_isSpace hc, hrest, tokens_nil,
      tokens_cons_of_not_isSpace hc]
    rcases ht' with ht' | ht'
    · rw [ht'] at hsound
      exact absurd hsound ht
    · exact .becomes _ ht'

end Step

theorem tokensUpTo (cs : List Char) {more : List Char} (h : Sound (tokens (cs ++ more))) :
    TokensUpTo cs more := by
  fun_induction tokens cs with
  | case1 => exact .inl (tokens_nil ▸ .nil _)
  | case2 c cs hc ih =>
      rw [List.cons_append, tokens_cons_of_isSpace hc] at h
      exact tokensUpTo_of_isSpace hc (ih h)
  | case3 c cs hc hlength ih =>
      have hspace : isSpace c = false := by simpa using hc
      by_cases hnumber : c = '-' ∨ (digit? c).isSome
      · exact tokensUpTo_of_number hspace hnumber h ih
      · exact tokensUpTo_of_not_number hspace hnumber h ih

end DigitiserSums.Json
