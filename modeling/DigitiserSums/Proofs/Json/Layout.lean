import DigitiserSums.Proofs.Json.Numerals
import DigitiserSums.Proofs.Json.Strings
import DigitiserSums.Proofs.Json.Value

/-!
# Texts and their tokens

A text spells tokens in order, with spaces wherever there are no tokens. The scanner finds the
tokens of any such text, as long as no number stands right behind another, and it finds whole tokens
in no other text.
-/

namespace DigitiserSums.Json

open Decimal

/-- The characters of a token. -/
inductive Spells : Token → List Char → Prop where
  | punctuation {c : Char} {token : Token} : punctuation? c = some token → Spells token [c]
  | word {c : Char} {letters : List Char} {token : Token} :
      word? c = some (letters, token) → Spells token (c :: letters)
  | number {n : Numeral} {cs : List Char} : SpellsNumeral n cs → Spells (.number n) cs
  | string {parts : List StringPart} {cs : List Char} :
      SpellsParts parts cs → Spells (.string parts) ('"' :: (cs ++ ['"']))

/-- The characters of tokens in a row, with spaces among them. -/
inductive Layout : List Token → List Char → Prop where
  | nil : Layout [] []
  | space {c : Char} {ts : List Token} {cs : List Char} :
      isSpace c = true → Layout ts cs → Layout ts (c :: cs)
  | token {t : Token} {ts : List Token} {front rest : List Char} :
      Spells t front → Layout ts rest → Layout (t :: ts) (front ++ rest)

/-! ## First characters -/

theorem punctuation?_eq_some {c : Char} {token : Token} (h : punctuation? c = some token) :
    c = '{' ∨ c = '}' ∨ c = '[' ∨ c = ']' ∨ c = ':' ∨ c = ',' := by
  unfold punctuation? at h
  split at h <;> simp_all

theorem word?_eq_some {c : Char} {word : List Char × Token} (h : word? c = some word) :
    c = 'n' ∨ c = 't' ∨ c = 'f' := by
  unfold word? at h
  split at h <;> simp_all

/-- What starts a number starts nothing else. -/
theorem digit?_or_minus {c : Char} (h : c = '-' ∨ (digit? c).isSome) :
    isSpace c = false ∧ punctuation? c = none ∧ word? c = none ∧ c ≠ '"' := by
  have hc : c = '-' ∨ ∃ d, c = digitChar d := by
    rcases h with h | h
    · exact .inl h
    · obtain ⟨d, hd⟩ := Option.isSome_iff_exists.1 h
      exact .inr ⟨d, digit?_eq_some_iff.1 hd⟩
  rcases hc with rfl | ⟨d, rfl⟩
  · decide
  · revert d
    decide

theorem Spells.head {t : Token} {cs : List Char} (h : Spells t cs) :
    ∃ c rest, cs = c :: rest ∧ isSpace c = false := by
  cases h with
  | punctuation hc =>
      refine ⟨_, _, rfl, ?_⟩
      rcases punctuation?_eq_some hc with rfl | rfl | rfl | rfl | rfl | rfl <;> decide
  | word hc =>
      refine ⟨_, _, rfl, ?_⟩
      rcases word?_eq_some hc with rfl | rfl | rfl <;> decide
  | number hn =>
      obtain ⟨c, rest, hcs, hc⟩ := hn.head
      exact ⟨c, rest, hcs, (digit?_or_minus hc).1⟩
  | string hparts => exact ⟨_, _, rfl, by decide⟩

/-- Only a number goes on with a number. -/
theorem Layout.stops {ts : List Token} {cs : List Char} (h : Layout ts cs) (hts : NoNumber ts) :
    Stops cs := by
  cases h with
  | nil => exact nofun
  | @space c _ cs hc hcs =>
      intro c' hc'
      cases hc'
      simp only [isSpace, Bool.or_eq_true, decide_eq_true_eq] at hc
      rcases hc with ((rfl | rfl) | rfl) | rfl <;> decide
  | @token t ts front rest ht hrest =>
      cases ht with
      | punctuation hc =>
          intro c' hc'
          cases hc'
          rcases punctuation?_eq_some hc with rfl | rfl | rfl | rfl | rfl | rfl <;> decide
      | word hc =>
          intro c' hc'
          cases hc'
          rcases word?_eq_some hc with rfl | rfl | rfl <;> decide
      | number hn => exact absurd rfl (hts _)
      | string hparts =>
          intro c' hc'
          cases hc'
          decide

/-! ## Scanning a token -/

theorem afterLetters_eq_ok_iff {letters cs rest : List Char} :
    afterLetters letters cs = .ok rest ↔ cs = letters ++ rest := by
  induction letters generalizing cs with
  | nil => simp [afterLetters]
  | cons l letters ih =>
      cases cs with
      | nil => simp [afterLetters]
      | cons c cs =>
          simp only [afterLetters]
          split
          · next hc => simp [ih, hc]
          · next hc => simp [hc]

theorem scanToken_sound {c : Char} {cs rest : List Char} {t : Token}
    (h : scanToken c cs = (t, rest)) (ht : t.IsSound) :
    ∃ front, Spells t front ∧ c :: cs = front ++ rest := by
  unfold scanToken at h
  split at h
  · next hc =>
      cases h
      exact ⟨[c], .punctuation hc, rfl⟩
  · next letters word hnone hc =>
      cases hscan : afterLetters letters cs with
      | error how =>
          rw [hscan] at h
          cases h
          exact ht.elim
      | ok rest' =>
          rw [hscan] at h
          cases h
          rw [afterLetters_eq_ok_iff.1 hscan]
          exact ⟨c :: letters, .word hc, rfl⟩
  · split at h
    · next hquote =>
        cases hscan : (scanString cs).2 with
        | error how =>
            simp only [hscan] at h
            cases h
            exact ht.elim
        | ok rest' =>
            simp only [hscan] at h
            cases h
            obtain ⟨front, hparts, hcs⟩ := scanString_sound hscan
            refine ⟨_, .string hparts, ?_⟩
            rw [hquote, hcs]
            simp
    · split at h
      · cases hscan : scanNumeral (c :: cs) with
        | error how =>
            rw [hscan] at h
            cases h
            exact ht.elim
        | ok scanned =>
            rw [hscan] at h
            cases h
            obtain ⟨front, hn, hcs⟩ := scanNumeral_sound hscan
            exact ⟨front, .number hn, hcs⟩
      · cases h
        exact ht.elim

theorem scanToken_complete {c : Char} {front rest : List Char} {t : Token}
    (h : Spells t (c :: front)) (hrest : (∃ n, t = .number n) → Stops rest) :
    scanToken c (front ++ rest) = (t, rest) := by
  unfold scanToken
  generalize hcs : c :: front = cs at h
  cases h with
  | punctuation hc =>
      cases hcs
      rw [hc]
      rfl
  | word hc =>
      cases hcs
      have hpunctuation : punctuation? c = none := by
        rcases word?_eq_some hc with rfl | rfl | rfl <;> rfl
      rw [hpunctuation, hc]
      simp only
      rw [afterLetters_eq_ok_iff.2 rfl]
      rfl
  | number hn =>
      obtain ⟨c', rest', hcs', hc⟩ := hn.head
      cases hcs.trans hcs'
      obtain ⟨-, hpunctuation, hword, hquote⟩ := digit?_or_minus hc
      have hscan := scanNumeral_complete hn (hrest ⟨_, rfl⟩)
      rw [← hcs, List.cons_append] at hscan
      rw [hpunctuation, hword]
      simp only
      rw [if_neg hquote, if_pos hc, hscan]
      rfl
  | string hparts =>
      cases hcs
      have hscan := scanString_complete rest hparts
      have hpunctuation : punctuation? '"' = none := by decide
      have hword : word? '"' = none := by decide
      rw [hpunctuation, hword, List.append_assoc, List.singleton_append, hscan]
      rfl

/-! ## Scanning a text -/

theorem tokens_sound (cs : List Char) (h : ∀ t ∈ tokens cs, t.IsSound) : Layout (tokens cs) cs := by
  fun_induction tokens cs with
  | case1 => exact .nil
  | case2 c cs hc ih => exact .space hc (ih h)
  | case3 c cs hc hlength ih =>
      obtain ⟨ht, hts⟩ := List.forall_mem_cons.1 h
      obtain ⟨front, hfront, hcs⟩ := scanToken_sound (Prod.eta (scanToken c cs)).symm ht
      rw [hcs]
      exact .token hfront (ih hts)

theorem tokens_complete {ts : List Token} {cs : List Char} (h : Layout ts cs) (hts : Sound ts) :
    tokens cs = ts := by
  induction h with
  | nil => exact tokens_nil
  | space hc _ ih => rw [tokens_cons_of_isSpace hc, ih hts]
  | token ht hrest ih =>
      obtain ⟨-, hnumber, hts⟩ := hts
      -- Behind a number comes no token that could be read on as one.
      obtain ⟨c, front, rfl, hc⟩ := ht.head
      have hscan := scanToken_complete ht fun hn => hrest.stops (hnumber hn)
      rw [List.cons_append, tokens_cons_of_not_isSpace hc, hscan, ih hts]

/-- A text has sound tokens exactly if it spells them. -/
theorem tokens_eq_iff_of_sound {ts : List Token} (hts : Sound ts) (cs : List Char) :
    tokens cs = ts ↔ Layout ts cs := by
  constructor
  · intro h
    rw [← h]
    apply tokens_sound
    rw [h]
    exact hts.isSound
  · intro h
    exact tokens_complete h hts

theorem tokens_eq_iff (v : Value) (cs : List Char) : tokens cs = v.tokens ↔ Layout v.tokens cs :=
  tokens_eq_iff_of_sound v.sound_tokens cs

end DigitiserSums.Json
