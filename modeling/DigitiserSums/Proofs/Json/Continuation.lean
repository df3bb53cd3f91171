import DigitiserSums.Proofs.Json.Scanning

/-!
# Texts that go on

The tokens of a text stay as they are when the text goes on, but for one that touches its end. A
token that the text broke off may become another; and a number at the end stays by itself if the
text goes on with a space.
-/

namespace DigitiserSums.Json

open Decimal

variable {more : List Char}

/-! ## Tokens -/

/-- A word, or what is left of one. -/
def Token.IsWord : Token → Prop
  | .null | .bool _ | .brokenWord _ => True
  | _ => False

/-- What a token that the text breaks off may become if the text goes on. A number cannot go on
behind a space. -/
inductive Token.Becomes : Token → Token → Prop where
  | word {t : Token} : t.IsWord → Becomes (.brokenWord .ended) t
  | number : Becomes (.brokenNumber .ended) (.brokenNumber .malformed)
  | string (parts more : List StringPart) :
      Becomes (.brokenString parts .ended) (.string (parts ++ more))
  | brokenString (parts more : List StringPart) (how : Break) :
      Becomes (.brokenString parts .ended) (.brokenString (parts ++ more) how)

/-- What the tokens of a text may become if the text goes on: others may follow, and the last one
may change if the text broke it off. -/
inductive Continues : List Token → List Token → Prop where
  | nil (ts : List Token) : Continues [] ts
  | becomes {t t' : Token} (ts : List Token) : t.Becomes t' → Continues [t] (t' :: ts)
  | cons (t : Token) {ts ts' : List Token} : Continues ts ts' → Continues (t :: ts) (t :: ts')

/-! ### The first character -/

theorem scanToken_of_punctuation {c : Char} {t : Token} (h : punctuation? c = some t)
    (cs : List Char) : scanToken c cs = (t, cs) := by
  simp only [scanToken, h]

theorem scanToken_of_word {c : Char} {letters : List Char} {word : Token}
    (h : word? c = some (letters, word)) (cs : List Char) :
    scanToken c cs =
      orBroken (fun _ => word) .brokenWord ((afterLetters letters cs).map ((), ·)) := by
  have hpunctuation : punctuation? c = none := by
    rcases word?_eq_some h with rfl | rfl | rfl <;> rfl
  simp only [scanToken, hpunctuation, h]

theorem scanToken_quote (cs : List Char) : scanToken '"' cs =
    orBroken (fun _ => .string (scanString cs).1) (.brokenString (scanString cs).1)
      ((scanString cs).2.map ((), ·)) :=
  rfl

theorem scanToken_of_number {c : Char} (h : c = '-' ∨ (digit? c).isSome) (cs : List Char) :
    scanToken c cs = orBroken .number .brokenNumber (scanNumeral (c :: cs)) := by
  obtain ⟨-, hpunctuation, hword, hquote⟩ := digit?_or_minus h
  simp only [scanToken, hpunctuation, hword, if_neg hquote, if_pos h]

/-- The first character of a token says of what kind it is. -/
theorem scanToken_cases (c : Char) :
    (∃ t, punctuation? c = some t) ∨ (∃ letters word, word? c = some (letters, word)) ∨
      c = '"' ∨ (c = '-' ∨ (digit? c).isSome) ∨ ∀ cs, scanToken c cs = (.stray, []) := by
  cases hpunctuation : punctuation? c with
  | some t => exact .inl ⟨t, rfl⟩
  | none =>
      cases hword : word? c with
      | some word => exact .inr (.inl ⟨word.1, word.2, rfl⟩)
      | none =>
          by_cases hquote : c = '"'
          · exact .inr (.inr (.inl hquote))
          · by_cases hnumber : c = '-' ∨ (digit? c).isSome
            · exact .inr (.inr (.inr (.inl hnumber)))
            · refine .inr (.inr (.inr (.inr fun cs => ?_)))
              simp only [scanToken, hpunctuation, hword, if_neg hquote, if_neg hnumber]

theorem punctuation?_isSound {c : Char} {t : Token} (h : punctuation? c = some t) : t.IsSound := by
  unfold punctuation? at h
  split at h
  all_goals cases h
  all_goals trivial

theorem word?_isWord {c : Char} {letters : List Char} {word : Token}
    (h : word? c = some (letters, word)) : word.IsWord ∧ word.IsSound := by
  unfold word? at h
  split at h
  all_goals cases h
  all_goals exact ⟨trivial, trivial⟩

/-- A whole token is found again, with what follows it. -/
theorem scanToken_append_of_isSound {c : Char} {cs rest : List Char} {t : Token}
    (h : scanToken c cs = (t, rest)) (ht : t.IsSound)
    (hmore : ∀ n, t = .number n → rest ≠ [] ∨ StartsWithSpace more) :
    scanToken c (cs ++ more) = (t, rest ++ more) := by
  rcases scanToken_cases c with ⟨t', hc⟩ | ⟨letters, word, hc⟩ | rfl | hc | hc
  · rw [scanToken_of_punctuation hc] at h ⊢
    cases h
    rfl
  · rw [scanToken_of_word hc] at h ⊢
    cases hscan : afterLetters letters cs with
    | error how =>
        rw [hscan] at h
        cases h
        exact ht.elim
    | ok rest' =>
        rw [hscan] at h
        cases h
        rw [afterLetters_append_of_ok more hscan]
        rfl
  · rw [scanToken_quote] at h ⊢
    cases hscan : (scanString cs).2 with
    | error how =>
        rw [hscan] at h
        cases h
        exact ht.elim
    | ok rest' =>
        rw [hscan] at h
        cases h
        rw [scanString_append_of_ok more hscan]
        rfl
  · rw [scanToken_of_number hc] at h ⊢
    cases hscan : scanNumeral (c :: cs) with
    | error how =>
        rw [hscan] at h
        cases h
        exact ht.elim
    | ok scanned =>
        rw [hscan] at h
        cases h
        rw [← List.cons_append, decidesByNext_scanNumeral.ok hscan (hmore _ rfl)]
        rfl
  · rw [hc] at h
    cases h
    exact ht.elim

/-- A broken token ends the text. If the text goes on, it stays as it is or becomes what it may. -/
theorem scanToken_append_of_not_isSound {c : Char} {cs rest : List Char} {t : Token}
    (h : scanToken c cs = (t, rest)) (ht : ¬ t.IsSound)
    (hmore : t = .brokenNumber .ended → StartsWithSpace more) :
    rest = [] ∧ ((scanToken c (cs ++ more)).1 = t ∨ t.Becomes (scanToken c (cs ++ more)).1) := by
  rcases scanToken_cases c with ⟨t', hc⟩ | ⟨letters, word, hc⟩ | rfl | hc | hc
  · rw [scanToken_of_punctuation hc] at h
    cases h
    exact absurd (punctuation?_isSound hc) ht
  · rw [scanToken_of_word hc] at h ⊢
    cases hscan : afterLetters letters cs with
    | ok rest' =>
        rw [hscan] at h
        cases h
        exact absurd (word?_isWord hc).2 ht
    | error how =>
        rw [hscan] at h
        cases h
        refine ⟨rfl, ?_⟩
        cases how with
        | malformed =>
            rw [afterLetters_append_of_malformed more hscan]
            exact .inl rfl
        | ended =>
            right
            cases afterLetters letters (cs ++ more) with
            | ok rest => exact .word (word?_isWord hc).1
            | error how => exact .word trivial
  · rw [scanToken_quote] at h ⊢
    cases hscan : (scanString cs).2 with
    | ok rest' =>
        rw [hscan] at h
        cases h
        exact absurd trivial ht
    | error how =>
        rw [hscan] at h
        cases h
        obtain ⟨parts, outcome, hstring, hhow⟩ := scanString_append_of_error more hscan
        rw [hstring]
        refine ⟨rfl, ?_⟩
        cases how with
        | malformed =>
            obtain ⟨rfl, rfl⟩ := hhow rfl
            rw [List.append_nil]
            exact .inl rfl
        | ended =>
            right
            cases outcome with
            | ok rest => exact .string _ parts
            | error how => exact .brokenString _ parts how
  · rw [scanToken_of_number hc] at h ⊢
    cases hscan : scanNumeral (c :: cs) with
    | ok scanned =>
        rw [hscan] at h
        cases h
        exact absurd trivial ht
    | error how =>
        rw [hscan] at h
        cases h
        refine ⟨rfl, ?_⟩
        rw [← List.cons_append]
        cases how with
        | malformed =>
            rw [decidesByNext_scanNumeral.malformed hscan]
            exact .inl rfl
        | ended =>
            rw [decidesByNext_scanNumeral.ended hscan (hmore rfl)]
            exact .inr .number
  · rw [hc] at h ⊢
    cases h
    exact ⟨rfl, .inl rfl⟩

/-! ## Texts -/

theorem tokens_ne_nil_of_ne_nil {cs : List Char} (h : tokens cs ≠ []) : cs ≠ [] := by
  intro heq
  subst heq
  exact h tokens_nil

theorem tokens_append_of_isSpace {spaces : List Char} (h : ∀ c ∈ spaces, isSpace c = true)
    (cs : List Char) : tokens (spaces ++ cs) = tokens cs := by
  induction spaces with
  | nil => rfl
  | cons c spaces ih =>
      rw [List.forall_mem_cons] at h
      rw [List.cons_append, tokens_cons_of_isSpace h.1, ih h.2]

theorem tokens_ne_nil_of_mem {cs : List Char} {c : Char} (hmem : c ∈ cs)
    (hc : isSpace c = false) : tokens cs ≠ [] := by
  induction cs with
  | nil => cases hmem
  | cons d cs ih =>
      cases hd : isSpace d with
      | false =>
          rw [tokens_cons_of_not_isSpace hd]
          exact List.cons_ne_nil _ _
      | true =>
          rw [tokens_cons_of_isSpace hd]
          rcases List.mem_cons.1 hmem with rfl | hmem
          · rw [hc] at hd
            cases hd
          · exact ih hmem

/-- A text of whole tokens keeps them, whatever follows, if a number at its end stays by itself. -/
theorem tokens_append (cs : List Char) (hsound : ∀ t ∈ tokens cs, t.IsSound)
    (hlast : ∀ n, (tokens cs).getLast? = some (.number n) → StartsWithSpace more) :
    tokens (cs ++ more) = tokens cs ++ tokens more := by
  fun_induction tokens cs with
  | case1 => rfl
  | case2 c cs hc ih => rw [List.cons_append, tokens_cons_of_isSpace hc, ih hsound hlast]
  | case3 c cs hc hlength ih =>
      obtain ⟨ht, hts⟩ := List.forall_mem_cons.1 hsound
      have hmore : ∀ n, (scanToken c cs).1 = .number n →
          (scanToken c cs).2 ≠ [] ∨ StartsWithSpace more := by
        intro n hn
        by_cases hrest : tokens (scanToken c cs).2 = []
        · exact .inr (hlast n (by rw [hrest, hn]; rfl))
        · exact .inl (tokens_ne_nil_of_ne_nil hrest)
      have hscan := scanToken_append_of_isSound (Prod.eta _).symm ht hmore
      have hlast' : ∀ n, (tokens (scanToken c cs).2).getLast? = some (.number n) →
          StartsWithSpace more := by
        intro n hn
        refine hlast n ?_
        rw [List.getLast?_cons, hn]
        rfl
      rw [List.cons_append, tokens_cons_of_not_isSpace (by simpa using hc), hscan,
        ih hts hlast', List.cons_append]

/-- A space behind a text sets its tokens apart from those that follow. -/
theorem continues_tokens (cs : List Char) (hmore : StartsWithSpace more) :
    Continues (tokens cs) (tokens (cs ++ more)) := by
  fun_induction tokens cs with
  | case1 => exact .nil _
  | case2 c cs hc ih =>
      rw [List.cons_append, tokens_cons_of_isSpace hc]
      exact ih
  | case3 c cs hc hlength ih =>
      rw [List.cons_append, tokens_cons_of_not_isSpace (by simpa using hc)]
      by_cases ht : (scanToken c cs).1.IsSound
      · rw [scanToken_append_of_isSound (Prod.eta _).symm ht fun _ _ => .inr hmore]
        exact .cons _ ih
      · obtain ⟨hrest, ht'⟩ := scanToken_append_of_not_isSound (Prod.eta _).symm ht fun _ => hmore
        rw [hrest, tokens_nil]
        rcases ht' with ht' | ht'
        · rw [ht']
          exact .cons _ (.nil _)
        · exact .becomes _ ht'

end DigitiserSums.Json
