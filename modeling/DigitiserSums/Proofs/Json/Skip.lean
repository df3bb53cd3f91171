import DigitiserSums.Json.Reader
import DigitiserSums.Proofs.Json.Value

/-!
# Values that are passed over

The reader that passes over a value keeps no tree, only what encloses the place where it stands.
`Fits` says which tokens may come from there on, in terms of trees; a step of the reader takes the
first of them, and so it accepts the tokens of one value and no others.
-/

namespace DigitiserSums.Json.Reader

/-! ## What may come -/

/-- The tokens behind a value, up to the end of all that encloses it. -/
def Closing : List Enclosure → List Token → Prop
  | [], us => us = []
  | .array :: es, us => ∃ vs rest, us = moreElementTokens vs ++ rest ∧ Closing es rest
  | .object :: es, us => ∃ ms rest, us = moreMemberTokens ms ++ rest ∧ Closing es rest

/-- A value, and what is behind it. -/
def FitsValue (es : List Enclosure) (us : List Token) : Prop :=
  ∃ v : Value, ∃ rest, us = v.tokens ++ rest ∧ Closing es rest

/-- A name with its value, and what is behind them. -/
def FitsName (es : List Enclosure) (us : List Token) : Prop :=
  ∃ name rest, us = .string name :: .colon :: rest ∧ FitsValue es rest

/-- The tokens that may come in a state. -/
def Fits : Expected × List Enclosure → List Token → Prop
  | (.value, es), us => FitsValue es us
  | (.firstElement, .array :: es), us =>
      ∃ vs rest, us = elementTokens vs ++ rest ∧ Closing es rest
  | (.firstElement, es), us => FitsValue es us
  | (.firstName, .object :: es), us => ∃ ms rest, us = memberTokens ms ++ rest ∧ Closing es rest
  | (.firstName, es), us => FitsName es us
  | (.name, es), us => FitsName es us
  | (.colon, es), us => ∃ rest, us = .colon :: rest ∧ FitsValue es rest
  | (.separator, []), _ => False
  | (.separator, e :: es), us => Closing (e :: es) us

/-- The tokens that may come after a step. -/
def FitsNext : Option (Expected × List Enclosure) → List Token → Prop
  | none, us => us = []
  | some state, us => Fits state us

theorem fitsNext_endValue (es : List Enclosure) (us : List Token) :
    FitsNext (endValue es) us ↔ Closing es us := by
  cases es with
  | nil => rfl
  | cons e es => rfl

/-! ## The first token -/

theorem closing_array_iff {es : List Enclosure} {us : List Token} :
    Closing (.array :: es) us ↔
      (∃ rest, us = .closeBracket :: rest ∧ Closing es rest) ∨
        ∃ rest, us = .comma :: rest ∧ FitsValue (.array :: es) rest := by
  constructor
  · intro h
    obtain ⟨vs, rest, rfl, hrest⟩ := h
    cases vs with
    | nil => exact .inl ⟨rest, rfl, hrest⟩
    | cons v vs =>
        rw [moreElementTokens_cons_append]
        exact .inr ⟨_, rfl, v, _, rfl, vs, rest, rfl, hrest⟩
  · intro h
    rcases h with ⟨rest, rfl, hrest⟩ | ⟨_, rfl, v, _, rfl, vs, rest, rfl, hrest⟩
    · exact ⟨[], rest, rfl, hrest⟩
    · exact ⟨v :: vs, rest, (moreElementTokens_cons_append v vs rest).symm, hrest⟩

theorem closing_object_iff {es : List Enclosure} {us : List Token} :
    Closing (.object :: es) us ↔
      (∃ rest, us = .closeBrace :: rest ∧ Closing es rest) ∨
        ∃ rest, us = .comma :: rest ∧ FitsName (.object :: es) rest := by
  constructor
  · intro h
    obtain ⟨ms, rest, rfl, hrest⟩ := h
    cases ms with
    | nil => exact .inl ⟨rest, rfl, hrest⟩
    | cons m ms =>
        obtain ⟨name, v⟩ := m
        rw [moreMemberTokens_cons_append]
        exact .inr ⟨_, rfl, name, _, rfl, v, _, rfl, ms, rest, rfl, hrest⟩
  · intro h
    rcases h with ⟨rest, rfl, hrest⟩ | ⟨_, rfl, name, _, rfl, v, _, rfl, ms, rest, rfl, hrest⟩
    · exact ⟨[], rest, rfl, hrest⟩
    · exact ⟨(name, v) :: ms, rest, (moreMemberTokens_cons_append name v ms rest).symm, hrest⟩

theorem fits_firstElement_iff {es : List Enclosure} {us : List Token} :
    Fits (.firstElement, .array :: es) us ↔
      (∃ rest, us = .closeBracket :: rest ∧ Closing es rest) ∨ FitsValue (.array :: es) us := by
  constructor
  · intro h
    obtain ⟨vs, rest, rfl, hrest⟩ := h
    cases vs with
    | nil => exact .inl ⟨rest, rfl, hrest⟩
    | cons v vs =>
        rw [elementTokens_cons_append]
        exact .inr ⟨v, _, rfl, vs, rest, rfl, hrest⟩
  · intro h
    rcases h with ⟨rest, rfl, hrest⟩ | ⟨v, _, rfl, vs, rest, rfl, hrest⟩
    · exact ⟨[], rest, rfl, hrest⟩
    · exact ⟨v :: vs, rest, (elementTokens_cons_append v vs rest).symm, hrest⟩

theorem fits_firstName_iff {es : List Enclosure} {us : List Token} :
    Fits (.firstName, .object :: es) us ↔
      (∃ rest, us = .closeBrace :: rest ∧ Closing es rest) ∨ FitsName (.object :: es) us := by
  constructor
  · intro h
    obtain ⟨ms, rest, rfl, hrest⟩ := h
    cases ms with
    | nil => exact .inl ⟨rest, rfl, hrest⟩
    | cons m ms =>
        obtain ⟨name, v⟩ := m
        rw [memberTokens_cons_append]
        exact .inr ⟨name, _, rfl, v, _, rfl, ms, rest, rfl, hrest⟩
  · intro h
    rcases h with ⟨rest, rfl, hrest⟩ | ⟨name, _, rfl, v, _, rfl, ms, rest, rfl, hrest⟩
    · exact ⟨[], rest, rfl, hrest⟩
    · exact ⟨(name, v) :: ms, rest, (memberTokens_cons_append name v ms rest).symm, hrest⟩

/-! ## A step -/

theorem fitsValue_cons_iff {es : List Enclosure} {t : Token} {us : List Token} :
    FitsValue es (t :: us) ↔ ∃ next, skipValueToken es t = .ok next ∧ FitsNext next us := by
  constructor
  · intro h
    obtain ⟨v, rest, heq, hrest⟩ := h
    cases v with
    | null =>
        cases heq
        exact ⟨_, rfl, (fitsNext_endValue es _).2 hrest⟩
    | bool value =>
        cases heq
        exact ⟨_, rfl, (fitsNext_endValue es _).2 hrest⟩
    | number numeral =>
        cases heq
        exact ⟨_, rfl, (fitsNext_endValue es _).2 hrest⟩
    | string parts =>
        cases heq
        exact ⟨_, rfl, (fitsNext_endValue es _).2 hrest⟩
    | array vs =>
        cases heq
        exact ⟨_, rfl, vs, rest, rfl, hrest⟩
    | object ms =>
        cases heq
        exact ⟨_, rfl, ms, rest, rfl, hrest⟩
  · intro h
    obtain ⟨next, h, hnext⟩ := h
    cases t with
    | null =>
        cases h
        exact ⟨.null, us, rfl, (fitsNext_endValue es us).1 hnext⟩
    | bool value =>
        cases h
        exact ⟨.bool value, us, rfl, (fitsNext_endValue es us).1 hnext⟩
    | number numeral =>
        cases h
        exact ⟨.number numeral, us, rfl, (fitsNext_endValue es us).1 hnext⟩
    | string parts =>
        cases h
        exact ⟨.string parts, us, rfl, (fitsNext_endValue es us).1 hnext⟩
    | openBracket =>
        cases h
        obtain ⟨vs, rest, rfl, hrest⟩ := hnext
        exact ⟨.array vs, rest, rfl, hrest⟩
    | openBrace =>
        cases h
        obtain ⟨ms, rest, rfl, hrest⟩ := hnext
        exact ⟨.object ms, rest, rfl, hrest⟩
    | closeBrace | closeBracket | colon | comma => cases h
    | brokenWord | brokenNumber | brokenString | stray => cases h

theorem fitsName_cons_iff {es : List Enclosure} {t : Token} {us : List Token} :
    FitsName es (t :: us) ↔ ∃ next, skipNameToken es t = .ok next ∧ FitsNext next us := by
  constructor
  · intro h
    obtain ⟨name, rest, heq, hrest⟩ := h
    cases heq
    exact ⟨_, rfl, rest, rfl, hrest⟩
  · intro h
    obtain ⟨next, h, hnext⟩ := h
    unfold skipNameToken at h
    split at h
    · cases h
      obtain ⟨rest, rfl, hrest⟩ := hnext
      exact ⟨_, rest, rfl, hrest⟩
    · cases h
    · cases h

theorem skipToken_firstElement {es : List Enclosure} {t : Token} (ht : t ≠ .closeBracket) :
    skipToken (.firstElement, .array :: es) t = skipValueToken (.array :: es) t := by
  cases t <;> first | exact absurd rfl ht | rfl

theorem skipToken_firstName {es : List Enclosure} {t : Token} (ht : t ≠ .closeBrace) :
    skipToken (.firstName, .object :: es) t = skipNameToken (.object :: es) t := by
  cases t <;> first | exact absurd rfl ht | rfl

theorem fits_firstElement_cons_iff {es : List Enclosure} {t : Token} {us : List Token} :
    Fits (.firstElement, .array :: es) (t :: us) ↔
      ∃ next, skipToken (.firstElement, .array :: es) t = .ok next ∧ FitsNext next us := by
  rw [fits_firstElement_iff, fitsValue_cons_iff]
  by_cases ht : t = .closeBracket
  · subst ht
    constructor
    · intro h
      rcases h with ⟨rest, h, hrest⟩ | ⟨next, h, -⟩
      · cases h
        exact ⟨_, rfl, (fitsNext_endValue es us).2 hrest⟩
      · cases h
    · intro h
      obtain ⟨next, h, hnext⟩ := h
      cases h
      exact .inl ⟨us, rfl, (fitsNext_endValue es us).1 hnext⟩
  · rw [skipToken_firstElement ht]
    constructor
    · intro h
      rcases h with ⟨rest, h, -⟩ | h
      · exact absurd (List.cons.inj h).1 ht
      · exact h
    · exact .inr

theorem fits_firstName_cons_iff {es : List Enclosure} {t : Token} {us : List Token} :
    Fits (.firstName, .object :: es) (t :: us) ↔
      ∃ next, skipToken (.firstName, .object :: es) t = .ok next ∧ FitsNext next us := by
  rw [fits_firstName_iff, fitsName_cons_iff]
  by_cases ht : t = .closeBrace
  · subst ht
    constructor
    · intro h
      rcases h with ⟨rest, h, hrest⟩ | ⟨next, h, -⟩
      · cases h
        exact ⟨_, rfl, (fitsNext_endValue es us).2 hrest⟩
      · cases h
    · intro h
      obtain ⟨next, h, hnext⟩ := h
      cases h
      exact .inl ⟨us, rfl, (fitsNext_endValue es us).1 hnext⟩
  · rw [skipToken_firstName ht]
    constructor
    · intro h
      rcases h with ⟨rest, h, -⟩ | h
      · exact absurd (List.cons.inj h).1 ht
      · exact h
    · exact .inr

theorem fits_colon_cons_iff {es : List Enclosure} {t : Token} {us : List Token} :
    Fits (.colon, es) (t :: us) ↔
      ∃ next, skipToken (.colon, es) t = .ok next ∧ FitsNext next us := by
  constructor
  · intro h
    obtain ⟨rest, h, hrest⟩ := h
    cases h
    exact ⟨_, rfl, hrest⟩
  · intro h
    obtain ⟨next, h, hnext⟩ := h
    cases t with
    | colon =>
        cases h
        exact ⟨us, rfl, hnext⟩
    | _ => cases h

theorem closing_array_cons_iff {es : List Enclosure} {t : Token} {us : List Token} :
    Closing (.array :: es) (t :: us) ↔
      ∃ next, skipToken (.separator, .array :: es) t = .ok next ∧ FitsNext next us := by
  rw [closing_array_iff]
  constructor
  · intro h
    rcases h with ⟨rest, h, hrest⟩ | ⟨rest, h, hrest⟩
    · cases h
      exact ⟨_, rfl, (fitsNext_endValue es us).2 hrest⟩
    · cases h
      exact ⟨_, rfl, hrest⟩
  · intro h
    obtain ⟨next, h, hnext⟩ := h
    cases t with
    | closeBracket =>
        cases h
        exact .inl ⟨us, rfl, (fitsNext_endValue es us).1 hnext⟩
    | comma =>
        cases h
        exact .inr ⟨us, rfl, hnext⟩
    | _ => cases h

theorem closing_object_cons_iff {es : List Enclosure} {t : Token} {us : List Token} :
    Closing (.object :: es) (t :: us) ↔
      ∃ next, skipToken (.separator, .object :: es) t = .ok next ∧ FitsNext next us := by
  rw [closing_object_iff]
  constructor
  · intro h
    rcases h with ⟨rest, h, hrest⟩ | ⟨rest, h, hrest⟩
    · cases h
      exact ⟨_, rfl, (fitsNext_endValue es us).2 hrest⟩
    · cases h
      exact ⟨_, rfl, hrest⟩
  · intro h
    obtain ⟨next, h, hnext⟩ := h
    cases t with
    | closeBrace =>
        cases h
        exact .inl ⟨us, rfl, (fitsNext_endValue es us).1 hnext⟩
    | comma =>
        cases h
        exact .inr ⟨us, rfl, hnext⟩
    | _ => cases h

theorem fits_separator_cons_iff {es : List Enclosure} {t : Token} {us : List Token} :
    Fits (.separator, es) (t :: us) ↔
      ∃ next, skipToken (.separator, es) t = .ok next ∧ FitsNext next us := by
  match es with
  | [] =>
      constructor
      · exact False.elim
      · intro h
        obtain ⟨next, h, -⟩ := h
        cases h
  | .array :: es => exact closing_array_cons_iff
  | .object :: es => exact closing_object_cons_iff

/-- A step takes the first of the tokens that may come, and leaves the others to come. -/
theorem fits_cons_iff (state : Expected × List Enclosure) (t : Token) (us : List Token) :
    Fits state (t :: us) ↔ ∃ next, skipToken state t = .ok next ∧ FitsNext next us := by
  obtain ⟨expected, es⟩ := state
  cases expected with
  | value => exact fitsValue_cons_iff
  | firstElement =>
      match es with
      | [] => exact fitsValue_cons_iff
      | .object :: es => exact fitsValue_cons_iff
      | .array :: es => exact fits_firstElement_cons_iff
  | firstName =>
      match es with
      | [] => exact fitsName_cons_iff
      | .array :: es => exact fitsName_cons_iff
      | .object :: es => exact fits_firstName_cons_iff
  | name => exact fitsName_cons_iff
  | colon => exact fits_colon_cons_iff
  | separator => exact fits_separator_cons_iff

theorem not_fitsValue_nil (es : List Enclosure) : ¬ FitsValue es [] := by
  intro h
  obtain ⟨v, rest, h, -⟩ := h
  exact v.tokens_ne_nil (List.append_eq_nil_iff.1 h.symm).1

theorem not_fitsName_nil (es : List Enclosure) : ¬ FitsName es [] := by
  intro h
  obtain ⟨name, rest, h, -⟩ := h
  cases h

theorem not_fits_nil (state : Expected × List Enclosure) : ¬ Fits state [] := by
  obtain ⟨expected, es⟩ := state
  cases expected with
  | value => exact not_fitsValue_nil es
  | firstElement =>
      match es with
      | [] => exact not_fitsValue_nil _
      | .object :: es => exact not_fitsValue_nil _
      | .array :: es =>
          rw [fits_firstElement_iff]
          intro h
          rcases h with ⟨rest, h, -⟩ | h
          · cases h
          · exact not_fitsValue_nil _ h
  | firstName =>
      match es with
      | [] => exact not_fitsName_nil _
      | .array :: es => exact not_fitsName_nil _
      | .object :: es =>
          rw [fits_firstName_iff]
          intro h
          rcases h with ⟨rest, h, -⟩ | h
          · cases h
          · exact not_fitsName_nil _ h
  | name => exact not_fitsName_nil es
  | colon =>
      intro h
      obtain ⟨rest, h, -⟩ := h
      cases h
  | separator =>
      match es with
      | [] => exact id
      | .array :: es =>
          change ¬ Closing _ _
          rw [closing_array_iff]
          intro h
          rcases h with ⟨rest, h, -⟩ | ⟨rest, h, -⟩
          · cases h
          · cases h
      | .object :: es =>
          change ¬ Closing _ _
          rw [closing_object_iff]
          intro h
          rcases h with ⟨rest, h, -⟩ | ⟨rest, h, -⟩
          · cases h
          · cases h

/-! ## A run -/

theorem exists_fits_cons_iff (state : Expected × List Enclosure) (t : Token)
    (ts rest : List Token) :
    (∃ us, t :: ts = us ++ rest ∧ Fits state us) ↔
      ∃ next us, skipToken state t = .ok next ∧ ts = us ++ rest ∧ FitsNext next us := by
  constructor
  · intro h
    obtain ⟨us, h, hus⟩ := h
    cases us with
    | nil => exact absurd hus (not_fits_nil state)
    | cons u us =>
        cases h
        obtain ⟨next, hnext, hfits⟩ := (fits_cons_iff state t us).1 hus
        exact ⟨next, us, hnext, rfl, hfits⟩
  · intro h
    obtain ⟨next, us, hnext, rfl, hfits⟩ := h
    exact ⟨t :: us, rfl, (fits_cons_iff state t us).2 ⟨next, hnext, hfits⟩⟩

theorem skipFrom_eq_ok_iff {state : Expected × List Enclosure} {ts rest : List Token} :
    skipFrom state ts = .ok ((), rest) ↔ ∃ us, ts = us ++ rest ∧ Fits state us := by
  -- The state changes at every token; `Fits` says for each state what may still follow.
  induction ts generalizing state with
  | nil =>
      constructor
      · intro h
        cases h
      · intro h
        obtain ⟨us, h, hus⟩ := h
        rw [(List.append_eq_nil_iff.1 h.symm).1] at hus
        exact absurd hus (not_fits_nil state)
  | cons t ts ih =>
      rw [exists_fits_cons_iff, skipFrom]
      cases skipToken state t with
      | error fault => simp
      | ok next =>
          cases next with
          | none =>
              constructor
              · intro h
                cases h
                exact ⟨none, [], rfl, rfl, rfl⟩
              · intro h
                obtain ⟨next, us, h, rfl, hfits⟩ := h
                cases h
                cases hfits
                rfl
          | some state =>
              constructor
              · intro h
                obtain ⟨us, hts, hfits⟩ := ih.1 h
                exact ⟨some state, us, rfl, hts, hfits⟩
              · intro h
                obtain ⟨next, us, h, hts, hfits⟩ := h
                cases h
                exact ih.2 ⟨us, hts, hfits⟩

/-- Exactly the tokens of a value are passed over. -/
theorem skip_eq_ok_iff {ts rest : List Token} :
    skip ts = .ok ((), rest) ↔ ∃ v : Value, ts = v.tokens ++ rest := by
  unfold skip
  rw [skipFrom_eq_ok_iff]
  constructor
  · intro h
    obtain ⟨us, rfl, v, _, rfl, rfl⟩ := h
    exact ⟨v, by rw [List.append_nil]⟩
  · intro h
    obtain ⟨v, rfl⟩ := h
    exact ⟨v.tokens, rfl, v, [], (List.append_nil _).symm, rfl⟩

end DigitiserSums.Json.Reader
