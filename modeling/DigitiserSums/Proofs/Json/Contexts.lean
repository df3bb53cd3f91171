import DigitiserSums.Proofs.Json.Continuation

/-!
# Places within a value

A context is a value with a hole, however deep. Its tokens stand before and behind those of whatever
fills the hole, and a text that starts with the tokens before the hole keeps them whatever follows.
-/

namespace DigitiserSums.Json

/-! ## One value for one row of tokens -/

mutual

/-- No value starts with all the tokens of another. -/
theorem Value.tokens_append_inj {rest rest' : List Token} :
    ∀ v w : Value, v.tokens ++ rest = w.tokens ++ rest' → v = w ∧ rest = rest'
  | .null, w => by
      cases w with
      | null => simp [Value.tokens]
      | _ => exact nofun
  | .bool _, w => by
      cases w with
      | bool _ => simp [Value.tokens]
      | _ => exact nofun
  | .number _, w => by
      cases w with
      | number _ => simp [Value.tokens]
      | _ => exact nofun
  | .string _, w => by
      cases w with
      | string _ => simp [Value.tokens]
      | _ => exact nofun
  | .array vs, w => by
      cases w with
      | array ws =>
          intro h
          obtain ⟨rfl, hrest⟩ := elementTokens_append_inj vs ws (List.cons.inj h).2
          exact ⟨rfl, hrest⟩
      | _ => exact nofun
  | .object ms, w => by
      cases w with
      | object ns =>
          intro h
          obtain ⟨rfl, hrest⟩ := memberTokens_append_inj ms ns (List.cons.inj h).2
          exact ⟨rfl, hrest⟩
      | _ => exact nofun

theorem elementTokens_append_inj {rest rest' : List Token} : ∀ vs ws : List Value,
    elementTokens vs ++ rest = elementTokens ws ++ rest' → vs = ws ∧ rest = rest'
  | [], [] => fun h => ⟨rfl, (List.cons.inj h).2⟩
  | [], w :: ws => fun h => by
      rw [elementTokens_cons_append] at h
      exact absurd h.symm (w.tokens_append_ne_closeBracket _ _)
  | v :: vs, [] => fun h => by
      rw [elementTokens_cons_append] at h
      exact absurd h (v.tokens_append_ne_closeBracket _ _)
  | v :: vs, w :: ws => fun h => by
      rw [elementTokens_cons_append, elementTokens_cons_append] at h
      obtain ⟨rfl, hmore⟩ := v.tokens_append_inj w h
      obtain ⟨rfl, hrest⟩ := moreElementTokens_append_inj vs ws hmore
      exact ⟨rfl, hrest⟩

theorem moreElementTokens_append_inj {rest rest' : List Token} : ∀ vs ws : List Value,
    moreElementTokens vs ++ rest = moreElementTokens ws ++ rest' → vs = ws ∧ rest = rest'
  | [], [] => fun h => ⟨rfl, (List.cons.inj h).2⟩
  | [], w :: ws => nofun
  | v :: vs, [] => nofun
  | v :: vs, w :: ws => fun h => by
      rw [moreElementTokens_cons_append, moreElementTokens_cons_append] at h
      obtain ⟨rfl, hmore⟩ := v.tokens_append_inj w (List.cons.inj h).2
      obtain ⟨rfl, hrest⟩ := moreElementTokens_append_inj vs ws hmore
      exact ⟨rfl, hrest⟩

theorem memberTokens_append_inj {rest rest' : List Token} :
    ∀ ms ns : List (List StringPart × Value),
      memberTokens ms ++ rest = memberTokens ns ++ rest' → ms = ns ∧ rest = rest'
  | [], [] => fun h => ⟨rfl, (List.cons.inj h).2⟩
  | [], n :: ns => nofun
  | m :: ms, [] => nofun
  | (name, v) :: ms, (name', w) :: ns => fun h => by
      rw [memberTokens_cons_append, memberTokens_cons_append] at h
      simp only [List.cons.injEq, Token.string.injEq, true_and] at h
      obtain ⟨rfl, h⟩ := h
      obtain ⟨rfl, hmore⟩ := v.tokens_append_inj w h
      obtain ⟨rfl, hrest⟩ := moreMemberTokens_append_inj ms ns hmore
      exact ⟨rfl, hrest⟩

theorem moreMemberTokens_append_inj {rest rest' : List Token} :
    ∀ ms ns : List (List StringPart × Value),
      moreMemberTokens ms ++ rest = moreMemberTokens ns ++ rest' → ms = ns ∧ rest = rest'
  | [], [] => fun h => ⟨rfl, (List.cons.inj h).2⟩
  | [], n :: ns => nofun
  | m :: ms, [] => nofun
  | (name, v) :: ms, (name', w) :: ns => fun h => by
      rw [moreMemberTokens_cons_append, moreMemberTokens_cons_append] at h
      simp only [List.cons.injEq, Token.string.injEq, true_and] at h
      obtain ⟨rfl, h⟩ := h
      obtain ⟨rfl, hmore⟩ := v.tokens_append_inj w h
      obtain ⟨rfl, hrest⟩ := moreMemberTokens_append_inj ms ns hmore
      exact ⟨rfl, hrest⟩

end

theorem Value.tokens_inj {v w : Value} (h : v.tokens = w.tokens) : v = w :=
  (v.tokens_append_inj w (congrArg (· ++ []) h)).1

/-! ## Elements and members before another -/

/-- The tokens of elements that another follows. -/
def elementsBefore : List Value → List Token
  | [] => []
  | v :: vs => v.tokens ++ .comma :: elementsBefore vs

/-- The tokens of members that another follows. -/
def membersBefore : List Member → List Token
  | [] => []
  | (name, v) :: ms => .string name :: .colon :: (v.tokens ++ .comma :: membersBefore ms)

theorem moreElementTokens_append_cons (before : List Value) (v : Value) (after : List Value) :
    moreElementTokens (before ++ v :: after) = .comma :: elementTokens (before ++ v :: after) := by
  cases before <;> rfl

theorem elementTokens_append_cons (before : List Value) (v : Value) (after : List Value) :
    elementTokens (before ++ v :: after) =
      elementsBefore before ++ (v.tokens ++ moreElementTokens after) := by
  induction before with
  | nil => rfl
  | cons w before ih =>
      rw [List.cons_append, elementTokens, moreElementTokens_append_cons, ih, elementsBefore,
        List.append_assoc, List.cons_append]

theorem moreMemberTokens_append_cons (before : List Member) (m : Member) (after : List Member) :
    moreMemberTokens (before ++ m :: after) = .comma :: memberTokens (before ++ m :: after) := by
  cases before <;> rfl

theorem memberTokens_append_cons (before : List Member) (name : List StringPart) (v : Value)
    (after : List Member) :
    memberTokens (before ++ (name, v) :: after) =
      membersBefore before ++ .string name :: .colon :: (v.tokens ++ moreMemberTokens after) := by
  induction before with
  | nil => rfl
  | cons m before ih =>
      obtain ⟨name', w⟩ := m
      rw [List.cons_append, memberTokens, moreMemberTokens_append_cons, ih, membersBefore,
        List.cons_append, List.cons_append, List.append_assoc, List.cons_append]

/-! ## Contexts -/

/-- A value with a hole. -/
inductive Context where
  | hole
  | element (before : List Value) (inner : Context) (after : List Value)
  | member (before : List Member) (name : List StringPart) (inner : Context) (after : List Member)

namespace Context

/-- The value with the hole filled. -/
def fill (v : Value) : Context → Value
  | hole => v
  | element before inner after => .array (before ++ inner.fill v :: after)
  | member before name inner after => .object (before ++ (name, inner.fill v) :: after)

/-- The tokens before the hole. -/
def front : Context → List Token
  | hole => []
  | element before inner _ => .openBracket :: (elementsBefore before ++ inner.front)
  | member before name inner _ =>
    .openBrace :: (membersBefore before ++ .string name :: .colon :: inner.front)

/-- The tokens behind the hole. -/
def back : Context → List Token
  | hole => []
  | element _ inner after => inner.back ++ moreElementTokens after
  | member _ _ inner after => inner.back ++ moreMemberTokens after

theorem tokens_fill (v : Value) (K : Context) :
    (K.fill v).tokens = K.front ++ (v.tokens ++ K.back) := by
  induction K with
  | hole => exact (List.append_nil _).symm
  | element before inner after ih =>
      rw [fill, Value.tokens, elementTokens_append_cons, ih, front, back]
      simp only [List.append_assoc, List.cons_append]
  | member before name inner after ih =>
      rw [fill, Value.tokens, memberTokens_append_cons, ih, front, back]
      simp only [List.append_assoc, List.cons_append]

/-- The tokens of an object in the hole, up to the name of the member behind the first ones. -/
def upToName (K : Context) (before : List Member) (name : List StringPart) : List Token :=
  K.front ++ .openBrace :: (membersBefore before ++ [.string name])

end Context

theorem Context.getLast?_upToName (K : Context) (before : List Member) (name : List StringPart) :
    (K.upToName before name).getLast? = some (.string name) := by
  rw [upToName, ← List.cons_append, ← List.append_assoc, List.getLast?_concat]

/-! ## Texts that start alike -/

theorem Sound.of_append {front back : List Token} (h : Sound (front ++ back)) : Sound front := by
  induction front with
  | nil => trivial
  | cons t front ih =>
      obtain ⟨ht, hnumber, hrest⟩ := h
      refine ⟨ht, fun hn n hhead => ?_, ih hrest⟩
      refine hnumber hn n (?_ : (front ++ back).head? = _)
      rw [List.head?_append, hhead]
      rfl

/-- The tokens that a text starts with, if they do not end with a number that may go on. -/
theorem tokens_append_of_layout {front : List Token} {text : String}
    (h : Layout front text.toList) (hsound : Sound front)
    (hlast : ∀ n, front.getLast? ≠ some (.number n)) (rest : String) :
    tokens (text ++ rest).toList = front ++ tokens rest.toList := by
  have htokens := tokens_complete h hsound
  rw [String.toList_append, tokens_append, htokens]
  · rw [htokens]
    exact hsound.isSound
  · intro n hn
    rw [htokens] at hn
    exact absurd hn (hlast n)

theorem Context.sound_front_append (K : Context) (v : Value) : Sound (K.front ++ v.tokens) := by
  have h := (K.fill v).sound_tokens
  rw [K.tokens_fill, ← List.append_assoc] at h
  exact h.of_append

theorem Context.sound_upToName (K : Context) (before : List Member) (name : List StringPart) :
    Sound (K.upToName before name) := by
  have h := K.sound_front_append (.object (before ++ [(name, .null)]))
  have htokens : K.front ++ (Value.object (before ++ [(name, .null)])).tokens =
      K.upToName before name ++ [.colon, .null, .closeBrace] := by
    simp only [upToName, Value.tokens, memberTokens_append_cons, moreMemberTokens, List.append_assoc,
      List.cons_append, List.nil_append]
  rw [htokens] at h
  exact h.of_append

end DigitiserSums.Json
