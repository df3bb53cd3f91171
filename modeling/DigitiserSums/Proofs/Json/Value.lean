import DigitiserSums.Json.Token

/-!
# JSON values

A value is a tree with scalars at its leaves; numbers and strings stand there as they are spelled.
The tokens of a tree are the only form in which the readers meet it.
-/

namespace DigitiserSums.Json

/-- A JSON value. -/
inductive Value where
  | null
  | bool (value : Bool)
  | number (numeral : Numeral)
  | string (parts : List StringPart)
  | array (elements : List Value)
  | object (members : List (List StringPart × Value))

/-- A member of an object: its name as it is spelled, and its value. -/
abbrev Member := List StringPart × Value

mutual

/-- The tokens of a value. -/
def Value.tokens : Value → List Token
  | .null => [.null]
  | .bool value => [.bool value]
  | .number numeral => [.number numeral]
  | .string parts => [.string parts]
  | .array elements => .openBracket :: elementTokens elements
  | .object members => .openBrace :: memberTokens members

/-- The tokens of elements behind an open bracket, with the closing one. -/
def elementTokens : List Value → List Token
  | [] => [.closeBracket]
  | v :: vs => v.tokens ++ moreElementTokens vs

/-- The tokens of elements that follow another. -/
def moreElementTokens : List Value → List Token
  | [] => [.closeBracket]
  | v :: vs => .comma :: (v.tokens ++ moreElementTokens vs)

/-- The tokens of members behind an open brace, with the closing one. -/
def memberTokens : List (List StringPart × Value) → List Token
  | [] => [.closeBrace]
  | (name, v) :: ms => .string name :: .colon :: (v.tokens ++ moreMemberTokens ms)

/-- The tokens of members that follow another. -/
def moreMemberTokens : List (List StringPart × Value) → List Token
  | [] => [.closeBrace]
  | (name, v) :: ms => .comma :: .string name :: .colon :: (v.tokens ++ moreMemberTokens ms)

end

section Append

variable (name : List StringPart) (v : Value) (vs : List Value) (ms : List Member)
  (rest : List Token)

theorem elementTokens_cons_append :
    elementTokens (v :: vs) ++ rest = v.tokens ++ (moreElementTokens vs ++ rest) := by
  rw [elementTokens, List.append_assoc]

theorem moreElementTokens_cons_append :
    moreElementTokens (v :: vs) ++ rest =
      .comma :: (v.tokens ++ (moreElementTokens vs ++ rest)) := by
  rw [moreElementTokens, List.cons_append, List.append_assoc]

theorem memberTokens_cons_append :
    memberTokens ((name, v) :: ms) ++ rest =
      .string name :: .colon :: (v.tokens ++ (moreMemberTokens ms ++ rest)) := by
  rw [memberTokens, List.cons_append, List.cons_append, List.append_assoc]

theorem moreMemberTokens_cons_append :
    moreMemberTokens ((name, v) :: ms) ++ rest =
      .comma :: .string name :: .colon :: (v.tokens ++ (moreMemberTokens ms ++ rest)) := by
  rw [moreMemberTokens, List.cons_append, List.cons_append, List.cons_append, List.append_assoc]

end Append

theorem Value.tokens_ne_nil (v : Value) : v.tokens ≠ [] := by
  cases v with
  | _ => exact List.cons_ne_nil _ _

theorem Value.tokens_append_ne_closeBracket (v : Value) (rest ts : List Token) :
    v.tokens ++ rest ≠ .closeBracket :: ts := by
  cases v with
  | _ => exact nofun

/-! ## Sound tokens -/

/-- Whether a token is whole. -/
def Token.IsSound : Token → Prop
  | .brokenWord _ | .brokenNumber _ | .brokenString _ _ | .stray => False
  | _ => True

/-- No number stands at the front. -/
def NoNumber (ts : List Token) : Prop :=
  ∀ n, ts.head? ≠ some (.number n)

/-- All tokens are whole, and no number stands right behind another. -/
def Sound : List Token → Prop
  | [] => True
  | t :: ts => t.IsSound ∧ ((∃ n, t = .number n) → NoNumber ts) ∧ Sound ts

theorem sound_cons {t : Token} {ts : List Token} (h : t.IsSound) (hnumber : ∀ n, t ≠ .number n)
    (hts : Sound ts) : Sound (t :: ts) :=
  ⟨h, fun ⟨n, hn⟩ => absurd hn (hnumber n), hts⟩

theorem Sound.isSound {ts : List Token} (h : Sound ts) : ∀ t ∈ ts, t.IsSound := by
  induction ts with
  | nil => simp
  | cons t ts ih =>
      obtain ⟨ht, -, hts⟩ := h
      exact List.forall_mem_cons.2 ⟨ht, ih hts⟩

theorem noNumber_moreElementTokens_append (vs : List Value) (rest : List Token) :
    NoNumber (moreElementTokens vs ++ rest) := by
  intro n
  cases vs <;> simp [moreElementTokens]

theorem noNumber_moreMemberTokens_append (ms : List Member) (rest : List Token) :
    NoNumber (moreMemberTokens ms ++ rest) := by
  intro n
  cases ms <;> simp [moreMemberTokens]

mutual

/-- The tokens of a value are sound, whatever may stand behind a value. -/
theorem Value.sound_tokens_append {rest : List Token} (hhead : NoNumber rest) (hrest : Sound rest) :
    ∀ v : Value, Sound (v.tokens ++ rest)
  | .null => sound_cons trivial nofun hrest
  | .bool _ => sound_cons trivial nofun hrest
  | .number _ => ⟨trivial, fun _ => hhead, hrest⟩
  | .string _ => sound_cons trivial nofun hrest
  | .array vs => sound_cons trivial nofun (sound_elementTokens_append hrest vs)
  | .object ms => sound_cons trivial nofun (sound_memberTokens_append hrest ms)

theorem sound_elementTokens_append {rest : List Token} (hrest : Sound rest) :
    ∀ vs : List Value, Sound (elementTokens vs ++ rest)
  | [] => sound_cons trivial nofun hrest
  | v :: vs => by
      have hmore := sound_moreElementTokens_append hrest vs
      rw [elementTokens_cons_append]
      exact v.sound_tokens_append (noNumber_moreElementTokens_append vs rest) hmore

theorem sound_moreElementTokens_append {rest : List Token} (hrest : Sound rest) :
    ∀ vs : List Value, Sound (moreElementTokens vs ++ rest)
  | [] => sound_cons trivial nofun hrest
  | v :: vs => by
      have hmore := sound_moreElementTokens_append hrest vs
      have hv := v.sound_tokens_append (noNumber_moreElementTokens_append vs rest) hmore
      rw [moreElementTokens_cons_append]
      exact sound_cons trivial nofun hv

theorem sound_memberTokens_append {rest : List Token} (hrest : Sound rest) :
    ∀ ms : List (List StringPart × Value), Sound (memberTokens ms ++ rest)
  | [] => sound_cons trivial nofun hrest
  | (name, v) :: ms => by
      have hmore := sound_moreMemberTokens_append hrest ms
      have hv := v.sound_tokens_append (noNumber_moreMemberTokens_append ms rest) hmore
      rw [memberTokens_cons_append]
      exact sound_cons trivial nofun (sound_cons trivial nofun hv)

theorem sound_moreMemberTokens_append {rest : List Token} (hrest : Sound rest) :
    ∀ ms : List (List StringPart × Value), Sound (moreMemberTokens ms ++ rest)
  | [] => sound_cons trivial nofun hrest
  | (name, v) :: ms => by
      have hmore := sound_moreMemberTokens_append hrest ms
      have hv := v.sound_tokens_append (noNumber_moreMemberTokens_append ms rest) hmore
      rw [moreMemberTokens_cons_append]
      exact sound_cons trivial nofun (sound_cons trivial nofun (sound_cons trivial nofun hv))

end

theorem Value.sound_tokens (v : Value) : Sound v.tokens := by
  have hnil : NoNumber [] := nofun
  have h := v.sound_tokens_append hnil trivial
  rwa [List.append_nil] at h

end DigitiserSums.Json
