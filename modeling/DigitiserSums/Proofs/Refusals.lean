import DigitiserSums.Proofs.Description
import DigitiserSums.Proofs.Json.SteadyReaders

/-!
# Refused descriptions

A description is read in one pass, and the first thing that is wrong with it decides. Each reader of
a description keeps its answer when the text goes on, from the scalars up to the session; and so a
text that is refused for what it says is refused for the same whatever follows it.
-/

namespace DigitiserSums

namespace Json

open Decimal

/-- What a cut leaves of a natural number is one too, and is no larger. -/
theorem natural_of_begins {m n : Numeral} {a b : List Char} (hm : SpellsNumeral m a)
    (hn : SpellsNumeral n (a ++ b)) (hsign : n.isNegative = false) (hfraction : n.fraction = [])
    (hexponent : n.exponent = none) :
    m.isNegative = false ∧ m.fraction = [] ∧ m.exponent = none ∧
      value m.whole ≤ value n.whole := by
  obtain ⟨hwhole, exponent, hexponent', hspells⟩ := hn
  rw [hexponent] at hexponent'
  cases hexponent'
  rw [hsign, hfraction] at hspells
  simp only [Bool.false_eq_true, if_false, List.nil_append, fractionText, List.append_nil]
    at hspells
  obtain ⟨digits, rest, hdigits, rfl, rfl⟩ := List.append_eq_map_iff.1 hspells
  have hne : digits ≠ [] := by
    obtain ⟨c, cs, hcs, -⟩ := hm.head
    intro heq
    subst heq
    cases hcs
  have hshort : IsWhole digits := by
    cases digits with
    | nil => exact hne rfl
    | cons d digits =>
        rw [hdigits] at hwhole
        intro hd
        exact (List.append_eq_nil_iff.1 (hwhole hd)).1
  -- The digits that are left spell one number only.
  have hspelled : SpellsNumeral ⟨false, digits, [], none⟩ (digits.map digitChar) :=
    ⟨hshort, [], rfl, by simp [fractionText]⟩
  have hstop : Stops [] := by
    intro c hc
    cases hc
  have hsame := (scanNumeral_complete hspelled hstop).symm.trans (scanNumeral_complete hm hstop)
  cases hsame
  refine ⟨rfl, rfl, rfl, ?_⟩
  rw [hdigits, value, value, List.foldl_append]
  exact le_extend _ rest

end Json

namespace Description

open Json Reader

variable {badName : BadName}

/-! ## Scalars -/

theorem takesOne_natural (limit : Nat) (wanted : String) : TakesOne (natural limit wanted) := by
  apply (takesScalar_number wanted).takesOne.bind
  intro value ts
  cases value with
  | float x => rfl
  | integer n =>
      simp only
      split <;> rfl

theorem steady_natural {limit : Nat} (hlimit : limit ≤ UInt64.size) (wanted : String) :
    (natural limit wanted).Steady := by
  apply (takesOne_natural limit wanted).steady
  · intro t t' h
    rcases (takesScalar_number wanted).becomes h with hended | ⟨fault, hread, hread'⟩
    · exact .inl (bind_apply_of_error hended _)
    · exact .inr ⟨fault, bind_apply_of_error hread _, bind_apply_of_error hread' _⟩
  · intro n x p hx hread
    cases hx with
    | broken => exact .inl rfl
    | @number m a b hm hn =>
        obtain ⟨k, rest⟩ := p
        obtain ⟨_, hus, v, rfl, numeral, rfl, hsign, hfraction, hexponent, hvalue, hlt⟩ :=
          (reads_natural hlimit wanted _ k rest).1 hread
        cases hus
        obtain ⟨hsign', hfraction', hexponent', hle⟩ :=
          natural_of_begins hm hn hsign hfraction hexponent
        have hread' := (reads_natural hlimit wanted [.number m] (Decimal.value m.whole) []).2
          ⟨_, rfl, .number m, rfl, m, rfl, hsign', hfraction', hexponent', rfl, by omega⟩
        exact .inr (.inr ⟨m, _, rfl, hread'⟩)

theorem steady_size : size.Steady :=
  steady_natural (Nat.le_refl _) "usize"

theorem steady_byte : byte.Steady :=
  (steady_natural (by decide) "u8").map UInt8.ofNat

theorem steady_threshold : threshold.Steady :=
  (steady_number "f32").map Number.toSingle

theorem steady_foldPolicy : (foldPolicy badName).Steady :=
  steady_unitVariant badName _

theorem steady_edgeKind : (edgeKind badName).Steady :=
  steady_unitVariant badName _

/-! ## Aggregation -/

namespace SizeForm

variable (form : SizeForm)

theorem steady_member (found : Option Nat) (name : String) : (form.member found name).Steady := by
  unfold member
  split
  · exact (steady_freshMember steady_size form.field found).map some
  · exact (steady_skip.bind (fun _ => steady_pure found) fun _ => patient_pure found).behind
      .colon trivial

theorem steady_ofArray : form.ofArray.Steady := by
  intro ts
  apply (steady_firstElement steady_size rfl ts).bind
  · intro found rest _
    cases found with
    | none => exact steady_refuse _ rest
    | some n => exact (steady_pure (form.make n)).behind .closeBracket trivial rest
  · intro m found hread
    cases found with
    | none => exact absurd hread firstElement_ne_none
    | some n => exact .inl rfl

theorem steady_ofObject : form.ofObject.Steady :=
  (steady_members form.steady_member none).bind_of_endsWithoutNumber
    (fun found => (steady_required form.field found).map form.make)
    (endsWithoutNumber_members form.readsMember none)

theorem steady_content : form.content.Steady := by
  rw [content_eq_enclosed]
  exact steady_enclosed form.steady_ofArray form.steady_ofObject form.title

end SizeForm

theorem steady_aggregation : (aggregation badName).Steady := by
  apply (steady_variant badName sizeForms).bind_of_endsWithoutNumber _
    (endsWithoutNumber_variant badName sizeForms)
  intro p
  obtain ⟨form, hasContent⟩ := p
  cases hasContent with
  | false => exact steady_refuse _
  | true =>
      have hclose (a : Aggregation) := (steady_pure a).behind .closeBrace trivial
      exact (form.steady_content.bind hclose fun _ => .inl rfl).behind .colon trivial

/-! ## Records -/

/-- A record in an array, with its other fields left off at the end. -/
theorem steady_record {α β γ δ σ : Type} {r₁ : Reader α} {r₂ : Reader β} {r₃ : Reader γ}
    {r₄ : Reader δ} (h₁ : r₁.Steady) (hnil : r₁ [] = .error .ended) (h₂ : r₂.Steady)
    (h₃ : r₃.Steady) (h₄ : r₄.Steady)
    (make : Option α → Option β → Option γ → Option δ → σ) (tooShort : Mismatch) :
    Steady
      (do
        let a ← firstElement r₁
        if a.isNone then
          refuse tooShort
        let b ← nextElement r₂
        let c ← nextElement r₃
        let d ← nextElement r₄
        punctuation .closeBracket
        return make a b c d) := by
  intro ts
  have hmore (a : Option α) : Steady (do
      let b ← nextElement r₂
      let c ← nextElement r₃
      let d ← nextElement r₄
      punctuation .closeBracket
      return make a b c d) := by
    have hclose (b : Option β) (c : Option γ) (d : Option δ) :=
      (steady_pure (make a b c d)).behind .closeBracket trivial
    have hlast (b : Option β) (c : Option γ) :=
      (steady_nextElement h₄).bind (hclose b c) fun _ => .inl rfl
    have hthird (b : Option β) := (steady_nextElement h₃).bind (hlast b) fun _ => .inl rfl
    exact (steady_nextElement h₂).bind hthird fun _ => .inl rfl
  apply (steady_firstElement h₁ hnil ts).bind
  · intro a rest _
    cases a with
    | none => exact steady_refuse tooShort rest
    | some a => exact hmore (some a) rest
  · intro m a hread
    cases a with
    | none => exact absurd hread firstElement_ne_none
    | some a => exact .inl rfl

/-! ## Edge trigger -/

namespace EdgeMembers

theorem steady_member (m : EdgeMembers) (name : String) : (m.member badName name).Steady := by
  unfold member
  split
  · exact (steady_freshMember steady_threshold _ _).bind_pure _
  · exact (steady_freshMember steady_edgeKind _ _).bind_pure _
  · exact (steady_freshMember steady_byte _ _).bind_pure _
  · exact (steady_freshMember steady_byte _ _).bind_pure _
  · exact steady_refuse _

theorem steady_settings (m : EdgeMembers) : m.settings.Steady :=
  (steady_required "threshold" m.threshold).bind_pure _

theorem steady_ofArray : (ofArray badName).Steady :=
  steady_record steady_threshold rfl steady_edgeKind steady_byte steady_byte EdgeMembers.mk _

end EdgeMembers

theorem steady_edgeSettings : (edgeSettings badName).Steady := by
  rw [edgeSettings_eq_enclosed]
  apply steady_enclosed
  · exact EdgeMembers.steady_ofArray.bind_of_endsWithoutNumber EdgeMembers.steady_settings
      (endsWithoutNumber_elements EdgeMembers.takesElements_ofArray)
  · exact (steady_members EdgeMembers.steady_member {}).bind_of_endsWithoutNumber
      EdgeMembers.steady_settings (endsWithoutNumber_members EdgeMembers.readsMember {})

theorem optionalEdge_eq_ifNext : optionalEdge badName =
    ifNext .null (punctuation .null >>= fun _ => pure none) (some <$> edgeSettings badName) := by
  funext ts
  cases ts with
  | nil => rfl
  | cons t ts => cases t <;> rfl

/-- A broken word may become a `null`, and until then the edge trigger is waited for. -/
theorem steady_optionalEdge : (optionalEdge badName).Steady := by
  intro ts
  have hsound : Token.null.IsSound := trivial
  have hnumber (n : Numeral) : Token.number n ≠ .null := nofun
  rw [optionalEdge_eq_ifNext]
  refine SteadyAt.ifNext hsound hnumber ?_ rfl ?_ fun _ => steady_edgeSettings.map some ts
  · intro t h
    cases h
    rfl
  · intro hhead
    obtain ⟨ts, rfl⟩ := List.head?_eq_some_iff.1 hhead
    exact (steadyAt_punctuation_self hsound ts).bind (fun _ rest _ => steady_pure none rest)
      fun _ _ _ => patient_pure none

/-! ## Session -/

namespace SessionMembers

theorem steady_member (m : SessionMembers) (name : String) : (m.member badName name).Steady := by
  unfold member
  split
  · exact (steady_freshMember steady_aggregation _ _).bind_pure _
  · exact (steady_freshMember steady_bool _ _).bind_pure _
  · exact (steady_freshMember steady_foldPolicy _ _).bind_pure _
  · exact (steady_freshMember steady_optionalEdge _ _).bind_pure _
  · exact steady_refuse _

theorem steady_config (m : SessionMembers) : m.config.Steady :=
  (steady_required "aggregation" m.aggregation).bind_pure _

theorem steady_ofArray : (ofArray badName).Steady :=
  steady_record steady_aggregation rfl steady_bool steady_foldPolicy steady_optionalEdge
    SessionMembers.mk _

end SessionMembers

theorem steady_session : (session badName).Steady := by
  rw [session_eq_enclosed]
  apply steady_enclosed
  · exact SessionMembers.steady_ofArray.bind_of_endsWithoutNumber SessionMembers.steady_config
      (endsWithoutNumber_elements SessionMembers.takesElements_ofArray)
  · exact (steady_members SessionMembers.steady_member {}).bind_of_endsWithoutNumber
      SessionMembers.steady_config (endsWithoutNumber_members SessionMembers.readsMember {})

/-- A text that is refused for what it says is refused for the same whatever follows behind a
space; only a text that ends too early may be mended. -/
theorem ofText_append_space (badName : BadName) (text more : String) {fault : Fault}
    (h : ofText badName text = .error fault) (hfault : fault ≠ .ended) :
    ofText badName (text ++ " " ++ more) = .error fault := by
  rw [String.append_assoc]
  apply readAll_append_of_error steady_session h hfault
  exact ⟨' ', more.toList, by rw [String.toList_append]; rfl, rfl⟩

/-- A number in the place of a name stays one, whatever it is taken for. -/
theorem ofText_append_space_of_bad_name :
    let text := "\x7b\"aggregation\":\x7b5"
    let fault : Fault := .refused (.wrongType (.number (.integer 5)) "variant identifier")
    ofText .mistyped text = .error fault ∧ fault ≠ .ended ∧
      ofText .mistyped (text ++ " " ++ ":1\x7d\x7d") = .error fault ∧
      ofText .misplaced text = .error .malformed ∧
      ofText .misplaced (text ++ " " ++ ":1\x7d\x7d") = .error .malformed := by
  intro text fault
  have hmistyped : ofText .mistyped text = .error fault := by decide +kernel
  have hmisplaced : ofText .misplaced text = .error .malformed := by decide +kernel
  exact ⟨hmistyped, nofun, ofText_append_space .mistyped text _ hmistyped nofun, hmisplaced,
    ofText_append_space .misplaced text _ hmisplaced nofun⟩

end Description

end DigitiserSums
