import DigitiserSums.Proofs.Refusals

/-!
# Descriptions that are cut short or run on

A text that is accepted as a description of a session is the beginning of no other, spaces apart.
What is left of it by a cut asks for more, and the whole text takes nothing behind it.
-/

namespace DigitiserSums

namespace Description

open Json Reader

variable {badName : BadName} {text : String} {c : SessionConfig}

/-! ## Texts that run on -/

/-- The value of a session is an array or an object, and so it ends with a bracket or a brace. -/
theorem IsSession.getLast?_ne_number {v : Value} (h : IsSession v c) (n : Numeral) :
    v.tokens.getLast? ≠ some (.number n) := by
  obtain ⟨place, hplace, -⟩ := h
  cases hplace with
  | @members ms _ =>
      rw [Value.tokens, ← List.singleton_append, List.getLast?_append, getLast?_memberTokens]
      simp
  | @elements vs _ =>
      rw [Value.tokens, ← List.singleton_append, List.getLast?_append, getLast?_elementTokens]
      simp

theorem exists_tokens_of_ofText (h : ofText badName text = .ok c) :
    ∃ v : Value, Json.tokens text.toList = v.tokens ∧ IsSession v c := by
  obtain ⟨v, hlayout, hv⟩ := (readAll_eq_ok_iff reads_session text c).1 h
  exact ⟨v, (tokens_eq_iff v _).2 hlayout, hv⟩

/-- Behind an accepted text only spaces may stand. -/
theorem ofText_append (h : ofText badName text = .ok c) (more : String) :
    ofText badName (text ++ more) =
      if Json.tokens more.toList = [] then .ok c else .error .malformed := by
  obtain ⟨v, htokens, hv⟩ := exists_tokens_of_ofText h
  have hall : Json.tokens (text ++ more).toList = v.tokens ++ Json.tokens more.toList := by
    rw [String.toList_append, ← htokens]
    apply tokens_append
    · rw [htokens]
      exact v.sound_tokens.isSound
    · intro n hn
      rw [htokens] at hn
      exact absurd hn (hv.getLast?_ne_number n)
  have hread : session badName (v.tokens ++ Json.tokens more.toList) =
      .ok (c, Json.tokens more.toList) :=
    (reads_session _ c _).2 ⟨v.tokens, rfl, v, rfl, hv⟩
  rw [ofText, readAll, hall, hread]
  cases Json.tokens more.toList <;> rfl

/-! ## Texts that are cut -/

/-- What is left of an accepted text is not accepted, if more than spaces was cut off. -/
theorem ofText_ne_ok_of_cut {front back : String} (h : ofText badName (front ++ back) = .ok c)
    (hback : Json.tokens back.toList ≠ []) (c' : SessionConfig) :
    ofText badName front ≠ .ok c' := by
  intro hfront
  rw [ofText_append hfront back, if_neg hback] at h
  cases h

theorem ofText_of_cut {front back : String} (h : ofText badName (front ++ back) = .ok c)
    (hback : Json.tokens back.toList ≠ []) :
    ofText badName front = .error .ended ∨
      ofText badName front = .error .malformed ∧ CutsNumber front.toList back.toList := by
  obtain ⟨v, htokens, hv⟩ := exists_tokens_of_ofText h
  have hread : session badName (Json.tokens (front ++ back).toList) = .ok (c, []) :=
    (reads_session _ c []).2 ⟨v.tokens, by rw [htokens, List.append_nil], v, rfl, hv⟩
  have hsound : Sound (Json.tokens (front ++ back).toList) := htokens ▸ v.sound_tokens
  rw [String.toList_append] at hread hsound
  rcases steady_session.cut hsound hread with hended | ⟨hmalformed, hcut⟩ | ⟨c', hok⟩
  · left
    rw [ofText, readAll, hended]
  · right
    rw [ofText, readAll, hmalformed]
    exact ⟨rfl, hcut⟩
  · have hfront : ofText badName front = .ok c' := by rw [ofText, readAll, hok]
    exact absurd hfront (ofText_ne_ok_of_cut h hback c')

/-- Let a text be accepted, with no space at its end. If it is cut anywhere, what is left asks for
more, or is malformed by a cut inside a number. With spaces behind it the text describes the same,
and with anything else behind the spaces it is malformed. -/
theorem ofText_cut_or_append (h : ofText badName text = .ok c)
    (hlast : ∀ d ∈ text.toList.getLast?, isSpace d = false) :
    (∀ front back : String, text = front ++ back → back ≠ "" →
      ofText badName front = .error .ended ∨
        ofText badName front = .error .malformed ∧ CutsNumber front.toList back.toList) ∧
    (∀ spaces : String, (∀ d ∈ spaces.toList, isSpace d = true) →
      ofText badName (text ++ spaces) = .ok c) ∧
    ∀ (spaces : String) (d : Char) (more : String), (∀ e ∈ spaces.toList, isSpace e = true) →
      isSpace d = false → ofText badName (text ++ spaces ++ String.singleton d ++ more) =
        .error .malformed := by
  refine ⟨fun front back htext hback => ?_, fun spaces hspaces => ?_,
    fun spaces d more hspaces hd => ?_⟩
  · subst htext
    apply ofText_of_cut h
    have hne : back.toList ≠ [] := fun heq => hback (String.toList_eq_nil_iff.1 heq)
    have hend := List.getLast?_eq_some_getLast hne
    refine tokens_ne_nil_of_mem (List.getLast_mem hne) (hlast _ ?_)
    rw [String.toList_append, List.getLast?_append, hend]
    rfl
  · have htokens := tokens_append_of_isSpace hspaces []
    rw [List.append_nil, tokens_nil] at htokens
    rw [ofText_append h, if_pos htokens]
  · rw [String.append_assoc, String.append_assoc, ofText_append h, if_neg]
    rw [String.toList_append, tokens_append_of_isSpace hspaces, String.toList_append,
      String.toList_singleton]
    exact tokens_ne_nil_of_mem List.mem_cons_self hd

theorem ofText_cut_or_append_of_fraction :
    let front := "[\x7b\"downsample\":\x7b\"scale\":1."
    let back := "5,\"downsample-num\":4\x7d\x7d]"
    let c : SessionConfig := { aggregation := .downsample 4 }
    ofText .mistyped (front ++ back) = .ok c ∧
      (∀ d ∈ (front ++ back).toList.getLast?, isSpace d = false) ∧
      (ofText .mistyped front = .error .malformed ∧ CutsNumber front.toList back.toList) ∧
      ofText .mistyped (front ++ back ++ "\n") = .ok c ∧
      ofText .mistyped (front ++ back ++ "\n" ++ String.singleton ',' ++ "") =
        .error .malformed := by
  intro front back c
  have hok : ofText .mistyped (front ++ back) = .ok c := by decide +kernel
  have hend : (front ++ back).toList.getLast? = some ']' := by decide +kernel
  have hlast : ∀ d ∈ (front ++ back).toList.getLast?, isSpace d = false := by
    intro d hd
    rw [hend] at hd
    cases hd
    rfl
  obtain ⟨hcut, hspaces, hmore⟩ := ofText_cut_or_append hok hlast
  have hnewline : ∀ d ∈ "\n".toList, isSpace d = true := by simp [isSpace]
  have hback : back ≠ "" := by decide +kernel
  have hnot : ofText .mistyped front ≠ .error .ended := by decide +kernel
  exact ⟨hok, hlast, (hcut front back rfl hback).resolve_left hnot, hspaces "\n" hnewline,
    hmore "\n" ',' "" hnewline rfl⟩

end Description

end DigitiserSums
