import DigitiserSums.Proofs.Json.Layout
import DigitiserSums.Proofs.Success

/-!
# Scanners when the text goes on

What a scanner made of the beginning of a text, it mostly makes of the whole text. What was whole
stays whole, with more text behind it; what broke before the beginning ended breaks there again; and
what the end of the beginning broke off may come out in any way. A number is the only thing that may
be whole and still go on: there the character after it decides.
-/

namespace DigitiserSums

namespace Json

open Decimal

variable {α β : Type} (more : List Char)

/-! ## Words -/

theorem afterLetters_append_of_ok {letters cs rest : List Char}
    (h : afterLetters letters cs = .ok rest) :
    afterLetters letters (cs ++ more) = .ok (rest ++ more) := by
  rw [afterLetters_eq_ok_iff] at h ⊢
  rw [h, List.append_assoc]

theorem afterLetters_append_of_malformed {letters cs : List Char}
    (h : afterLetters letters cs = .error .malformed) :
    afterLetters letters (cs ++ more) = .error .malformed := by
  induction letters generalizing cs with
  | nil => cases h
  | cons l letters ih =>
      cases cs with
      | nil => cases h
      | cons c cs =>
          simp only [List.cons_append, afterLetters] at h ⊢
          split
          · next hc =>
              rw [if_pos hc] at h
              exact ih h
          · rfl

/-! ## Strings -/

theorem utf8Size_of_hexDigit? {c : Char} (h : (hexDigit? c).isSome) : c.utf8Size = 1 := by
  have hle : c ≤ 'f' := by
    unfold hexDigit? at h
    split at h
    · next hc => exact Char.le_trans hc.2 (by decide)
    · split at h
      · next hc => exact hc.2
      · split at h
        · next hc => exact Char.le_trans hc.2 (by decide)
        · cases h
  exact Char.utf8Size_eq_one_iff.2 (Nat.le_trans hle (by decide))

theorem utf8ByteSize_of_hexDigits {cs : List Char} (h : ∀ c ∈ cs, (hexDigit? c).isSome) :
    (String.ofList cs).utf8ByteSize = cs.length := by
  induction cs with
  | nil => rfl
  | cons c cs ih =>
      rw [List.forall_mem_cons] at h
      rw [String.ofList_cons, String.utf8ByteSize_append, String.utf8ByteSize_singleton,
        utf8Size_of_hexDigit? h.1, ih h.2, List.length_cons, Nat.add_comm]

theorem isSome_hexDigit?_of_unit? {a b c d : Char} {u : UInt16} (h : unit? a b c d = some u) :
    ∀ x ∈ [a, b, c, d], (hexDigit? x).isSome := by
  unfold unit? at h
  obtain ⟨_, ha, h⟩ := Option.bind_eq_some_iff.1 h
  obtain ⟨_, hb, h⟩ := Option.bind_eq_some_iff.1 h
  obtain ⟨_, hc, h⟩ := Option.bind_eq_some_iff.1 h
  obtain ⟨_, hd, -⟩ := Option.bind_eq_some_iff.1 h
  simp [ha, hb, hc, hd]

theorem scanUnit_append_of_ok {cs rest : List Char} {part : StringPart}
    (h : scanUnit cs = .ok (part, rest)) : scanUnit (cs ++ more) = .ok (part, rest ++ more) := by
  obtain ⟨a, b, c, d, u, hu, rfl, rfl⟩ := scanUnit_sound h
  simp only [List.cons_append, scanUnit, hu]

/-- The text ends within a unit if it has too few bytes for one. -/
theorem scanUnit_eq_ended_iff {cs : List Char} :
    scanUnit cs = .error .ended ↔ cs.length < 4 ∧ (String.ofList cs).utf8ByteSize < 4 := by
  match cs with
  | [] | [_] | [_, _] | [_, _, _] => simp [scanUnit]
  | a :: b :: c :: d :: cs =>
      simp only [scanUnit, List.length_cons]
      constructor
      · split <;> exact nofun
      · omega

theorem scanUnit_append_of_malformed {cs : List Char} (h : scanUnit cs = .error .malformed) :
    scanUnit (cs ++ more) = .error .malformed := by
  have hended : ¬ (cs.length < 4 ∧ (String.ofList cs).utf8ByteSize < 4) := by
    rw [← scanUnit_eq_ended_iff, h]
    exact nofun
  cases hscan : scanUnit (cs ++ more) with
  | error how =>
      cases how with
      | malformed => rfl
      | ended =>
          rw [scanUnit_eq_ended_iff, List.length_append, String.ofList_append,
            String.utf8ByteSize_append] at hscan
          omega
  | ok scanned =>
      obtain ⟨a, b, c, d, u, hu, -, hcs⟩ := scanUnit_sound hscan
      rcases List.append_eq_append_iff.1 (show cs ++ more = [a, b, c, d] ++ scanned.2 from hcs) with
        ⟨back, hback, -⟩ | ⟨rest, rfl, -⟩
      · -- All of the text is hexadecimal, and so it would have ended within the unit.
        have hhex : ∀ x ∈ cs, (hexDigit? x).isSome := by
          intro x hx
          exact isSome_hexDigit?_of_unit? hu x (hback ▸ List.mem_append_left back hx)
        have hlength := congrArg List.length hback
        rw [utf8ByteSize_of_hexDigits hhex] at hended
        cases back with
        | nil =>
            rw [List.append_nil] at hback
            rw [← hback] at h
            simp only [scanUnit, hu] at h
            cases h
        | cons c back =>
            simp only [List.length_append, List.length_cons, List.length_nil] at hlength
            omega
      · simp only [List.cons_append, List.nil_append, scanUnit, hu] at h
        cases h

theorem scanEscape_append_of_ok {cs rest : List Char} {part : StringPart}
    (h : scanEscape cs = .ok (part, rest)) :
    scanEscape (cs ++ more) = .ok (part, rest ++ more) := by
  unfold scanEscape at h
  split at h
  · cases h
  · exact scanUnit_append_of_ok more h
  · next c cs hu =>
      split at h
      · next hc =>
          cases h
          simp only [List.cons_append, scanEscape, hc]
      · cases h

theorem scanEscape_append_of_malformed {cs : List Char} (h : scanEscape cs = .error .malformed) :
    scanEscape (cs ++ more) = .error .malformed := by
  unfold scanEscape at h
  split at h
  · cases h
  · exact scanUnit_append_of_malformed more h
  · next c cs hu =>
      split at h
      · cases h
      · next hc => simp only [List.cons_append, scanEscape, hc]

theorem scanPart_append_of_ok {cs rest : List Char} {part : Option StringPart}
    (h : scanPart cs = .ok (part, rest)) :
    scanPart (cs ++ more) = .ok (part, rest ++ more) := by
  unfold scanPart at h
  split at h
  · cases h
  · cases h
    rfl
  · obtain ⟨⟨part, rest⟩, hescape, heq⟩ := exists_of_map_eq_ok h
    cases heq
    simp only [List.cons_append, scanPart, scanEscape_append_of_ok more hescape]
    rfl
  · next c cs hquote hslash =>
      split at h
      · cases h
      · next hcontrol =>
          cases h
          exact scanPart_complete _ (.plain (Nat.not_lt.1 hcontrol) hquote hslash)

theorem scanPart_append_of_malformed {cs : List Char} (h : scanPart cs = .error .malformed) :
    scanPart (cs ++ more) = .error .malformed := by
  unfold scanPart at h
  split at h
  · cases h
  · cases h
  · have hescape := scanEscape_append_of_malformed more (map_eq_error_iff.1 h)
    simp only [List.cons_append, scanPart, hescape]
    rfl
  · next c cs hquote hslash =>
      split at h
      · next hcontrol => simp only [List.cons_append, scanPart, if_pos hcontrol]
      · cases h

theorem scanString_append_of_ok {cs rest : List Char} (h : (scanString cs).2 = .ok rest) :
    scanString (cs ++ more) = ((scanString cs).1, .ok (rest ++ more)) := by
  obtain ⟨front, hparts, hcs⟩ := scanString_sound h
  rw [hcs, List.append_assoc, List.cons_append]
  rw [hcs] at hparts
  exact scanString_complete _ hparts

/-- The parts found before a string breaks are found again, and a string that broke before the end
of the text breaks there again. -/
theorem scanString_append_of_error {cs : List Char} {how : Break}
    (h : (scanString cs).2 = .error how) :
    ∃ parts outcome, scanString (cs ++ more) = ((scanString cs).1 ++ parts, outcome) ∧
      (how = .malformed → parts = [] ∧ outcome = .error .malformed) := by
  fun_induction scanString cs with
  | case1 cs how' hscan =>
      cases h
      refine ⟨_, _, rfl, ?_⟩
      intro hhow
      subst hhow
      have hmore := scanPart_append_of_malformed more hscan
      rw [scanString]
      split
      · next hscan' =>
          rw [hmore] at hscan'
          cases hscan'
          exact ⟨rfl, rfl⟩
      · next hscan' =>
          rw [hmore] at hscan'
          cases hscan'
      · next hscan' =>
          rw [hmore] at hscan'
          cases hscan'
  | case2 cs rest hscan => cases h
  | case3 cs part rest hscan hlength parts outcome hrest ih =>
      rw [hrest] at ih
      obtain ⟨parts', outcome', hmore, hhow⟩ := ih h
      refine ⟨parts', outcome', ?_, hhow⟩
      have hpart := scanPart_append_of_ok more hscan
      rw [scanString]
      split
      · next hscan' =>
          rw [hpart] at hscan'
          cases hscan'
      · next hscan' =>
          rw [hpart] at hscan'
          cases hscan'
      · next hscan' =>
          rw [hpart] at hscan'
          cases hscan'
          rw [hmore]
          rfl

/-! ## Numbers -/

variable {more}

/-- The text starts with a space. -/
def StartsWithSpace (cs : List Char) : Prop :=
  ∃ c rest, cs = c :: rest ∧ isSpace c = true

theorem StartsWithSpace.stops (h : StartsWithSpace more) : Stops more := by
  obtain ⟨c, rest, rfl, hc⟩ := h
  simp only [isSpace, Bool.or_eq_true, decide_eq_true_eq] at hc
  intro c' hc'
  cases hc'
  rcases hc with ((rfl | rfl) | rfl) | rfl <;> decide

theorem StartsWithSpace.noDigit (h : StartsWithSpace more) : NoDigit more :=
  fun c hc => (h.stops c hc).1

theorem StartsWithSpace.ne_nil (h : StartsWithSpace more) : more ≠ [] := by
  obtain ⟨c, rest, rfl, -⟩ := h
  exact List.cons_ne_nil c rest

/-- A scanner of a part of a number decides by the character after the part. -/
structure DecidesByNext (scan : List Char → Except Break (α × List Char)) : Prop where
  length_le {cs rest : List Char} {a : α} : scan cs = .ok (a, rest) → rest.length ≤ cs.length
  ok {cs rest more : List Char} {a : α} : scan cs = .ok (a, rest) →
    rest ≠ [] ∨ StartsWithSpace more → scan (cs ++ more) = .ok (a, rest ++ more)
  malformed {cs more : List Char} : scan cs = .error .malformed →
    scan (cs ++ more) = .error .malformed
  ended {cs more : List Char} : scan cs = .error .ended → StartsWithSpace more →
    scan (cs ++ more) = .error .malformed

namespace DecidesByNext

variable {scan : List Char → Except Break (α × List Char)}

theorem rest_eq_nil (h : DecidesByNext scan) {a : α} {rest : List Char}
    (hscan : scan [] = .ok (a, rest)) : rest = [] :=
  List.length_eq_zero_iff.1 (Nat.le_zero.1 (h.length_le hscan))

theorem pure (a : α) : DecidesByNext fun cs => .ok (a, cs) where
  length_le h := by
    cases h
    exact Nat.le_refl _
  ok h _ := by
    cases h
    rfl
  malformed h := by cases h
  ended h := by cases h

theorem map (h : DecidesByNext scan) (f : α → β) :
    DecidesByNext fun cs => (scan cs).map fun (a, rest) => (f a, rest) where
  length_le hscan := by
    obtain ⟨p, hfirst, heq⟩ := exists_of_map_eq_ok hscan
    cases heq
    exact h.length_le hfirst
  ok hscan hmore := by
    obtain ⟨p, hfirst, heq⟩ := exists_of_map_eq_ok hscan
    cases heq
    rw [h.ok hfirst hmore]
    rfl
  malformed hscan := by
    rw [h.malformed (map_eq_error_iff.1 hscan)]
    rfl
  ended hscan hmore := by
    rw [h.ended (map_eq_error_iff.1 hscan) hmore]
    rfl

/-- A part may follow another, if it breaks at the end of a text only by ending with it. -/
theorem bind {next : α → List Char → Except Break (β × List Char)} (h : DecidesByNext scan)
    (hnext : ∀ a, DecidesByNext (next a)) (hnil : ∀ a, next a [] ≠ .error .malformed) :
    DecidesByNext fun cs => scan cs >>= fun p => next p.1 p.2 where
  length_le hscan := by
    obtain ⟨⟨a, mid⟩, hfirst, hsecond⟩ := bind_eq_ok_iff.1 hscan
    exact Nat.le_trans ((hnext a).length_le hsecond) (h.length_le hfirst)
  ok {cs rest more b} hscan hmore := by
    obtain ⟨⟨a, mid⟩, hfirst, hsecond⟩ := bind_eq_ok_iff.1 hscan
    have hmid : mid ≠ [] ∨ StartsWithSpace more := by
      refine hmore.imp_left fun hrest heq => hrest ?_
      subst heq
      exact (hnext a).rest_eq_nil hsecond
    exact bind_eq_ok_iff.2 ⟨_, h.ok hfirst hmid, (hnext a).ok hsecond hmore⟩
  malformed {cs more} hscan := by
    rcases bind_eq_error_iff.1 hscan with hfirst | ⟨⟨a, mid⟩, hfirst, hsecond⟩
    · exact bind_eq_error_iff.2 (.inl (h.malformed hfirst))
    · have hmid : mid ≠ [] := by
        intro heq
        subst heq
        exact hnil a hsecond
      exact bind_eq_error_iff.2
        (.inr ⟨_, h.ok hfirst (.inl hmid), (hnext a).malformed hsecond⟩)
  ended {cs more} hscan hmore := by
    rcases bind_eq_error_iff.1 hscan with hfirst | ⟨⟨a, mid⟩, hfirst, hsecond⟩
    · exact bind_eq_error_iff.2 (.inl (h.ended hfirst hmore))
    · exact bind_eq_error_iff.2
        (.inr ⟨_, h.ok hfirst (.inr hmore), (hnext a).ended hsecond hmore⟩)

end DecidesByNext

/-- Goes on with `next` behind the character `d`, and scans the text as it is without it. -/
def onChar (d : Char) (next scan : List Char → Except Break (α × List Char)) :
    List Char → Except Break (α × List Char)
  | [] => scan []
  | c :: cs => if c = d then next cs else scan (c :: cs)

section OnChar

variable {d : Char} {scan next : List Char → Except Break (α × List Char)}

theorem onChar_cons_of_ne {c : Char} (h : c ≠ d) (cs : List Char) :
    onChar d next scan (c :: cs) = scan (c :: cs) :=
  if_neg h

theorem onChar_of_forall_ne {cs : List Char} (h : ∀ rest, cs ≠ d :: rest) :
    onChar d next scan cs = scan cs := by
  cases cs with
  | nil => rfl
  | cons c cs => exact onChar_cons_of_ne (fun heq => h cs (by rw [heq])) cs

theorem onChar_cons_self (cs : List Char) : onChar d next scan (d :: cs) = next cs :=
  if_pos rfl

theorem onChar_of_startsWithSpace (hd : isSpace d = false) (h : StartsWithSpace more) :
    onChar d next scan more = scan more := by
  obtain ⟨c, rest, rfl, hc⟩ := h
  apply onChar_cons_of_ne
  intro heq
  rw [heq, hd] at hc
  cases hc

theorem DecidesByNext.onChar (hnext : DecidesByNext next) (h : DecidesByNext scan)
    (hd : isSpace d = false) (hnil : scan [] ≠ .error .malformed) :
    DecidesByNext (onChar d next scan) where
  length_le {cs rest a} hscan := by
    cases cs with
    | nil => exact h.length_le hscan
    | cons c cs =>
        by_cases hc : c = d
        · subst hc
          rw [onChar_cons_self] at hscan
          exact Nat.le_succ_of_le (hnext.length_le hscan)
        · rw [onChar_cons_of_ne hc] at hscan
          exact h.length_le hscan
  ok {cs rest more a} hscan hmore := by
    cases cs with
    | nil =>
        have hspace := hmore.resolve_left fun hrest => hrest (h.rest_eq_nil hscan)
        rw [List.nil_append, onChar_of_startsWithSpace hd hspace]
        exact h.ok hscan hmore
    | cons c cs =>
        rw [List.cons_append]
        by_cases hc : c = d
        · subst hc
          rw [onChar_cons_self] at hscan ⊢
          exact hnext.ok hscan hmore
        · rw [onChar_cons_of_ne hc] at hscan ⊢
          exact h.ok hscan hmore
  malformed {cs more} hscan := by
    cases cs with
    | nil => exact absurd hscan hnil
    | cons c cs =>
        rw [List.cons_append]
        by_cases hc : c = d
        · subst hc
          rw [onChar_cons_self] at hscan ⊢
          exact hnext.malformed hscan
        · rw [onChar_cons_of_ne hc] at hscan ⊢
          exact h.malformed hscan
  ended {cs more} hscan hmore := by
    cases cs with
    | nil =>
        rw [List.nil_append, onChar_of_startsWithSpace hd hmore]
        exact h.ended hscan hmore
    | cons c cs =>
        rw [List.cons_append]
        by_cases hc : c = d
        · subst hc
          rw [onChar_cons_self] at hscan ⊢
          exact hnext.ended hscan hmore
        · rw [onChar_cons_of_ne hc] at hscan ⊢
          exact h.ended hscan hmore

end OnChar

theorem noDigit_append {rest : List Char} (h : NoDigit rest)
    (hmore : rest ≠ [] ∨ StartsWithSpace more) : NoDigit (rest ++ more) := by
  cases rest with
  | nil => exact (hmore.resolve_left fun h => h rfl).noDigit
  | cons c rest => exact h

theorem digits1_eq_error_iff {cs : List Char} {how : Break} :
    digits1 cs = .error how ↔ NoDigit cs ∧ breakBefore cs = how := by
  unfold digits1
  split
  · next rest hspan =>
      obtain ⟨rfl, hrest⟩ := span_eq_iff.1 hspan
      simp [hrest]
  · next hne =>
      constructor
      · exact nofun
      · intro hr
        exact absurd (span_map_digitChar_append [] hr.1) (hne cs)

theorem breakBefore_of_ne_nil {cs : List Char} (h : cs ≠ []) : breakBefore cs = .malformed := by
  cases cs with
  | nil => exact absurd rfl h
  | cons c cs => rfl

theorem decidesByNext_digits1 : DecidesByNext digits1 where
  length_le h := Nat.le_of_lt (length_digits1 h)
  ok h hmore := by
    obtain ⟨hne, hcs, hrest⟩ := digits1_eq_ok_iff.1 h
    exact digits1_eq_ok_iff.2 ⟨hne, by rw [hcs, List.append_assoc], noDigit_append hrest hmore⟩
  malformed {cs more} h := by
    obtain ⟨hcs, hhow⟩ := digits1_eq_error_iff.1 h
    have hne : cs ≠ [] := by
      intro heq
      subst heq
      cases hhow
    exact digits1_eq_error_iff.2
      ⟨noDigit_append hcs (.inl hne),
        breakBefore_of_ne_nil (List.append_ne_nil_of_left_ne_nil hne more)⟩
  ended {cs more} h hmore := by
    obtain ⟨hcs, -⟩ := digits1_eq_error_iff.1 h
    exact digits1_eq_error_iff.2
      ⟨noDigit_append hcs (.inr hmore),
        breakBefore_of_ne_nil (List.append_ne_nil_of_right_ne_nil cs hmore.ne_nil)⟩

theorem wholeDigits_eq_error_iff {cs : List Char} {how : Break} :
    wholeDigits cs = .error how ↔ digits1 cs = .error how ∨
      how = .malformed ∧ ∃ d digits rest, digits1 cs = .ok (0 :: d :: digits, rest) := by
  unfold wholeDigits
  split
  · next d digits rest hlong => simp [hlong, eq_comm]
  · next hshort =>
      constructor
      · exact .inl
      · intro h
        rcases h with h | ⟨-, d, digits, rest, h⟩
        · exact h
        · exact absurd h (hshort d digits rest)

theorem decidesByNext_wholeDigits : DecidesByNext wholeDigits where
  length_le h := Nat.le_of_lt (length_wholeDigits h)
  ok h hmore := by
    obtain ⟨hwhole, hcs, hrest⟩ := wholeDigits_eq_ok_iff.1 h
    exact wholeDigits_eq_ok_iff.2
      ⟨hwhole, by rw [hcs, List.append_assoc], noDigit_append hrest hmore⟩
  malformed {cs more} h := by
    rcases wholeDigits_eq_error_iff.1 h with h | ⟨-, d, digits, rest, h⟩
    · exact wholeDigits_eq_error_iff.2 (.inl (decidesByNext_digits1.malformed h))
    · -- Further digits may follow, and the zero in front of them is still one too many.
      obtain ⟨hne, hcs, -⟩ := digits1_eq_ok_iff.1 h
      refine wholeDigits_eq_error_iff.2 (.inr ⟨rfl, d, digits ++ (span (rest ++ more)).1,
        (span (rest ++ more)).2, digits1_eq_ok_iff.2 ⟨List.cons_ne_nil _ _, ?_,
          digit?_head_span _⟩⟩)
      rw [hcs, List.append_assoc, ← List.cons_append, ← List.cons_append, List.map_append,
        List.append_assoc, map_digitChar_span]
  ended {cs more} h hmore := by
    rcases wholeDigits_eq_error_iff.1 h with h | ⟨h, -⟩
    · exact wholeDigits_eq_error_iff.2 (.inl (decidesByNext_digits1.ended h hmore))
    · cases h

theorem fractionDigits_eq_onChar : fractionDigits = onChar '.' digits1 fun cs => .ok ([], cs) := by
  funext cs
  unfold fractionDigits
  split
  · rfl
  · next hpoint => rw [onChar_of_forall_ne hpoint]

theorem decidesByNext_fractionDigits : DecidesByNext fractionDigits := by
  rw [fractionDigits_eq_onChar]
  exact decidesByNext_digits1.onChar (.pure []) (by decide) nofun

theorem powerOfTen_eq_onChar : powerOfTen =
    onChar '-' (fun cs => (digits1 cs).map fun (digits, rest) => (-(value digits : Int), rest))
      (onChar '+' (fun cs => (digits1 cs).map fun (digits, rest) => ((value digits : Int), rest))
        fun cs => (digits1 cs).map fun (digits, rest) => ((value digits : Int), rest)) := by
  funext cs
  unfold powerOfTen
  split
  · rfl
  · rfl
  · next hminus hplus => rw [onChar_of_forall_ne hminus, onChar_of_forall_ne hplus]

theorem decidesByNext_powerOfTen : DecidesByNext powerOfTen := by
  have hplain : DecidesByNext fun cs =>
      (digits1 cs).map fun (digits, rest) => ((value digits : Int), rest) :=
    decidesByNext_digits1.map fun digits => (value digits : Int)
  have hminus : DecidesByNext fun cs =>
      (digits1 cs).map fun (digits, rest) => (-(value digits : Int), rest) :=
    decidesByNext_digits1.map fun digits => -(value digits : Int)
  rw [powerOfTen_eq_onChar]
  exact hminus.onChar (hplain.onChar hplain (by decide) nofun) (by decide) nofun

theorem exponentPart_eq_onChar : exponentPart =
    onChar 'e' (fun cs => (powerOfTen cs).map fun (power, rest) => (some power, rest))
      (onChar 'E' (fun cs => (powerOfTen cs).map fun (power, rest) => (some power, rest))
        fun cs => .ok (none, cs)) := by
  funext cs
  unfold exponentPart
  split
  · rfl
  · rfl
  · next hsmall hlarge => rw [onChar_of_forall_ne hsmall, onChar_of_forall_ne hlarge]

theorem decidesByNext_exponentPart : DecidesByNext exponentPart := by
  have hpower : DecidesByNext fun cs =>
      (powerOfTen cs).map fun (power, rest) => (some power, rest) :=
    decidesByNext_powerOfTen.map some
  rw [exponentPart_eq_onChar]
  exact hpower.onChar (hpower.onChar (.pure none) (by decide) nofun) (by decide) nofun

theorem decidesByNext_unsignedNumeral (isNegative : Bool) :
    DecidesByNext (unsignedNumeral isNegative) := by
  have hexponent (whole fraction : List Digit) := decidesByNext_exponentPart.map
    fun exponent => ({ isNegative, whole, fraction, exponent } : Numeral)
  have hfraction (whole : List Digit) :=
    decidesByNext_fractionDigits.bind (hexponent whole) fun _ => nofun
  have hwhole := decidesByNext_wholeDigits.bind hfraction fun _ => nofun
  exact hwhole

theorem scanNumeral_eq_onChar :
    scanNumeral = onChar '-' (unsignedNumeral true) (unsignedNumeral false) := by
  funext cs
  unfold scanNumeral
  split
  · rfl
  · next hminus => rw [onChar_of_forall_ne hminus]

theorem decidesByNext_scanNumeral : DecidesByNext scanNumeral := by
  rw [scanNumeral_eq_onChar]
  exact (decidesByNext_unsignedNumeral true).onChar (decidesByNext_unsignedNumeral false)
    (by decide) nofun

end Json

end DigitiserSums
