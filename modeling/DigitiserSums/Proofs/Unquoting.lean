import DigitiserSums.Json.Lexer
import DigitiserSums.Proofs.Spellings

/-!
# Quoted texts are read back

What stands between the quotes can be undone: the reader below goes through it once and stops at the
quote that ends it. So the text is known from its quoted form, whatever follows, and since no
control is left in the quoted form, a warning about a line stays on one line and belongs to that
line alone.
-/

namespace DigitiserSums

namespace Text

open Json (hexDigit?)

/-! ## Reading what was quoted -/

/-- Where a reader of a quoted text is. -/
inductive Place where
  | text
  | afterBackslash
  /-- Behind a backslash and the letter for a code point. -/
  | beforeBrace
  /-- Inside the braces, behind the digits of `n`. -/
  | code (n : Nat)

/-- The character that stands behind a backslash for another, or for itself. -/
def unescaped? : Char → Option Char
  | '0' => some '\x00'
  | 't' => some '\t'
  | 'r' => some '\r'
  | 'n' => some '\n'
  | '"' => some '"'
  | '\\' => some '\\'
  | _ => none

def charOfCode? (n : Nat) : Option Char :=
  if n.isValidChar then some (.ofNat n) else none

/-- The text up to the quote that ends it, and what follows the quote. -/
def unquoteFrom : Place → List Char → Option (List Char × List Char)
  | _, [] => none
  | .text, c :: cs =>
    if c = '"' then some ([], cs)
    else if c = '\\' then unquoteFrom .afterBackslash cs
    else (unquoteFrom .text cs).map (.map (c :: ·) id)
  | .afterBackslash, c :: cs =>
    if c = 'u' then unquoteFrom .beforeBrace cs
    else (unescaped? c).bind fun d => (unquoteFrom .text cs).map (.map (d :: ·) id)
  | .beforeBrace, c :: cs =>
    if c = '{' then unquoteFrom (.code 0) cs else none
  | .code n, c :: cs =>
    if c = '}' then
      (charOfCode? n).bind fun d => (unquoteFrom .text cs).map (.map (d :: ·) id)
    else (hexDigit? c).bind fun d => unquoteFrom (.code (16 * n + d)) cs

def unquote? : List Char → Option (List Char × List Char)
  | '"' :: cs => unquoteFrom .text cs
  | _ => none

/-! ## Code points -/

theorem charOfCode?_toNat (c : Char) : charOfCode? c.toNat = some c := by
  have hvalid : c.toNat.isValidChar := c.valid
  rw [charOfCode?, if_pos hvalid, Char.ofNat_toNat]

theorem hexDigit?_digitChar {n : Nat} (hn : n < 16) : hexDigit? n.digitChar = some n := by
  revert n
  decide

theorem digitChar_ne_closeBrace {n : Nat} (hn : n < 16) : n.digitChar ≠ '}' := by
  revert n
  decide

theorem unquoteFrom_code_digitChar (m : Nat) {n : Nat} (hn : n < 16) (cs : List Char) :
    unquoteFrom (.code m) (n.digitChar :: cs) = unquoteFrom (.code (16 * m + n)) cs := by
  rw [unquoteFrom, if_neg (digitChar_ne_closeBrace hn), hexDigit?_digitChar hn, Option.bind_some]

/-- The digits of a code point are read back, however many there are. -/
theorem unquoteFrom_toDigits (n : Nat) (cs : List Char) :
    unquoteFrom (.code 0) (Nat.toDigits 16 n ++ cs) = unquoteFrom (.code n) cs := by
  induction n using Nat.strong_induction_on generalizing cs with
  | _ n ih =>
      by_cases hn : n < 16
      · rw [Nat.toDigits_of_lt_base hn, List.singleton_append, unquoteFrom_code_digitChar 0 hn,
          Nat.mul_zero, Nat.zero_add]
      · have hlt : n / 16 < n := by omega
        rw [Nat.toDigits_of_base_le (by decide) (Nat.le_of_not_lt hn), List.append_assoc, ih _ hlt,
          List.singleton_append, unquoteFrom_code_digitChar _ (Nat.mod_lt n (by decide)),
          Nat.div_add_mod]

/-! ## Undoing the quotes -/

theorem unquoteFrom_quotedChar (c : Char) (cs : List Char) :
    unquoteFrom .text (quotedChar c ++ cs) = (unquoteFrom .text cs).map (.map (c :: ·) id) := by
  unfold quotedChar
  split
  case h_7 hnul htab hreturn hfeed hquote hbackslash =>
    split
    · have hcode : unquoteFrom .text
          ('\\' :: 'u' :: '{' :: (Nat.toDigits 16 c.toNat ++ ['}']) ++ cs) =
            unquoteFrom (.code 0) (Nat.toDigits 16 c.toNat ++ ('}' :: cs)) := by
        simp [unquoteFrom]
      rw [hcode, unquoteFrom_toDigits, unquoteFrom, if_pos rfl, charOfCode?_toNat, Option.bind_some]
    · rw [List.singleton_append, unquoteFrom, if_neg hquote, if_neg hbackslash]
  -- Every other escape is one letter behind the backslash.
  all_goals rfl

theorem unquoteFrom_flatMap (cs rest : List Char) :
    unquoteFrom .text (cs.flatMap quotedChar ++ '"' :: rest) = some (cs, rest) := by
  induction cs with
  | nil => rfl
  | cons c cs ih =>
      rw [List.flatMap_cons, List.append_assoc, unquoteFrom_quotedChar, ih]
      rfl

/-- A quoted text is read back, and so is what follows it. -/
theorem unquote?_quoted_append (cs rest : List Char) :
    unquote? (quoted cs ++ rest) = some (cs, rest) := by
  rw [quoted, List.cons_append, List.append_assoc, unquote?]
  exact unquoteFrom_flatMap cs rest

/-! ## Controls -/

/-- A control of either range. -/
def IsControl (c : Char) : Prop :=
  c.toNat < 0x20 ∨ 0x7F ≤ c.toNat ∧ c.toNat ≤ 0x9F

instance (c : Char) : Decidable (IsControl c) :=
  inferInstanceAs (Decidable (_ ∨ _))

theorem not_isControl_digitChar {n : Nat} (hn : n < 16) : ¬ IsControl n.digitChar := by
  revert n
  decide

theorem not_isControl_of_mem_toDigits {c : Char} {n : Nat} (h : c ∈ Nat.toDigits 16 n) :
    ¬ IsControl c := by
  induction n using Nat.strong_induction_on with
  | _ n ih =>
      by_cases hn : n < 16
      · rw [Nat.toDigits_of_lt_base hn, List.mem_singleton] at h
        exact h ▸ not_isControl_digitChar hn
      · rw [Nat.toDigits_of_base_le (by decide) (Nat.le_of_not_lt hn), List.mem_append,
          List.mem_singleton] at h
        rcases h with h | rfl
        · exact ih (n / 16) (by omega) h
        · exact not_isControl_digitChar (Nat.mod_lt n (by decide))

theorem not_isControl_of_mem_quotedChar {c d : Char} (h : d ∈ quotedChar c) : ¬ IsControl d := by
  unfold quotedChar at h
  split at h
  case h_7 =>
    split at h
    · simp only [List.mem_cons, List.mem_append, List.not_mem_nil, or_false] at h
      rcases h with rfl | rfl | rfl | h | rfl
      case inr.inr.inr.inl => exact not_isControl_of_mem_toDigits h
      all_goals decide
    · next hshown =>
      rw [List.mem_singleton.1 h]
      exact mt isHidden_of_control hshown
  all_goals
    simp only [List.mem_cons, List.not_mem_nil, or_false] at h
    rcases h with rfl | rfl <;> decide

theorem not_isControl_of_mem_quoted {cs : List Char} {c : Char} (h : c ∈ quoted cs) :
    ¬ IsControl c := by
  rw [quoted, List.mem_cons, List.mem_append, List.mem_singleton, List.mem_flatMap] at h
  rcases h with rfl | ⟨d, -, hd⟩ | rfl
  · decide
  · exact not_isControl_of_mem_quotedChar hd
  · decide

end Text

/-! ## Warnings -/

namespace LineFault

variable {text : List Char} {fault : Decimal.NaturalFault}

theorem toList_message_unreadable (text : List Char) (fault : Decimal.NaturalFault) :
    (unreadable text fault).message.toList =
      "Cannot parse sample ".toList ++ (Text.quoted text ++ (": " ++ fault.message).toList) := by
  have hquoted : (String.ofList (Text.quoted text)).toList = Text.quoted text :=
    String.toList_ofList
  have hmessage : (unreadable text fault).message =
      "Cannot parse sample " ++ .ofList (Text.quoted text) ++ ": " ++ fault.message := rfl
  rw [hmessage, String.append_assoc, String.append_assoc, String.toList_append,
    String.toList_append, hquoted]

theorem not_isControl_of_mem_message {c : Char} (h : c ∈ (unreadable text fault).message.toList) :
    ¬ Text.IsControl c := by
  have hopening : ∀ c ∈ "Cannot parse sample ".toList, ¬ Text.IsControl c := by
    simp [Text.IsControl]
  have hreason : ∀ c ∈ (": " ++ fault.message).toList, ¬ Text.IsControl c := by
    cases fault <;> simp [Decimal.NaturalFault.message, Text.IsControl]
  rw [toList_message_unreadable, List.mem_append, List.mem_append] at h
  rcases h with h | h | h
  · exact hopening c h
  · exact Text.not_isControl_of_mem_quoted h
  · exact hreason c h

/-- The text that cannot be read is known from the message. -/
theorem text_eq_of_message_eq {text' : List Char} {fault' : Decimal.NaturalFault}
    (h : (unreadable text' fault').message = (unreadable text fault).message) : text' = text := by
  have hlist := congrArg String.toList h
  rw [toList_message_unreadable, toList_message_unreadable] at hlist
  have hread := congrArg Text.unquote? (List.append_cancel_left hlist)
  rw [Text.unquote?_quoted_append, Text.unquote?_quoted_append] at hread
  exact (Prod.mk.inj (Option.some.inj hread)).1

end LineFault

namespace Session

theorem processLine_eq_unreadable_iff (s : Session) {line : String} {text : List Char}
    {fault : Decimal.NaturalFault} :
    s.processLine line = .error (.unreadable text fault) ↔
      text = Text.trim line.toList ∧ sampleOfText text = .error fault := by
  cases hread : sampleOfText (Text.trim line.toList) with
  | error fault' =>
      rw [s.processLine_of_error hread]
      constructor
      · intro h
        cases h
        exact ⟨rfl, hread⟩
      · rintro ⟨rfl, h⟩
        rw [hread] at h
        cases h
        rfl
  | ok x =>
      rw [s.processLine_of_ok hread]
      constructor
      · intro h
        cases hpush : s.push x <;> rw [hpush] at h <;> cases h
      · rintro ⟨rfl, h⟩
        rw [hread] at h
        cases h

/-- Let a line be refused because it cannot be read. Then no control stands in the message, so that
it stays on one line, and what is quoted in it is read back to the line without the blanks at its
ends. So two lines, also of different sessions, have one message exactly if they are one text
between their blanks. -/
theorem message_determines_text (s : Session) {line : String} {text : List Char}
    {fault : Decimal.NaturalFault} (h : s.processLine line = .error (.unreadable text fault)) :
    let message := (LineFault.unreadable text fault).message
    (∀ c ∈ message.toList, ¬ Text.IsControl c) ∧
    (∃ shown, message.toList = "Cannot parse sample ".toList ++ shown ∧
      Text.unquote? shown = some (Text.trim line.toList, (": " ++ fault.message).toList)) ∧
    ∀ (s' : Session) (line' : String) (text' : List Char) (fault' : Decimal.NaturalFault),
      s'.processLine line' = .error (.unreadable text' fault') →
        ((LineFault.unreadable text' fault').message = message ↔
          Text.trim line'.toList = Text.trim line.toList) := by
  obtain ⟨rfl, hfault⟩ := s.processLine_eq_unreadable_iff.1 h
  refine ⟨fun c => LineFault.not_isControl_of_mem_message,
    ⟨_, LineFault.toList_message_unreadable _ _, Text.unquote?_quoted_append _ _⟩, ?_⟩
  intro s' line' text' fault' h'
  obtain ⟨rfl, hfault'⟩ := s'.processLine_eq_unreadable_iff.1 h'
  constructor
  · exact LineFault.text_eq_of_message_eq
  · intro htext
    rw [htext] at hfault' ⊢
    rw [hfault] at hfault'
    cases hfault'
    rfl

theorem message_determines_text_of_escapes :
    let config : SessionConfig := { aggregation := .movingSum 3 }
    let line := " \\u{41}\x7f\"1\\\r\n"
    let other := "A\x7f\"1\\"
    ∃ s, ofConfig config = .ok s ∧
      s.processLine line =
        .error (.unreadable "\\u{41}\x7f\"1\\".toList .invalidDigit) ∧
      (∀ c ∈ (LineFault.unreadable "\\u{41}\x7f\"1\\".toList .invalidDigit).message.toList,
        ¬ Text.IsControl c) ∧
      s.processLine other = .error (.unreadable other.toList .invalidDigit) ∧
      (LineFault.unreadable other.toList .invalidDigit).message ≠
        (LineFault.unreadable "\\u{41}\x7f\"1\\".toList .invalidDigit).message := by
  intro config line other
  obtain ⟨s, hs⟩ : ∃ s, ofConfig config = .ok s := ⟨_, rfl⟩
  have hline : s.processLine line =
      .error (.unreadable "\\u{41}\x7f\"1\\".toList .invalidDigit) :=
    s.processLine_eq_unreadable_iff.2 (by decide)
  have hother : s.processLine other = .error (.unreadable other.toList .invalidDigit) :=
    s.processLine_eq_unreadable_iff.2 (by decide)
  obtain ⟨hcontrol, -, hsame⟩ := s.message_determines_text hline
  refine ⟨s, hs, hline, hcontrol, hother, ?_⟩
  exact mt (hsame s other _ _ hother).1 (by decide)

end Session

end DigitiserSums
