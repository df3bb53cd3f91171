import DigitiserSums.Json.Token

/-!
# Cutting JSON texts into tokens

`tokens` cuts a text from left to right. A token that the text breaks off, or that goes on with a
character that it may not have, says how it broke, and nothing follows it.
-/

namespace DigitiserSums.Json

open Decimal

def isSpace (c : Char) : Bool :=
  c = ' ' || c = '\t' || c = '\n' || c = '\r'

def punctuation? : Char → Option Token
  | '{' => some .openBrace
  | '}' => some .closeBrace
  | '[' => some .openBracket
  | ']' => some .closeBracket
  | ':' => some .colon
  | ',' => some .comma
  | _ => none

/-! ### Words -/

/-- What follows the letters of a word. -/
def afterLetters : List Char → List Char → Except Break (List Char)
  | [], cs => .ok cs
  | _ :: _, [] => .error .ended
  | l :: letters, c :: cs => if c = l then afterLetters letters cs else .error .malformed

/-- The words by their first letter, with their other letters. -/
def word? : Char → Option (List Char × Token)
  | 'n' => some (['u', 'l', 'l'], .null)
  | 't' => some (['r', 'u', 'e'], .bool true)
  | 'f' => some (['a', 'l', 's', 'e'], .bool false)
  | _ => none

/-! ### Numbers -/

/-- How a number breaks before the character that should have gone on with it. -/
def breakBefore : List Char → Break
  | [] => .ended
  | _ :: _ => .malformed

def digits1 (cs : List Char) : Except Break (List Digit × List Char) :=
  match span cs with
  | ([], rest) => .error (breakBefore rest)
  | scanned => .ok scanned

/-- The digits before the point: a zero stands alone. -/
def wholeDigits (cs : List Char) : Except Break (List Digit × List Char) :=
  match digits1 cs with
  | .ok (0 :: _ :: _, _) => .error .malformed
  | scanned => scanned

def fractionDigits : List Char → Except Break (List Digit × List Char)
  | '.' :: cs => digits1 cs
  | cs => .ok ([], cs)

def powerOfTen : List Char → Except Break (Int × List Char)
  | '-' :: cs => (digits1 cs).map fun (digits, rest) => (-(value digits : Int), rest)
  | '+' :: cs => (digits1 cs).map fun (digits, rest) => ((value digits : Int), rest)
  | cs => (digits1 cs).map fun (digits, rest) => ((value digits : Int), rest)

def exponentPart : List Char → Except Break (Option Int × List Char)
  | 'e' :: cs => (powerOfTen cs).map fun (power, rest) => (some power, rest)
  | 'E' :: cs => (powerOfTen cs).map fun (power, rest) => (some power, rest)
  | cs => .ok (none, cs)

def unsignedNumeral (isNegative : Bool) (cs : List Char) : Except Break (Numeral × List Char) := do
  let (whole, cs) ← wholeDigits cs
  let (fraction, cs) ← fractionDigits cs
  let (exponent, cs) ← exponentPart cs
  return ({ isNegative, whole, fraction, exponent }, cs)

def scanNumeral : List Char → Except Break (Numeral × List Char)
  | '-' :: cs => unsignedNumeral true cs
  | cs => unsignedNumeral false cs

/-! ### Strings -/

def hexDigit? (c : Char) : Option Nat :=
  if '0' ≤ c ∧ c ≤ '9' then some (c.toNat - 48)
  else if 'a' ≤ c ∧ c ≤ 'f' then some (c.toNat - 87)
  else if 'A' ≤ c ∧ c ≤ 'F' then some (c.toNat - 55)
  else none

def unit? (a b c d : Char) : Option UInt16 := do
  let a ← hexDigit? a
  let b ← hexDigit? b
  let c ← hexDigit? c
  let d ← hexDigit? d
  return .ofNat (((a * 16 + b) * 16 + c) * 16 + d)

theorem exists_of_map_eq_ok {ε α β : Type} {f : α → β} {x : Except ε α} {b : β}
    (h : x.map f = .ok b) : ∃ a, x = .ok a ∧ f a = b := by
  cases x with
  | error e => contradiction
  | ok a => exact ⟨a, rfl, Except.ok.inj h⟩

/-- Four hexadecimal digits. With fewer than four bytes to go the text ends within them, whatever
the bytes are. -/
def scanUnit : List Char → Except Break (StringPart × List Char)
  | a :: b :: c :: d :: cs =>
    match unit? a b c d with
    | some u => .ok (.unit u, cs)
    | none => .error .malformed
  | cs => .error (if (String.ofList cs).utf8ByteSize < 4 then .ended else .malformed)

/-- The character that a letter stands for after a backslash. -/
def escaped? : Char → Option Char
  | '"' => some '"'
  | '\\' => some '\\'
  | '/' => some '/'
  | 'b' => some '\x08'
  | 'f' => some '\x0c'
  | 'n' => some '\n'
  | 'r' => some '\r'
  | 't' => some '\t'
  | _ => none

def scanEscape : List Char → Except Break (StringPart × List Char)
  | [] => .error .ended
  | 'u' :: cs => scanUnit cs
  | c :: cs =>
    match escaped? c with
    | some d => .ok (.char d, cs)
    | none => .error .malformed

/-- The next part of a string, or `none` at the closing quote; with what follows either. -/
def scanPart : List Char → Except Break (Option StringPart × List Char)
  | [] => .error .ended
  | '"' :: cs => .ok (none, cs)
  | '\\' :: cs => (scanEscape cs).map fun (part, rest) => (some part, rest)
  | c :: cs => if c.toNat < 0x20 then .error .malformed else .ok (some (.char c), cs)

theorem length_scanUnit {cs rest : List Char} {p : StringPart} (h : scanUnit cs = .ok (p, rest)) :
    rest.length < cs.length := by
  unfold scanUnit at h
  split at h
  · split at h
    · cases h
      simp only [List.length_cons]
      omega
    · contradiction
  · contradiction

theorem length_scanEscape {cs rest : List Char} {p : StringPart}
    (h : scanEscape cs = .ok (p, rest)) : rest.length < cs.length := by
  unfold scanEscape at h
  split at h
  · contradiction
  · exact Nat.lt_succ_of_lt (length_scanUnit h)
  · split at h
    · cases h
      simp
    · contradiction

theorem length_scanPart {cs rest : List Char} {p : Option StringPart}
    (h : scanPart cs = .ok (p, rest)) : rest.length < cs.length := by
  unfold scanPart at h
  split at h
  · contradiction
  · cases h
    simp
  · obtain ⟨⟨part, rest'⟩, he, hp⟩ := exists_of_map_eq_ok h
    cases hp
    exact Nat.lt_succ_of_lt (length_scanEscape he)
  · split at h
    · contradiction
    · cases h
      simp

/-- The parts of a string after its opening quote. Without a closing quote there is no rest, but a
reason. -/
def scanString (cs : List Char) : List StringPart × Except Break (List Char) :=
  match h : scanPart cs with
  | .error how => ([], .error how)
  | .ok (none, rest) => ([], .ok rest)
  | .ok (some part, rest) =>
    have := length_scanPart h
    let (parts, outcome) := scanString rest
    (part :: parts, outcome)
termination_by cs.length

/-! ### Texts -/

/-- A token with what follows it, or the broken token alone. -/
def orBroken {α : Type} (whole : α → Token) (broken : Break → Token) :
    Except Break (α × List Char) → Token × List Char
  | .ok (a, rest) => (whole a, rest)
  | .error how => (broken how, [])

/-- The token that starts with `c`, which is no space, and what follows it. -/
def scanToken (c : Char) (cs : List Char) : Token × List Char :=
  match punctuation? c, word? c with
  | some token, _ => (token, cs)
  | none, some (letters, word) =>
    orBroken (fun _ => word) .brokenWord ((afterLetters letters cs).map ((), ·))
  | none, none =>
    if c = '"' then
      let (parts, outcome) := scanString cs
      orBroken (fun _ => .string parts) (.brokenString parts) (outcome.map ((), ·))
    else if c = '-' ∨ (digit? c).isSome then
      orBroken .number .brokenNumber (scanNumeral (c :: cs))
    else (.stray, [])

/-! ### Scanning makes progress -/

theorem length_orBroken {α : Type} {whole : α → Token} {broken : Break → Token} {n : Nat}
    {scanned : Except Break (α × List Char)}
    (h : ∀ a rest, scanned = .ok (a, rest) → rest.length ≤ n) :
    (orBroken whole broken scanned).2.length ≤ n := by
  match scanned with
  | .ok (a, rest) => exact h a rest rfl
  | .error how => exact Nat.zero_le n

theorem length_afterLetters {letters cs rest : List Char} (h : afterLetters letters cs = .ok rest) :
    rest.length ≤ cs.length := by
  induction letters generalizing cs with
  | nil =>
    cases h
    exact Nat.le_refl _
  | cons l letters ih =>
    cases cs with
    | nil => contradiction
    | cons c cs =>
      simp only [afterLetters] at h
      split at h
      · exact Nat.le_succ_of_le (ih h)
      · contradiction

theorem length_digits1 {cs rest : List Char} {digits : List Digit}
    (h : digits1 cs = .ok (digits, rest)) : rest.length < cs.length := by
  have hl := length_span cs
  simp only [digits1] at h
  split at h
  · contradiction
  · rename_i hne
    have hs := Except.ok.inj h
    rw [hs] at hl
    cases digits with
    | nil => exact absurd hs (hne rest)
    | cons d ds =>
      simp only [List.length_cons] at hl
      omega

theorem length_wholeDigits {cs rest : List Char} {digits : List Digit}
    (h : wholeDigits cs = .ok (digits, rest)) : rest.length < cs.length := by
  simp only [wholeDigits] at h
  split at h
  · contradiction
  · exact length_digits1 h

theorem length_fractionDigits {cs rest : List Char} {digits : List Digit}
    (h : fractionDigits cs = .ok (digits, rest)) : rest.length ≤ cs.length := by
  unfold fractionDigits at h
  split at h
  · exact Nat.le_succ_of_le (Nat.le_of_lt (length_digits1 h))
  · cases h
    exact Nat.le_refl _

theorem length_powerOfTen {cs rest : List Char} {n : Int} (h : powerOfTen cs = .ok (n, rest)) :
    rest.length < cs.length := by
  unfold powerOfTen at h
  split at h
  · obtain ⟨⟨digits, rest'⟩, hd, hp⟩ := exists_of_map_eq_ok h
    cases hp
    exact Nat.lt_succ_of_lt (length_digits1 hd)
  · obtain ⟨⟨digits, rest'⟩, hd, hp⟩ := exists_of_map_eq_ok h
    cases hp
    exact Nat.lt_succ_of_lt (length_digits1 hd)
  · obtain ⟨⟨digits, rest'⟩, hd, hp⟩ := exists_of_map_eq_ok h
    cases hp
    exact length_digits1 hd

theorem length_exponentPart {cs rest : List Char} {n : Option Int}
    (h : exponentPart cs = .ok (n, rest)) : rest.length ≤ cs.length := by
  unfold exponentPart at h
  split at h
  · obtain ⟨⟨power, rest'⟩, hd, hp⟩ := exists_of_map_eq_ok h
    cases hp
    exact Nat.le_succ_of_le (Nat.le_of_lt (length_powerOfTen hd))
  · obtain ⟨⟨power, rest'⟩, hd, hp⟩ := exists_of_map_eq_ok h
    cases hp
    exact Nat.le_succ_of_le (Nat.le_of_lt (length_powerOfTen hd))
  · cases h
    exact Nat.le_refl _

theorem length_unsignedNumeral {b : Bool} {cs rest : List Char} {n : Numeral}
    (h : unsignedNumeral b cs = .ok (n, rest)) : rest.length < cs.length := by
  simp only [unsignedNumeral, bind, Except.bind] at h
  split at h
  · contradiction
  · rename_i whole hw
    split at h
    · contradiction
    · rename_i fraction hf
      split at h
      · contradiction
      · rename_i power hp
        simp only [pure, Except.pure, Except.ok.injEq, Prod.mk.injEq] at h
        rw [← h.2]
        obtain ⟨_, _⟩ := whole
        obtain ⟨_, _⟩ := fraction
        obtain ⟨_, _⟩ := power
        dsimp only at hf hp ⊢
        have h₁ := length_wholeDigits hw
        have h₂ := length_fractionDigits hf
        have h₃ := length_exponentPart hp
        omega

theorem length_scanNumeral {cs rest : List Char} {n : Numeral}
    (h : scanNumeral cs = .ok (n, rest)) : rest.length < cs.length := by
  unfold scanNumeral at h
  split at h
  · exact Nat.lt_succ_of_lt (length_unsignedNumeral h)
  · exact length_unsignedNumeral h

theorem length_scanString {cs rest : List Char} (h : (scanString cs).2 = .ok rest) :
    rest.length < cs.length := by
  fun_induction scanString cs with
  | case1 cs how hs => simp at h
  | case2 cs rest' hs =>
    cases h
    exact length_scanPart hs
  | case3 cs part rest' hs hl parts outcome he ih =>
    have := ih (by simpa [he] using h)
    omega

/-- What follows a token is no longer than what follows its first character. -/
theorem length_scanToken (c : Char) (cs : List Char) : (scanToken c cs).2.length ≤ cs.length := by
  unfold scanToken
  split
  · exact Nat.le_refl _
  · refine length_orBroken fun _ rest h => ?_
    obtain ⟨rest', ha, hp⟩ := exists_of_map_eq_ok h
    cases hp
    exact length_afterLetters ha
  · split
    · refine length_orBroken fun _ rest h => ?_
      obtain ⟨rest', ha, hp⟩ := exists_of_map_eq_ok h
      cases hp
      exact Nat.le_of_lt (length_scanString ha)
    · split
      · exact length_orBroken fun _ _ h => Nat.le_of_lt_succ (length_scanNumeral h)
      · exact Nat.zero_le _

def tokens : List Char → List Token
  | [] => []
  | c :: cs =>
    if isSpace c then tokens cs
    else
      have := length_scanToken c cs
      (scanToken c cs).1 :: tokens (scanToken c cs).2
termination_by cs => cs.length

@[simp] theorem tokens_nil : tokens [] = [] := by
  rw [tokens]

/-- Spaces between tokens mean nothing. -/
theorem tokens_cons_of_isSpace {c : Char} (h : isSpace c = true) (cs : List Char) :
    tokens (c :: cs) = tokens cs := by
  rw [tokens, if_pos h]

theorem tokens_cons_of_not_isSpace {c : Char} (h : isSpace c = false) (cs : List Char) :
    tokens (c :: cs) = (scanToken c cs).1 :: tokens (scanToken c cs).2 := by
  rw [tokens, if_neg (by simp [h])]

end DigitiserSums.Json
