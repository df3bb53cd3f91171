import DigitiserSums.Proofs.Json.Layout
import DigitiserSums.Proofs.Json.Skip
import DigitiserSums.Proofs.Success

/-!
# What readers take

A reader is described by the tokens that it takes off the front and by what it makes of them, for
success alone. Readers that run one after another take what each takes in turn; a reader of values
takes the tokens of a value.
-/

namespace DigitiserSums.Json.Reader

variable {α β σ : Type}

/-- The reader takes the tokens that `T` allows, gives what `T` says, and leaves what follows. -/
def Takes (r : Reader α) (T : List Token → α → Prop) : Prop :=
  ∀ ts a rest, r ts = .ok (a, rest) ↔ ∃ us, ts = us ++ rest ∧ T us a

/-- The reader takes the tokens of a value `v` and makes an `a` of it with `R v a`. -/
def Reads (r : Reader α) (R : Value → α → Prop) : Prop :=
  Takes r fun us a => ∃ v : Value, us = v.tokens ∧ R v a

/-! ## Readers in a row -/

theorem Takes.congr {r : Reader α} {T T' : List Token → α → Prop} (h : Takes r T)
    (hT : ∀ us a, T us a ↔ T' us a) : Takes r T' := by
  intro ts a rest
  rw [h ts a rest]
  simp only [hT]

theorem Reads.congr {r : Reader α} {R R' : Value → α → Prop} (h : Reads r R)
    (hR : ∀ v a, R v a ↔ R' v a) : Reads r R' :=
  Takes.congr h fun us a => by simp only [hR]

theorem takes_pure (a : α) : Takes (pure a) fun us b => us = [] ∧ b = a := by
  intro ts b rest
  constructor
  · intro h
    cases h
    exact ⟨[], rfl, rfl, rfl⟩
  · intro h
    obtain ⟨us, rfl, rfl, rfl⟩ := h
    rfl

theorem takes_refuse (m : Mismatch) : Takes (refuse m : Reader α) fun _ _ => False := by
  intro ts b rest
  constructor
  · intro h
    cases h
  · intro h
    obtain ⟨us, -, h⟩ := h
    exact h.elim

theorem takes_bind {r : Reader α} {k : α → Reader β} {T : List Token → α → Prop}
    {K : α → List Token → β → Prop} (h : Takes r T) (hk : ∀ a, Takes (k a) (K a)) :
    Takes (r >>= k) fun us b => ∃ a front back, us = front ++ back ∧ T front a ∧ K a back b := by
  intro ts b rest
  have hrun : (r >>= k) ts = .ok (b, rest) ↔ ∃ p, r ts = .ok p ∧ k p.1 p.2 = .ok (b, rest) :=
    bind_eq_ok_iff
  rw [hrun]
  constructor
  · intro hr
    obtain ⟨⟨a, ts'⟩, hr, hk'⟩ := hr
    obtain ⟨front, rfl, hfront⟩ := (h _ _ _).1 hr
    obtain ⟨back, rfl, hback⟩ := (hk a _ _ _).1 hk'
    exact ⟨front ++ back, by rw [List.append_assoc], a, front, back, rfl, hfront, hback⟩
  · intro hr
    obtain ⟨_, rfl, a, front, back, rfl, hfront, hback⟩ := hr
    refine ⟨(a, back ++ rest), (h _ _ _).2 ⟨front, by rw [List.append_assoc], hfront⟩, ?_⟩
    exact (hk a _ _ _).2 ⟨back, rfl, hback⟩

/-- A reader that ends with a check takes no more tokens. -/
theorem takes_bind_check {r : Reader α} {k : α → Reader β} {T : List Token → α → Prop}
    {K : α → β → Prop} (h : Takes r T) (hk : ∀ a, Takes (k a) fun us b => us = [] ∧ K a b) :
    Takes (r >>= k) fun us b => ∃ a, T us a ∧ K a b := by
  refine (takes_bind h hk).congr fun us b => ?_
  constructor
  · intro hr
    obtain ⟨a, front, _, rfl, hT, rfl, hK⟩ := hr
    exact ⟨a, by rwa [List.append_nil], hK⟩
  · intro hr
    obtain ⟨a, hT, hK⟩ := hr
    exact ⟨a, us, [], (List.append_nil us).symm, hT, rfl, hK⟩

theorem takes_map {r : Reader α} {T : List Token → α → Prop} (f : α → β) (h : Takes r T) :
    Takes (f <$> r) fun us b => ∃ a, T us a ∧ b = f a := by
  intro ts b rest
  have hrun : (f <$> r) ts = .ok (b, rest) ↔ ∃ p, r ts = .ok p ∧ (f p.1, p.2) = (b, rest) := by
    change (r ts >>= fun p => .ok (f p.1, p.2)) = _ ↔ _
    rw [bind_eq_ok_iff]
    simp only [Except.ok.injEq]
  rw [hrun]
  constructor
  · intro hr
    obtain ⟨⟨a, ts'⟩, hr, heq⟩ := hr
    cases heq
    obtain ⟨us, hts, hT⟩ := (h _ _ _).1 hr
    exact ⟨us, hts, a, hT, rfl⟩
  · intro hr
    obtain ⟨us, hts, a, hT, rfl⟩ := hr
    exact ⟨(a, rest), (h _ _ _).2 ⟨us, hts, hT⟩, rfl⟩

theorem Reads.map {r : Reader α} {R : Value → α → Prop} (f : α → β) (h : Reads r R) :
    Reads (f <$> r) fun v b => ∃ a, R v a ∧ b = f a := by
  refine (takes_map f h).congr fun us b => ?_
  constructor
  · intro hr
    obtain ⟨a, ⟨v, hv, hR⟩, hb⟩ := hr
    exact ⟨v, hv, a, hR, hb⟩
  · intro hr
    obtain ⟨v, hv, a, hR, hb⟩ := hr
    exact ⟨a, ⟨v, hv, hR⟩, hb⟩

/-! ## Scalars -/

theorem wrongType_ne_ok (wanted : String) (ts : List Token) (p : α × List Token) :
    (wrongType wanted : Reader α) ts ≠ .ok p := by
  unfold wrongType
  split <;> exact nofun

theorem takes_punctuation (t : Token) : Takes (punctuation t) fun us _ => us = [t] := by
  intro ts a rest
  constructor
  · intro h
    cases ts with
    | nil => cases h
    | cons t' ts =>
        simp only [punctuation] at h
        split at h
        · next heq =>
            cases h
            exact ⟨[t'], rfl, by rw [heq]⟩
        · cases h
  · intro h
    obtain ⟨us, rfl, rfl⟩ := h
    simp [punctuation]

theorem textOf_eq_ok_iff {parts : List StringPart} {text : String} :
    textOf parts = .ok text ↔ decode parts = .ok text :=
  mapError_eq_ok_iff

/-- The reader takes one string and gives its text. -/
def TakesString (r : Reader String) : Prop :=
  Takes r fun us text => ∃ parts, us = [.string parts] ∧ decode parts = .ok text

/-- A reader takes one string if it gives the text of a string in front, and fails otherwise. -/
theorem takesString_of {r : Reader String}
    (hstring : ∀ parts ts, r (.string parts :: ts) = (textOf parts).map fun text => (text, ts))
    (hother : ∀ {ts p}, r ts = .ok p → ∃ parts rest, ts = .string parts :: rest) :
    TakesString r := by
  intro ts text rest
  constructor
  · intro h
    obtain ⟨parts, ts, rfl⟩ := hother h
    rw [hstring] at h
    obtain ⟨text', htext, heq⟩ := map_eq_ok_iff.1 h
    cases heq
    exact ⟨[.string parts], rfl, parts, rfl, textOf_eq_ok_iff.1 htext⟩
  · intro h
    obtain ⟨us, rfl, parts, rfl, htext⟩ := h
    exact (hstring parts rest).trans (map_eq_ok_iff.2 ⟨text, textOf_eq_ok_iff.2 htext, rfl⟩)

theorem takesString_name : TakesString name := by
  refine takesString_of (fun _ _ => rfl) fun h => ?_
  unfold name at h
  split at h
  · cases h
  · exact ⟨_, _, rfl⟩
  · cases h
  · cases h

theorem takesString_string (wanted : String) : TakesString (string wanted) := by
  refine takesString_of (fun _ _ => rfl) fun h => ?_
  unfold string at h
  split at h
  · exact ⟨_, _, rfl⟩
  · exact absurd h (wrongType_ne_ok _ _ _)

/-- However a bad name is taken, a name is a string. -/
theorem takesString_variantName (badName : BadName) : TakesString (variantName badName) := by
  cases badName with
  | misplaced => exact takesString_name
  | mistyped => exact takesString_string _

theorem reads_bool : Reads bool fun v b => v = .bool b := by
  intro ts b rest
  constructor
  · intro h
    unfold bool at h
    split at h
    · cases h
      exact ⟨_, rfl, .bool b, rfl, rfl⟩
    · exact absurd h (wrongType_ne_ok _ _ _)
  · intro h
    obtain ⟨us, rfl, v, rfl, rfl⟩ := h
    rfl

theorem reads_unit : Reads unit fun v _ => v = .null := by
  intro ts b rest
  constructor
  · intro h
    unfold unit at h
    split at h
    · cases h
      exact ⟨_, rfl, .null, rfl, rfl⟩
    · exact absurd h (wrongType_ne_ok _ _ _)
  · intro h
    obtain ⟨us, rfl, v, rfl, rfl⟩ := h
    rfl

theorem reads_number (wanted : String) : Reads (number wanted) fun v x =>
    ∃ n, v = .number n ∧ n.toNumber? = some x := by
  intro ts x rest
  constructor
  · intro h
    unfold number at h
    split at h
    · next n ts =>
        split at h
        · cases h
        · next value hvalue =>
            cases h
            exact ⟨_, rfl, .number n, rfl, n, rfl, hvalue⟩
    · exact absurd h (wrongType_ne_ok _ _ _)
  · intro h
    obtain ⟨us, rfl, v, rfl, n, rfl, hvalue⟩ := h
    change number wanted (.number n :: rest) = _
    simp only [number, hvalue]

theorem reads_skip : Reads skip fun _ _ => True := by
  intro ts a rest
  rw [skip_eq_ok_iff]
  constructor
  · intro h
    obtain ⟨v, hv⟩ := h
    exact ⟨v.tokens, hv, v, rfl, trivial⟩
  · intro h
    obtain ⟨us, hts, v, rfl, -⟩ := h
    exact ⟨v, hts⟩

/-! ## Variants -/

theorem TakesString.choose {r : Reader String} (h : TakesString r) (known : List (String × α))
    (hasContent : Bool) : Takes (r >>= variant.choose known hasContent) fun us p =>
      ∃ parts text, us = [.string parts] ∧ decode parts = .ok text ∧
        known.lookup text = some p.1 ∧ p.2 = hasContent := by
  have hlookup (text : String) : Takes (variant.choose known hasContent text) fun us p =>
      us = [] ∧ known.lookup text = some p.1 ∧ p.2 = hasContent := by
    unfold variant.choose
    cases hknown : known.lookup text with
    | none =>
        refine (takes_refuse _).congr fun us p => ?_
        simp
    | some a =>
        refine (takes_pure (a, hasContent)).congr fun us p => ?_
        simp only [Option.some.injEq, Prod.ext_iff]
        constructor
        · intro hr
          obtain ⟨hus, ha, hp⟩ := hr
          exact ⟨hus, ha.symm, hp⟩
        · intro hr
          obtain ⟨hus, ha, hp⟩ := hr
          exact ⟨hus, ha.symm, hp⟩
  refine (takes_bind h hlookup).congr fun us p => ?_
  constructor
  · intro hr
    obtain ⟨text, _, _, rfl, ⟨parts, rfl, htext⟩, rfl, h⟩ := hr
    exact ⟨parts, text, rfl, htext, h⟩
  · intro hr
    obtain ⟨parts, text, rfl, htext, h⟩ := hr
    exact ⟨text, _, [], rfl, ⟨parts, rfl, htext⟩, rfl, h⟩

/-- A variant is named alone, or as the name of the first member of an object. -/
theorem takes_variant (badName : BadName) (known : List (String × α)) :
    Takes (variant badName known) fun us p =>
      ∃ parts text, decode parts = .ok text ∧ known.lookup text = some p.1 ∧
        us = if p.2 then [.openBrace, .string parts] else [.string parts] := by
  have hcontent := (takesString_variantName badName).choose known true
  have hname := takesString_name.choose known false
  intro ts p rest
  constructor
  · intro h
    unfold variant at h
    split at h
    · obtain ⟨us, rfl, parts, text, rfl, htext, hlookup, hp⟩ := (hcontent _ _ _).1 h
      exact ⟨[.openBrace, .string parts], rfl, parts, text, htext, hlookup, by rw [hp]; rfl⟩
    · obtain ⟨us, rfl, parts, text, rfl, htext, hlookup, hp⟩ := (hname _ _ _).1 h
      exact ⟨[.string parts], rfl, parts, text, htext, hlookup, by rw [hp]; rfl⟩
  · intro h
    obtain ⟨us, rfl, parts, text, htext, hlookup, rfl⟩ := h
    cases hp : p.2 with
    | true =>
        exact (hcontent _ _ _).2 ⟨_, rfl, parts, text, rfl, htext, hlookup, hp⟩
    | false =>
        exact (hname _ _ _).2 ⟨_, rfl, parts, text, rfl, htext, hlookup, hp⟩

/-- Behind a variant without content there is nothing, or `null` up to the closing brace. -/
theorem takes_unitContent (p : α × Bool) :
    Takes
      (do
        if p.2 then
          punctuation .colon
          unit
          punctuation .closeBrace
        return p.1)
      fun us a => us = (if p.2 then [.colon, .null, .closeBrace] else []) ∧ a = p.1 := by
  obtain ⟨a, hasContent⟩ := p
  cases hasContent with
  | false => exact takes_pure a
  | true =>
      have hend := takes_bind (takes_punctuation .closeBrace) fun _ => takes_pure a
      have hunit := takes_bind reads_unit fun _ => hend
      refine (takes_bind (takes_punctuation .colon) fun _ => hunit).congr fun us b => ?_
      constructor
      · intro h
        obtain ⟨_, _, _, rfl, rfl, _, _, _, rfl, ⟨v, rfl, rfl⟩, _, _, _, rfl, rfl, rfl, hb⟩ := h
        exact ⟨rfl, hb⟩
      · intro h
        obtain ⟨rfl, hb⟩ := h
        exact ⟨(), [.colon], _, rfl, rfl, (), [.null], _, rfl, ⟨.null, rfl, rfl⟩, (),
          [.closeBrace], [], rfl, rfl, rfl, hb⟩

theorem reads_unitVariant (badName : BadName) (known : List (String × α)) :
    Reads (unitVariant badName known) fun v a =>
      ∃ parts text, decode parts = .ok text ∧ known.lookup text = some a ∧
        (v = .string parts ∨ v = .object [(parts, .null)]) := by
  refine (takes_bind (takes_variant badName known) takes_unitContent).congr fun us a => ?_
  constructor
  · intro h
    obtain ⟨⟨b, hasContent⟩, _, _, rfl, ⟨parts, text, htext, hlookup, rfl⟩, rfl, rfl⟩ := h
    cases hasContent with
    | false => exact ⟨.string parts, rfl, parts, text, htext, hlookup, .inl rfl⟩
    | true => exact ⟨.object [(parts, .null)], rfl, parts, text, htext, hlookup, .inr rfl⟩
  · intro h
    obtain ⟨v, rfl, parts, text, htext, hlookup, rfl | rfl⟩ := h
    · exact ⟨(a, false), _, [], rfl, ⟨parts, text, htext, hlookup, rfl⟩, rfl, rfl⟩
    · exact ⟨(a, true), [.openBrace, .string parts], _, rfl, ⟨parts, text, htext, hlookup, rfl⟩,
        rfl, rfl⟩

/-! ## Members -/

/-- Behind a name the reader takes the colon and a value `v`, and goes from `s` to an `s'` with
`S s text v s'`. -/
def ReadsMember (member : σ → String → Reader σ) (S : σ → String → Value → σ → Prop) : Prop :=
  ∀ s text, Takes (member s text) fun us s' => ∃ v : Value, us = .colon :: v.tokens ∧ S s text v s'

/-- What a reader of members gathers, a member at a time. -/
def Gathers (S : σ → String → Value → σ → Prop) : σ → List Member → σ → Prop
  | s, [], s' => s' = s
  | s, (parts, v) :: ms, s' =>
      ∃ text next, decode parts = .ok text ∧ S s text v next ∧ Gathers S next ms s'

variable {member : σ → String → Reader σ} {S : σ → String → Value → σ → Prop}

theorem takes_oneMember (h : ReadsMember member S) (s : σ) :
    Takes (oneMember member s) fun us s' => ∃ parts, ∃ v : Value, ∃ text,
      us = .string parts :: .colon :: v.tokens ∧ decode parts = .ok text ∧ S s text v s' := by
  refine (takes_bind takesString_name (h s)).congr fun us s' => ?_
  constructor
  · intro hr
    obtain ⟨text, _, _, rfl, ⟨parts, rfl, htext⟩, v, rfl, hS⟩ := hr
    exact ⟨parts, v, text, rfl, htext, hS⟩
  · intro hr
    obtain ⟨parts, v, text, rfl, htext, hS⟩ := hr
    exact ⟨text, [.string parts], _, rfl, ⟨parts, rfl, htext⟩, v, rfl, hS⟩

/-- With more rounds than tokens the rounds do not matter. -/
theorem moreMembers_eq_ok_iff (h : ReadsMember member S) {rounds : Nat} {s s' : σ}
    {ts rest : List Token} (hrounds : ts.length < rounds) :
    moreMembers member rounds s ts = .ok (s', rest) ↔
      ∃ ms, ts = moreMemberTokens ms ++ rest ∧ Gathers S s ms s' := by
  -- Each round takes three tokens at least, so the tokens that are left stay below the rounds.
  induction rounds generalizing s ts with
  | zero => omega
  | succ rounds ih =>
      constructor
      · intro hread
        unfold moreMembers at hread
        split at hread
        · cases hread
        · cases hread
          exact ⟨[], rfl, rfl⟩
        · next ts =>
            split at hread
            · cases hread
            · next next ts' hone =>
                have hmember := (takes_oneMember h s _ _ _).1 hone
                obtain ⟨_, rfl, parts, v, text, rfl, htext, hS⟩ := hmember
                have hlt : ts'.length < rounds := by
                  simp only [List.length_append, List.length_cons] at hrounds
                  omega
                obtain ⟨ms, rfl, hms⟩ := (ih hlt).1 hread
                exact ⟨(parts, v) :: ms, (moreMemberTokens_cons_append parts v ms rest).symm, text,
                  next, htext, hS, hms⟩
        · cases hread
      · intro hr
        obtain ⟨ms, rfl, hms⟩ := hr
        cases ms with
        | nil =>
            cases hms
            rfl
        | cons m ms =>
            obtain ⟨parts, v⟩ := m
            obtain ⟨text, next, htext, hS, hms⟩ := hms
            have hone := (takes_oneMember h s _ next (moreMemberTokens ms ++ rest)).2
              ⟨_, rfl, parts, v, text, rfl, htext, hS⟩
            rw [List.cons_append, List.cons_append] at hone
            rw [moreMemberTokens_cons_append] at hrounds ⊢
            have hlt : (moreMemberTokens ms ++ rest).length < rounds := by
              simp only [List.length_append, List.length_cons] at hrounds ⊢
              omega
            simp only [moreMembers, hone]
            exact (ih hlt).2 ⟨ms, rfl, hms⟩

theorem takes_members (h : ReadsMember member S) (s : σ) :
    Takes (members member s) fun us s' => ∃ ms, us = memberTokens ms ∧ Gathers S s ms s' := by
  intro ts s' rest
  constructor
  · intro hread
    unfold members at hread
    split at hread
    · cases hread
      exact ⟨_, rfl, [], rfl, rfl⟩
    · obtain ⟨⟨next, ts'⟩, hone, hmore⟩ := bind_eq_ok_iff.1 hread
      obtain ⟨_, rfl, parts, v, text, rfl, htext, hS⟩ := (takes_oneMember h s _ _ _).1 hone
      obtain ⟨ms, rfl, hms⟩ := (moreMembers_eq_ok_iff h (Nat.lt_succ_self _)).1 hmore
      exact ⟨memberTokens ((parts, v) :: ms), (memberTokens_cons_append parts v ms rest).symm, _,
        rfl, text, next, htext, hS, hms⟩
  · intro hr
    obtain ⟨_, rfl, ms, rfl, hms⟩ := hr
    cases ms with
    | nil =>
        cases hms
        rfl
    | cons m ms =>
        obtain ⟨parts, v⟩ := m
        obtain ⟨text, next, htext, hS, hms⟩ := hms
        have hone := (takes_oneMember h s _ next (moreMemberTokens ms ++ rest)).2
          ⟨_, rfl, parts, v, text, rfl, htext, hS⟩
        rw [memberTokens_cons_append]
        refine bind_eq_ok_iff.2 ⟨(next, moreMemberTokens ms ++ rest), hone, ?_⟩
        exact (moreMembers_eq_ok_iff h (Nat.lt_succ_self _)).2 ⟨ms, rfl, hms⟩

theorem takes_freshMember {value : Reader α} {R : Value → α → Prop} (h : Reads value R)
    (field : String) (before : Option α) :
    Takes (freshMember field before value) fun us a =>
      before = none ∧ ∃ v : Value, us = .colon :: v.tokens ∧ R v a := by
  cases before with
  | some b =>
      intro ts a rest
      constructor
      · intro hread
        cases hread
      · intro hr
        obtain ⟨_, -, hnone, -⟩ := hr
        cases hnone
  | none =>
      refine (takes_bind (takes_punctuation .colon) fun _ => h).congr fun us a => ?_
      constructor
      · intro hr
        obtain ⟨_, _, _, rfl, rfl, v, rfl, hR⟩ := hr
        exact ⟨rfl, v, rfl, hR⟩
      · intro hr
        obtain ⟨-, v, rfl, hR⟩ := hr
        exact ⟨(), [.colon], _, rfl, rfl, v, rfl, hR⟩

theorem takes_required (field : String) (o : Option α) :
    Takes (required field o) fun us a => us = [] ∧ o = some a := by
  cases o with
  | none =>
      refine (takes_refuse _).congr fun us a => ?_
      simp
  | some b =>
      refine (takes_pure b).congr fun us a => ?_
      rw [Option.some.injEq, eq_comm (a := a)]

/-! ## Elements -/

/-- The reader takes elements behind an open bracket, with the closing one. -/
def TakesElements (r : Reader α) (E : List Value → α → Prop) : Prop :=
  Takes r fun us a => ∃ vs, us = elementTokens vs ∧ E vs a

/-- The reader takes elements that follow another, with the closing bracket. -/
def TakesMore (r : Reader α) (E : List Value → α → Prop) : Prop :=
  Takes r fun us a => ∃ vs, us = moreElementTokens vs ∧ E vs a

/-- What a reader makes of a place for one value, which may be left empty. -/
def Slot (R : Value → α → Prop) (slot : List Value) (o : Option α) : Prop :=
  slot = [] ∧ o = none ∨ ∃ v a, slot = [v] ∧ R v a ∧ o = some a

theorem slot_nil_iff {R : Value → α → Prop} {o : Option α} : Slot R [] o ↔ o = none := by
  simp [Slot]

theorem slot_singleton_iff {R : Value → α → Prop} {v : Value} {o : Option α} :
    Slot R [v] o ↔ ∃ a, R v a ∧ o = some a := by
  simp [Slot]

theorem takesMore_closeBracket (a : α) :
    TakesMore (do punctuation .closeBracket; return a) fun vs b => vs = [] ∧ b = a := by
  refine (takes_bind (takes_punctuation .closeBracket) fun _ => takes_pure a).congr fun us b => ?_
  constructor
  · intro h
    obtain ⟨_, _, _, rfl, rfl, rfl, rfl⟩ := h
    exact ⟨[], rfl, rfl, rfl⟩
  · intro h
    obtain ⟨_, rfl, rfl, rfl⟩ := h
    exact ⟨(), [.closeBracket], [], rfl, rfl, rfl, rfl⟩

theorem bind_apply_eq_ok_iff {r : Reader α} {k : α → Reader β} {ts : List Token}
    {p : β × List Token} :
    (r >>= k) ts = .ok p ↔ ∃ q, r ts = .ok q ∧ k q.1 q.2 = .ok p :=
  bind_eq_ok_iff

theorem some_map_apply_eq_ok_iff {r : Reader α} {ts : List Token} {p : Option α × List Token} :
    (some <$> r) ts = .ok p ↔ ∃ q, r ts = .ok q ∧ p = (some q.1, q.2) := by
  change (r ts >>= fun q => .ok (some q.1, q.2)) = _ ↔ _
  rw [bind_eq_ok_iff]
  simp only [Except.ok.injEq, eq_comm]

/-- The reader takes a value as `form` writes it, or nothing before a closing bracket. -/
def TakesSlot (r : Reader (Option α)) (R : Value → α → Prop) (form : Value → List Token) : Prop :=
  ∀ ts o rest, r ts = .ok (o, rest) ↔
    (o = none ∧ rest = ts ∧ ∃ ts', ts = .closeBracket :: ts') ∨
      ∃ v a, o = some a ∧ R v a ∧ ts = form v ++ rest

theorem takesSlot_nextElement {value : Reader α} {R : Value → α → Prop} (h : Reads value R) :
    TakesSlot (nextElement value) R fun v => .comma :: v.tokens := by
  intro ts o rest
  constructor
  · intro hnext
    unfold nextElement at hnext
    split at hnext
    · cases hnext
    · next ts' =>
        cases hnext
        exact .inl ⟨rfl, rfl, ts', rfl⟩
    · obtain ⟨⟨a, ts'⟩, hvalue, heq⟩ := some_map_apply_eq_ok_iff.1 hnext
      cases heq
      obtain ⟨_, rfl, v, rfl, hR⟩ := (h _ _ _).1 hvalue
      exact .inr ⟨v, a, rfl, hR, rfl⟩
    · cases hnext
  · intro hr
    rcases hr with ⟨rfl, rfl, ts', rfl⟩ | ⟨v, a, rfl, hR, rfl⟩
    · rfl
    · have hvalue := (h _ a rest).2 ⟨_, rfl, v, rfl, hR⟩
      exact some_map_apply_eq_ok_iff.2 ⟨_, hvalue, rfl⟩

theorem firstElement_of_ne {value : Reader α} {ts : List Token}
    (h : ∀ ts', ts ≠ .closeBracket :: ts') : firstElement value ts = (some <$> value) ts := by
  unfold firstElement
  split
  · next ts' => exact absurd rfl (h ts')
  · rfl

theorem takesSlot_firstElement {value : Reader α} {R : Value → α → Prop} (h : Reads value R) :
    TakesSlot (firstElement value) R Value.tokens := by
  intro ts o rest
  constructor
  · intro hfirst
    unfold firstElement at hfirst
    split at hfirst
    · next ts' =>
        cases hfirst
        exact .inl ⟨rfl, rfl, ts', rfl⟩
    · obtain ⟨⟨a, ts'⟩, hvalue, heq⟩ := some_map_apply_eq_ok_iff.1 hfirst
      cases heq
      obtain ⟨_, rfl, v, rfl, hR⟩ := (h _ _ _).1 hvalue
      exact .inr ⟨v, a, rfl, hR, rfl⟩
  · intro hr
    rcases hr with ⟨rfl, rfl, ts', rfl⟩ | ⟨v, a, rfl, hR, rfl⟩
    · rfl
    · have hvalue := (h _ a rest).2 ⟨_, rfl, v, rfl, hR⟩
      rw [firstElement_of_ne (v.tokens_append_ne_closeBracket _)]
      exact some_map_apply_eq_ok_iff.2 ⟨_, hvalue, rfl⟩

/-- Without an element the closing bracket stays, and the reader behind finds no more elements. -/
theorem takes_slot_bind {r : Reader (Option α)} {R : Value → α → Prop} {form : Value → List Token}
    {tokensOf : List Value → List Token} (h : TakesSlot r R form)
    (hnil : tokensOf [] = [.closeBracket])
    (hcons : ∀ v vs rest, tokensOf (v :: vs) ++ rest = form v ++ (moreElementTokens vs ++ rest))
    {k : Option α → Reader β} {E : Option α → List Value → β → Prop}
    (hk : ∀ o, TakesMore (k o) (E o)) :
    Takes (r >>= k) fun us b => ∃ vs, us = tokensOf vs ∧
      ∃ o, Slot R vs.head?.toList o ∧ E o vs.tail b := by
  intro ts b rest
  rw [bind_apply_eq_ok_iff]
  constructor
  · intro hr
    obtain ⟨⟨o, ts'⟩, hslot, hread⟩ := hr
    obtain ⟨_, hts', vs, rfl, hE⟩ := (hk o _ _ _).1 hread
    change ts' = _ at hts'
    rcases (h _ _ _).1 hslot with ⟨rfl, rfl, ts, rfl⟩ | ⟨v, a, rfl, hR, rfl⟩
    · cases vs with
      | nil =>
          refine ⟨_, ?_, [], rfl, none, slot_nil_iff.2 rfl, hE⟩
          rw [hts', hnil]
          rfl
      | cons v vs => cases hts'
    · refine ⟨_, ?_, v :: vs, rfl, some a, slot_singleton_iff.2 ⟨a, hR, rfl⟩, hE⟩
      rw [hcons, hts']
  · intro hr
    obtain ⟨_, rfl, vs, rfl, o, hslot, hE⟩ := hr
    cases vs with
    | nil =>
        cases slot_nil_iff.1 hslot
        rw [hnil]
        exact ⟨_, (h _ _ _).2 (.inl ⟨rfl, rfl, rest, rfl⟩), (hk none _ _ _).2 ⟨_, rfl, [], rfl, hE⟩⟩
    | cons v vs =>
        obtain ⟨a, hR, rfl⟩ := slot_singleton_iff.1 hslot
        rw [hcons]
        exact ⟨_, (h _ _ _).2 (.inr ⟨v, a, rfl, hR, rfl⟩), (hk _ _ _ _).2 ⟨_, rfl, vs, rfl, hE⟩⟩

theorem takesMore_nextElement {value : Reader α} {R : Value → α → Prop} (h : Reads value R)
    {k : Option α → Reader β} {E : Option α → List Value → β → Prop}
    (hk : ∀ o, TakesMore (k o) (E o)) :
    TakesMore (nextElement value >>= k) fun vs b =>
      ∃ o, Slot R vs.head?.toList o ∧ E o vs.tail b :=
  takes_slot_bind (takesSlot_nextElement h) rfl moreElementTokens_cons_append hk

theorem takesElements_firstElement {value : Reader α} {R : Value → α → Prop} (h : Reads value R)
    {k : Option α → Reader β} {E : Option α → List Value → β → Prop}
    (hk : ∀ o, TakesMore (k o) (E o)) :
    TakesElements (firstElement value >>= k) fun vs b =>
      ∃ o, Slot R vs.head?.toList o ∧ E o vs.tail b :=
  takes_slot_bind (takesSlot_firstElement h) rfl elementTokens_cons_append hk

/-! ## Values in an array or an object -/

/-- A reader that goes on inside an array or an object and refuses everything else. -/
def enclosed (elements members : Reader α) (wanted : String) : Reader α
  | .openBrace :: ts => members ts
  | .openBracket :: ts => elements ts
  | ts => wrongType wanted ts

theorem reads_enclosed {elements members : Reader α} {E : List Value → α → Prop}
    {M : List Member → α → Prop} (helements : TakesElements elements E)
    (hmembers : Takes members fun us a => ∃ ms, us = memberTokens ms ∧ M ms a) (wanted : String) :
    Reads (enclosed elements members wanted) fun v a =>
      match v with
      | .array vs => E vs a
      | .object ms => M ms a
      | _ => False := by
  intro ts a rest
  constructor
  · intro h
    unfold enclosed at h
    split at h
    · obtain ⟨_, rfl, ms, rfl, hM⟩ := (hmembers _ _ _).1 h
      exact ⟨_, rfl, .object ms, rfl, hM⟩
    · obtain ⟨_, rfl, vs, rfl, hE⟩ := (helements _ _ _).1 h
      exact ⟨_, rfl, .array vs, rfl, hE⟩
    · exact absurd h (wrongType_ne_ok _ _ _)
  · intro hr
    obtain ⟨_, rfl, v, rfl, hv⟩ := hr
    cases v with
    | array vs => exact (helements _ _ _).2 ⟨_, rfl, vs, rfl, hv⟩
    | object ms => exact (hmembers _ _ _).2 ⟨_, rfl, ms, rfl, hv⟩
    | null | bool | number | string => exact hv.elim

/-! ## Texts -/

/-- The value of a whole text. -/
theorem readAll_eq_ok_iff {r : Reader α} {R : Value → α → Prop} (h : Reads r R) (text : String)
    (a : α) :
    readAll r text = .ok a ↔ ∃ v : Value, Layout v.tokens text.toList ∧ R v a := by
  have hreader : readAll r text = .ok a ↔ r (Json.tokens text.toList) = .ok (a, []) := by
    unfold readAll
    cases hr : r (Json.tokens text.toList) with
    | error fault => simp
    | ok p =>
        obtain ⟨b, rest⟩ := p
        cases rest <;> simp
  rw [hreader, h]
  constructor
  · intro hr
    obtain ⟨_, hts, v, rfl, hR⟩ := hr
    rw [List.append_nil] at hts
    exact ⟨v, (tokens_eq_iff v _).1 hts, hR⟩
  · intro hr
    obtain ⟨v, hlayout, hR⟩ := hr
    exact ⟨v.tokens, by rw [List.append_nil, (tokens_eq_iff v _).2 hlayout], v, rfl, hR⟩

end DigitiserSums.Json.Reader
