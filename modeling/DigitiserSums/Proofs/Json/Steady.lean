import DigitiserSums.Proofs.Json.Cuts
import DigitiserSums.Proofs.Json.Readers

/-!
# Readers when the text goes on

What a reader says about a text, it says about every text that goes on from there: a value stays
read by the same tokens, and a fault stays the same fault. Only where the text ended too early may
anything happen. If it ended inside a number, that number may at worst be malformed, and is never of
the wrong kind.
-/

namespace DigitiserSums.Json

theorem continues_append (ts more : List Token) : Continues ts (ts ++ more) := by
  induction ts with
  | nil => exact .nil more
  | cons t ts ih => exact .cons t ih

theorem Token.Becomes.not_isSound {t t' : Token} (h : t.Becomes t') : ¬ t.IsSound := by
  cases h <;> exact id

/-- Punctuation. -/
def Token.IsMark : Token → Prop
  | .openBrace | .closeBrace | .openBracket | .closeBracket | .colon | .comma => True
  | _ => False

theorem Token.IsMark.isSound {t : Token} (h : t.IsMark) : t.IsSound := by
  cases t <;> trivial

theorem Token.IsMark.ne_number {t : Token} (h : t.IsMark) (n : Numeral) : .number n ≠ t := by
  intro heq
  subst heq
  exact h

theorem Token.Becomes.not_isMark {t t' : Token} (h : t.Becomes t') : ¬ t'.IsMark := by
  cases h with
  | @word t' h => cases t' <;> first | exact id | exact h.elim
  | _ => exact id

theorem Continues.ne_nil {ts ts' : List Token} (h : Continues ts ts') (hts : ts ≠ []) :
    ts' ≠ [] := by
  cases h with
  | nil _ => exact absurd rfl hts
  | becomes _ _ => exact List.cons_ne_nil _ _
  | cons _ _ => exact List.cons_ne_nil _ _

/-- A whole token stays at the front. -/
theorem Continues.head?_eq {t : Token} {ts ts' : List Token} (h : Continues (t :: ts) ts')
    (ht : t.IsSound) : ts'.head? = some t := by
  cases h with
  | becomes _ h => exact absurd ht h.not_isSound
  | cons _ _ => rfl

namespace Reader

variable {α β : Type}

/-- The reader asks for more than the tokens `ts` and `x`, or takes the number `x` for the end of
its value. -/
def Tolerates (r : Reader α) (ts : List Token) (x : Token) : Prop :=
  r (ts ++ [x]) = .error .ended ∨ r (ts ++ [x]) = .error .malformed ∨
    ∃ m a, x = .number m ∧ r (ts ++ [x]) = .ok (a, [])

/-- What the reader says about the tokens `ts` holds of a text that goes on from there. -/
structure SteadyAt (r : Reader α) (ts : List Token) : Prop where
  /-- A value stays read, by the same tokens. -/
  ok {a : α} {rest ts' : List Token} : r ts = .ok (a, rest) → Continues ts ts' →
    ∃ us rest', ts = us ++ rest ∧ ts' = us ++ rest' ∧ Continues rest rest' ∧
      r ts' = .ok (a, rest')
  /-- A fault stays, unless the text ended. -/
  error {fault : Fault} {ts' : List Token} : r ts = .error fault → fault ≠ .ended →
    Continues ts ts' → r ts' = .error fault
  /-- Where a number is taken, what a cut leaves of it is not refused. -/
  torn {n : Numeral} {x : Token} {back : List Token} {p : α × List Token} :
    r ts = .error .ended → x.TornFrom n → r (ts ++ .number n :: back) = .ok p → r.Tolerates ts x

def Steady (r : Reader α) : Prop :=
  ∀ ts, r.SteadyAt ts

/-- At the end of the text the reader asks for more or is done. -/
def Patient (r : Reader α) : Prop :=
  r [] = .error .ended ∨ ∃ a, r [] = .ok (a, [])

theorem SteadyAt.ok_append {r : Reader α} {ts rest : List Token} {a : α} (h : r.SteadyAt ts)
    (hread : r ts = .ok (a, rest)) (more : List Token) : r (ts ++ more) = .ok (a, rest ++ more) := by
  obtain ⟨us, rest', rfl, hmore, -, hread'⟩ := h.ok hread (continues_append ts more)
  rw [List.append_assoc, List.append_cancel_left_eq] at hmore
  rw [hmore]
  exact hread'

theorem SteadyAt.length_le {r : Reader α} {ts rest : List Token} {a : α} (h : r.SteadyAt ts)
    (hread : r ts = .ok (a, rest)) : rest.length ≤ ts.length := by
  obtain ⟨us, _, rfl, -⟩ := h.ok hread (continues_append ts [])
  rw [List.length_append]
  omega

/-! ## Readers in a row -/

theorem bind_apply_eq_error_iff {r : Reader α} {k : α → Reader β} {ts : List Token} {fault : Fault} :
    (r >>= k) ts = .error fault ↔
      r ts = .error fault ∨ ∃ q, r ts = .ok q ∧ k q.1 q.2 = .error fault :=
  bind_eq_error_iff

theorem bind_apply_of_ok {r : Reader α} {a : α} {ts rest : List Token} (h : r ts = .ok (a, rest))
    (k : α → Reader β) : (r >>= k) ts = k a rest := by
  change (r ts >>= fun q => k q.1 q.2) = _
  rw [h]
  rfl

theorem bind_apply_of_error {r : Reader α} {ts : List Token} {fault : Fault}
    (h : r ts = .error fault) (k : α → Reader β) : (r >>= k) ts = .error fault :=
  bind_apply_eq_error_iff.2 (.inl h)

theorem Tolerates.bind {r : Reader α} {k : α → Reader β} {ts : List Token} {x : Token}
    (h : r.Tolerates ts x)
    (hend : ∀ m a, r (ts ++ [.number m]) = .ok (a, []) → (k a).Patient) :
    (r >>= k).Tolerates ts x := by
  rcases h with h | h | ⟨m, a, rfl, h⟩
  · exact .inl (bind_apply_of_error h k)
  · exact .inr (.inl (bind_apply_of_error h k))
  · unfold Tolerates
    rw [bind_apply_of_ok h k]
    rcases hend m a h with hk | ⟨b, hk⟩
    · exact .inl hk
    · exact .inr (.inr ⟨m, b, rfl, hk⟩)

/-- The second reader must be patient where the first may end with a number. -/
theorem SteadyAt.bind {r : Reader α} {k : α → Reader β} {ts : List Token} (h : r.SteadyAt ts)
    (hk : ∀ a rest, r ts = .ok (a, rest) → (k a).SteadyAt rest)
    (hend : ∀ m a, r (ts ++ [.number m]) = .ok (a, []) → (k a).Patient) :
    (r >>= k).SteadyAt ts where
  ok {b rest ts'} hread hts := by
    obtain ⟨⟨a, mid⟩, hfirst, hsecond⟩ := bind_apply_eq_ok_iff.1 hread
    obtain ⟨us, mid', rfl, rfl, hmid, hfirst'⟩ := h.ok hfirst hts
    obtain ⟨vs, rest', rfl, rfl, hrest, hsecond'⟩ := (hk a mid hfirst).ok hsecond hmid
    refine ⟨us ++ vs, rest', by rw [List.append_assoc], by rw [List.append_assoc], hrest, ?_⟩
    rw [bind_apply_of_ok hfirst', hsecond']
  error {fault ts'} hread hfault hts := by
    rcases bind_apply_eq_error_iff.1 hread with hfirst | ⟨⟨a, mid⟩, hfirst, hsecond⟩
    · exact bind_apply_of_error (h.error hfirst hfault hts) k
    · obtain ⟨us, mid', rfl, rfl, hmid, hfirst'⟩ := h.ok hfirst hts
      rw [bind_apply_of_ok hfirst']
      exact (hk a mid hfirst).error hsecond hfault hmid
  torn {n x back p} hread hx hwhole := by
    rcases bind_apply_eq_error_iff.1 hread with hfirst | ⟨⟨a, mid⟩, hfirst, hsecond⟩
    · -- The first reader still wants a number, or more behind it.
      obtain ⟨q, hfirst', -⟩ := bind_apply_eq_ok_iff.1 hwhole
      exact (h.torn hfirst hx hfirst').bind hend
    · rw [bind_apply_of_ok (h.ok_append hfirst _)] at hwhole
      have hsecond' := (hk a mid hfirst).torn hsecond hx hwhole
      unfold Tolerates
      rw [bind_apply_of_ok (h.ok_append hfirst _)]
      exact hsecond'

theorem Steady.bind {r : Reader α} {k : α → Reader β} (h : r.Steady) (hk : ∀ a, (k a).Steady)
    (hpatient : ∀ a, (k a).Patient) : (r >>= k).Steady :=
  fun ts => (h ts).bind (fun a rest _ => hk a rest) fun _ a _ => hpatient a

/-- No number is the last token that the reader takes. -/
def EndsWithoutNumber (r : Reader α) : Prop :=
  ∀ ts m a, r (ts ++ [.number m]) ≠ .ok (a, [])

theorem Steady.bind_of_endsWithoutNumber {r : Reader α} {k : α → Reader β} (h : r.Steady)
    (hk : ∀ a, (k a).Steady) (hend : r.EndsWithoutNumber) : (r >>= k).Steady :=
  fun ts => (h ts).bind (fun a rest _ => hk a rest) fun m a hread => absurd hread (hend ts m a)

theorem patient_pure (a : α) : (pure a : Reader α).Patient :=
  .inr ⟨a, rfl⟩

theorem steady_pure (a : α) : (pure a : Reader α).Steady := fun ts => {
  ok := fun {b rest ts'} hread hts => by
    cases hread
    exact ⟨[], ts', rfl, rfl, hts, rfl⟩
  error := nofun
  torn := nofun }

theorem steady_refuse (mismatch : Mismatch) : (refuse mismatch : Reader α).Steady := fun ts => {
  ok := nofun
  error := fun hread _ _ => by
    cases hread
    rfl
  torn := nofun }

theorem Steady.bind_pure {r : Reader α} (h : r.Steady) (f : α → β) :
    (r >>= fun a => pure (f a)).Steady :=
  h.bind (fun a => steady_pure (f a)) fun a => patient_pure (f a)

theorem Steady.map {r : Reader α} (f : α → β) (h : r.Steady) : (f <$> r).Steady := by
  rw [map_eq_pure_bind]
  exact h.bind_pure f

/-! ## Readers of one token -/

/-- The reader takes the first token or refuses it, whatever follows. -/
structure TakesOne (r : Reader α) : Prop where
  nil : r [] = .error .ended
  cons (t : Token) (ts : List Token) : r (t :: ts) = (r [t]).map fun p => (p.1, ts)

namespace TakesOne

variable {r : Reader α}

theorem cons_of_ok (h : TakesOne r) {t : Token} {a : α} {rest : List Token}
    (hread : r [t] = .ok (a, rest)) (ts : List Token) : r (t :: ts) = .ok (a, ts) := by
  rw [h.cons, hread]
  rfl

theorem cons_of_error (h : TakesOne r) {t : Token} {fault : Fault}
    (hread : r [t] = .error fault) (ts : List Token) : r (t :: ts) = .error fault := by
  rw [h.cons, hread]
  rfl

theorem rest_eq (h : TakesOne r) {t : Token} {a : α} {ts rest : List Token}
    (hread : r (t :: ts) = .ok (a, rest)) : rest = ts := by
  rw [h.cons] at hread
  obtain ⟨p, -, heq⟩ := map_eq_ok_iff.1 hread
  cases heq
  rfl

/-- A check of the token taken takes no other. -/
theorem bind {k : α → Reader β} (h : TakesOne r)
    (hk : ∀ a ts, k a ts = (k a []).map fun p => (p.1, ts)) : TakesOne (r >>= k) where
  nil := bind_apply_of_error h.nil k
  cons t ts := by
    cases hread : r [t] with
    | error fault =>
        rw [bind_apply_of_error hread, bind_apply_of_error (h.cons_of_error hread ts)]
        rfl
    | ok p =>
        have hrest := h.rest_eq hread
        rw [bind_apply_of_ok hread, bind_apply_of_ok (h.cons_of_ok hread ts), hk, hrest]

/-- A broken token must be refused for good, unless the text ends with it; and no number may be
refused that is left of one taken. -/
theorem steady (h : TakesOne r)
    (hbroken : ∀ t t', t.Becomes t' → r [t] = .error .ended ∨
      ∃ fault, r [t] = .error fault ∧ r [t'] = .error fault)
    (htorn : ∀ n x p, x.TornFrom n → r [.number n] = .ok p → r.Tolerates [] x) : r.Steady := by
  intro ts
  cases ts with
  | nil =>
      refine ⟨fun hread => ?_, fun hread hfault => ?_, fun {n x back p} _ hx hwhole => ?_⟩
      · rw [h.nil] at hread
        cases hread
      · rw [h.nil] at hread
        cases hread
        exact absurd rfl hfault
      · rw [List.nil_append, h.cons] at hwhole
        obtain ⟨q, hread, -⟩ := map_eq_ok_iff.1 hwhole
        exact htorn n x q hx hread
  | cons t ts =>
      refine ⟨fun {a rest ts'} hread hts => ?_, fun {fault ts'} hread hfault hts => ?_,
        fun {n x back p} hread _ hwhole => ?_⟩
      · cases hts with
        | becomes ts' ht =>
            rcases hbroken _ _ ht with hended | ⟨fault, hfault, -⟩
            · rw [hended] at hread
              cases hread
            · rw [hfault] at hread
              cases hread
        | @cons _ _ ts' hts =>
            cases h.rest_eq hread
            rw [h.cons] at hread
            obtain ⟨q, hone, heq⟩ := map_eq_ok_iff.1 hread
            cases heq
            exact ⟨[t], ts', rfl, rfl, hts, h.cons_of_ok hone ts'⟩
      · cases hts with
        | becomes ts' ht =>
            rcases hbroken _ _ ht with hended | ⟨fault', hfault', hread'⟩
            · rw [hended] at hread
              cases hread
              exact absurd rfl hfault
            · rw [hfault'] at hread
              cases hread
              exact h.cons_of_error hread' ts'
        | @cons _ _ ts' hts =>
            rw [h.cons] at hread
            exact h.cons_of_error (map_eq_error_iff.1 hread) ts'
      · rw [h.cons] at hread
        rw [List.cons_append, h.cons_of_error (map_eq_error_iff.1 hread)] at hwhole
        cases hwhole

end TakesOne

/-! ## Looking at the next token -/

/-- Reads with `next` if the next token is `special`, and with `other` otherwise. -/
def ifNext (special : Token) (next other : Reader α) : Reader α := fun ts =>
  if ts.head? = some special then next ts else other ts

section IfNext

variable {special : Token} {next other : Reader α}

theorem ifNext_of_head {ts : List Token} (h : ts.head? = some special) :
    ifNext special next other ts = next ts :=
  if_pos h

theorem ifNext_of_not_head {ts : List Token} (h : ts.head? ≠ some special) :
    ifNext special next other ts = other ts :=
  if_neg h

/-- Where a broken token may become `special`, the other reader has to wait for it. -/
theorem SteadyAt.ifNext {ts : List Token} (hspecial : special.IsSound)
    (hnumber : ∀ n, .number n ≠ special)
    (hbroken : ∀ t, t.Becomes special → other [t] = .error .ended)
    (hnil : other [] = .error .ended) (hnext : ts.head? = some special → next.SteadyAt ts)
    (hother : ts.head? ≠ some special → other.SteadyAt ts) :
    (Reader.ifNext special next other).SteadyAt ts := by
  by_cases hhead : ts.head? = some special
  · have hts : ∀ ts', Continues ts ts' → ts'.head? = some special := by
      intro ts' hts'
      cases ts with
      | nil => cases hhead
      | cons t ts =>
          cases hhead
          exact hts'.head?_eq hspecial
    have happend (x : List Token) := hts _ (continues_append ts x)
    have h := hnext hhead
    refine ⟨fun hread hts' => ?_, fun hread hfault hts' => ?_, fun hread hx hwhole => ?_⟩
    · rw [ifNext_of_head hhead] at hread
      rw [ifNext_of_head (hts _ hts')]
      exact h.ok hread hts'
    · rw [ifNext_of_head hhead] at hread
      rw [ifNext_of_head (hts _ hts')]
      exact h.error hread hfault hts'
    · rw [ifNext_of_head hhead] at hread
      rw [ifNext_of_head (happend _)] at hwhole
      unfold Tolerates
      rw [ifNext_of_head (happend _)]
      exact h.torn hread hx hwhole
  · have h := hother hhead
    have hts : ∀ ts', Continues ts ts' → ts'.head? = some special → other ts = .error .ended := by
      intro ts' hts' hhead'
      cases hts' with
      | nil _ => exact hnil
      | becomes _ ht =>
          cases hhead'
          exact hbroken _ ht
      | cons t _ => exact absurd hhead' hhead
    have happend {x : Token} (hx : x ≠ special) (back : List Token) :
        (ts ++ x :: back).head? ≠ some special := by
      cases ts with
      | nil => exact fun heq => hx (Option.some.inj heq)
      | cons t ts => exact hhead
    refine ⟨fun hread hts' => ?_, fun hread hfault hts' => ?_, fun hread hx hwhole => ?_⟩
    · rw [ifNext_of_not_head hhead] at hread
      rw [ifNext_of_not_head]
      · exact h.ok hread hts'
      · intro hhead'
        rw [hts _ hts' hhead'] at hread
        cases hread
    · rw [ifNext_of_not_head hhead] at hread
      rw [ifNext_of_not_head]
      · exact h.error hread hfault hts'
      · intro hhead'
        rw [hts _ hts' hhead'] at hread
        cases hread
        exact hfault rfl
    · rw [ifNext_of_not_head hhead] at hread
      rw [ifNext_of_not_head (happend (hnumber _) _)] at hwhole
      unfold Tolerates
      rw [ifNext_of_not_head (happend _ _)]
      · exact h.torn hread hx hwhole
      · intro heq
        subst heq
        cases hx with
        | number _ _ => exact hnumber _ rfl
        | broken => exact hspecial

theorem Steady.ifNext (hspecial : special.IsMark) (hnil : other [] = .error .ended)
    (hnext : next.Steady) (hother : other.Steady) : (Reader.ifNext special next other).Steady :=
  fun ts => SteadyAt.ifNext hspecial.isSound hspecial.ne_number
    (fun _ h => absurd hspecial h.not_isMark) hnil (fun _ => hnext ts) fun _ => hother ts

end IfNext

/-! ## Texts -/

/-- A text that is refused before it ends is refused for the same if it goes on with a space. -/
theorem readAll_append_of_error {r : Reader α} (h : r.Steady) {text more : String} {fault : Fault}
    (hread : readAll r text = .error fault) (hfault : fault ≠ .ended)
    (hmore : StartsWithSpace more.toList) : readAll r (text ++ more) = .error fault := by
  have htokens := continues_tokens text.toList hmore
  unfold readAll at hread ⊢
  rw [String.toList_append]
  cases hfirst : r (tokens text.toList) with
  | error fault' =>
      rw [hfirst] at hread
      cases hread
      rw [(h _).error hfirst hfault htokens]
  | ok p =>
      obtain ⟨a, rest⟩ := p
      obtain ⟨us, rest', -, -, hrest, hsecond⟩ := (h _).ok hfirst htokens
      rw [hfirst] at hread
      rw [hsecond]
      -- What stood behind the value still stands there.
      cases rest with
      | nil => cases hread
      | cons t rest =>
          cases hread
          cases rest' with
          | nil => exact absurd rfl (hrest.ne_nil (List.cons_ne_nil t rest))
          | cons t' rest' => rfl

/-- The beginning of a text that is read as a whole asks for more, unless it is read as a whole
itself or is cut inside a number. -/
theorem Steady.cut {r : Reader α} (h : r.Steady) {cs more : List Char} {a : α}
    (hsound : Sound (tokens (cs ++ more))) (hread : r (tokens (cs ++ more)) = .ok (a, [])) :
    r (tokens cs) = .error .ended ∨ r (tokens cs) = .error .malformed ∧ CutsNumber cs more ∨
      ∃ b, r (tokens cs) = .ok (b, []) := by
  rcases tokensUpTo cs hsound with hcontinues | ⟨hcut, ts, n, x, back, hfront, hwhole, hx⟩
  · cases hfirst : r (tokens cs) with
    | error fault =>
        by_cases hfault : fault = .ended
        · exact .inl (by rw [hfault])
        · have hfault' := (h _).error hfirst hfault hcontinues
          rw [hread] at hfault'
          cases hfault'
    | ok p =>
        obtain ⟨b, rest⟩ := p
        obtain ⟨us, rest', -, -, hrest, hread'⟩ := (h _).ok hfirst hcontinues
        rw [hread] at hread'
        cases hread'
        cases hrest
        exact .inr (.inr ⟨_, rfl⟩)
  · rw [hwhole] at hread
    rw [hfront]
    cases hfirst : r ts with
    | ok p =>
        -- What was read before the number would leave the number unread.
        obtain ⟨b, rest⟩ := p
        have hread' := (h ts).ok_append hfirst (.number n :: back)
        rw [hread] at hread'
        have hnil := (Prod.ext_iff.1 (Except.ok.inj hread')).2
        exact absurd hnil.symm (List.append_ne_nil_of_right_ne_nil rest (List.cons_ne_nil _ _))
    | error fault =>
        by_cases hfault : fault = .ended
        · subst hfault
          rcases (h ts).torn hfirst hx hread with htorn | htorn | ⟨m, b, -, htorn⟩
          · exact .inl htorn
          · exact .inr (.inl ⟨htorn, hcut⟩)
          · exact .inr (.inr ⟨b, htorn⟩)
        · have hfault' := (h ts).error hfirst hfault (continues_append ts (.number n :: back))
          rw [hread] at hfault'
          cases hfault'

end Reader

end DigitiserSums.Json
