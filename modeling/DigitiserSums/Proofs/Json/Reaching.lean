import DigitiserSums.Proofs.Json.Contexts
import DigitiserSums.Proofs.Json.Readers
import DigitiserSums.Proofs.Json.Steady

/-!
# Readers within readers

A reader of an object or an array comes, behind the tokens it has taken, to the readers of the parts.
What a part is refused for there, the whole is refused for, whatever tokens follow.
-/

namespace DigitiserSums.Json.Reader

variable {α β γ σ : Type}

/-- Behind the tokens `front` the reader `r` comes to the reader `q`, and any fault of `q` there is a
fault of `r`. -/
def Reaches (r : Reader α) (front : List Token) (q : Reader β) : Prop :=
  ∀ ts fault, q ts = .error fault → r (front ++ ts) = .error fault

section Row

variable {r : Reader α} {q : Reader β} {p : Reader γ} {front front' : List Token}

theorem reaches_refl (r : Reader α) : r.Reaches [] r :=
  fun _ _ => id

theorem Reaches.trans (h : r.Reaches front q) (h' : q.Reaches front' p) :
    r.Reaches (front ++ front') p := by
  intro ts fault hp
  rw [List.append_assoc]
  exact h _ _ (h' ts fault hp)

theorem Reaches.bind (h : r.Reaches front q) (k : α → Reader γ) : (r >>= k).Reaches front q :=
  fun ts fault hq => bind_apply_of_error (h ts fault hq) k

theorem Reaches.map (f : α → γ) (h : r.Reaches front q) : (f <$> r).Reaches front q :=
  h.bind fun a => pure (f a)

theorem Takes.run {T : List Token → α → Prop} {us : List Token} {a : α} (h : Takes r T)
    (hT : T us a) (ts : List Token) : r (us ++ ts) = .ok (a, ts) :=
  (h _ _ _).2 ⟨us, rfl, hT⟩

/-- What a reader has taken brings on what follows it. -/
theorem reaches_of_ok {a : α} (h : ∀ ts, r (front ++ ts) = .ok (a, ts)) (k : α → Reader β) :
    (r >>= k).Reaches front (k a) := by
  intro ts fault hk
  rw [bind_apply_of_ok (h ts) k]
  exact hk

theorem reaches_punctuation (t : Token) (r : Reader α) :
    (punctuation t >>= fun _ => r).Reaches [t] r :=
  reaches_of_ok (a := ()) ((takes_punctuation t).run rfl) fun _ => r

theorem reaches_freshMember (field : String) (value : Reader α) :
    (freshMember field none value).Reaches [.colon] value :=
  reaches_punctuation .colon value

/-! ## Elements -/

theorem reaches_firstElement {t : Token} (ht : t ≠ .closeBracket)
    (h : r.Reaches (t :: front) q) : (firstElement r).Reaches (t :: front) q := by
  intro ts fault hq
  have hne : ∀ ts', t :: (front ++ ts) ≠ .closeBracket :: ts' := by
    intro ts' heq
    exact ht (List.cons.inj heq).1
  rw [List.cons_append, firstElement_of_ne hne]
  exact h.map some ts fault hq

theorem reaches_nextElement (value : Reader α) : (nextElement value).Reaches [.comma] value :=
  (reaches_refl value).map some

end Row

/-! ## Members -/

section Members

variable {member : σ → String → Reader σ} {S : σ → String → Value → σ → Prop} {s s' : σ}

theorem gathers_append_iff {before after : List Member} :
    Gathers S s (before ++ after) s' ↔
      ∃ next, Gathers S s before next ∧ Gathers S next after s' := by
  induction before generalizing s with
  | nil => simp [Gathers]
  | cons m before ih =>
      obtain ⟨parts, v⟩ := m
      constructor
      · intro h
        obtain ⟨text, first, htext, hfirst, hrest⟩ := h
        obtain ⟨next, hbefore, hafter⟩ := ih.1 hrest
        exact ⟨next, ⟨text, first, htext, hfirst, hbefore⟩, hafter⟩
      · intro h
        obtain ⟨next, ⟨text, first, htext, hfirst, hbefore⟩, hafter⟩ := h
        exact ⟨text, first, htext, hfirst, ih.2 ⟨next, hbefore, hafter⟩⟩

theorem oneMember_error {text : String} {parts : List StringPart} {ts : List Token}
    {fault : Fault} (htext : decode parts = .ok text) (h : member s text ts = .error fault) :
    oneMember member s (.string parts :: ts) = .error fault := by
  have hname := takesString_name.run ⟨parts, rfl, htext⟩ ts
  exact (bind_apply_of_ok hname (member s)).trans h

/-- Members that are gathered leave rounds enough for the one that is refused behind them. -/
theorem moreMembers_error (hmember : ReadsMember member S) {text : String}
    {parts : List StringPart} {ts : List Token} {fault : Fault} (htext : decode parts = .ok text)
    {before : List Member} {rounds : Nat} (hbefore : Gathers S s before s')
    (h : member s' text ts = .error fault)
    (hrounds : (Token.comma :: (membersBefore before ++ .string parts :: ts)).length < rounds) :
    moreMembers member rounds s (.comma :: (membersBefore before ++ .string parts :: ts)) =
      .error fault := by
  induction before generalizing s rounds with
  | nil =>
      cases hbefore
      cases rounds with
      | zero => omega
      | succ rounds =>
          change moreMembers member (rounds + 1) _ (.comma :: .string parts :: ts) = _
          simp only [moreMembers, oneMember_error htext h]
  | cons m before ih =>
      obtain ⟨name, v⟩ := m
      obtain ⟨first, next, hfirst, hS, hbefore⟩ := hbefore
      cases rounds with
      | zero => omega
      | succ rounds =>
          have hone := (takes_oneMember hmember s).run ⟨name, v, first, rfl, hfirst, hS⟩
            (.comma :: (membersBefore before ++ .string parts :: ts))
          rw [membersBefore] at hrounds ⊢
          simp only [List.cons_append, List.append_assoc, List.length_cons, List.length_append]
            at hone hrounds ⊢
          simp only [moreMembers, hone]
          exact ih hbefore (by simp only [List.length_cons, List.length_append]; omega)

/-- The reader of members comes, behind any that it gathers and a name, to the rest of the member. -/
theorem reaches_members (hmember : ReadsMember member S) {before : List Member}
    (hbefore : Gathers S s before s') {parts : List StringPart} {text : String}
    (htext : decode parts = .ok text) :
    (members member s).Reaches (membersBefore before ++ [.string parts]) (member s' text) := by
  intro ts fault h
  rw [List.append_assoc, List.singleton_append]
  cases before with
  | nil =>
      cases hbefore
      exact bind_eq_error_iff.2 (.inl (oneMember_error htext h))
  | cons m before =>
      obtain ⟨name, v⟩ := m
      obtain ⟨first, next, hfirst, hS, hbefore⟩ := hbefore
      have hone := (takes_oneMember hmember s).run ⟨name, v, first, rfl, hfirst, hS⟩
        (.comma :: (membersBefore before ++ .string parts :: ts))
      rw [membersBefore]
      simp only [List.cons_append, List.append_assoc] at hone ⊢
      refine bind_eq_error_iff.2 (.inr ⟨_, hone, ?_⟩)
      exact moreMembers_error hmember htext hbefore h (Nat.lt_succ_self _)

end Members

end DigitiserSums.Json.Reader
