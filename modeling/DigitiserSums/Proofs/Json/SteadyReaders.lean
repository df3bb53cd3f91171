import DigitiserSums.Proofs.Json.Steady

/-!
# Steady readers

Every reader of JSON values is steady: it keeps its answer when the text goes on. Those of one token
see it from what a broken token may become, and the others from the readers that they are made of.
-/

namespace DigitiserSums.Json.Reader

variable {α β : Type}

/-! ## Scalars -/

/-- A fault among the parts of a string stays, whatever parts follow. -/
theorem decodeParts_append_of_malformed {parts : List StringPart}
    (h : decodeParts (some .ended) parts = .error .malformed) (more : List StringPart)
    (how : Option Break) : decodeParts how (parts ++ more) = .error .malformed := by
  fun_induction decodeParts (some .ended) parts with
  | case1 => cases h
  | case2 c parts ih =>
      rw [List.cons_append, decodeParts, ih (map_eq_error_iff.1 h)]
      rfl
  | case3 u hu => cases h
  | case4 u hu c parts => simp [decodeParts, hu]
  | case5 u hu v parts hv ih =>
      simp only [List.cons_append, decodeParts, hu, hv, if_true]
      rw [ih (map_eq_error_iff.1 h)]
      rfl
  | case6 u hu v parts hv => simp [decodeParts, hu, hv]
  | case7 u parts hu hu' =>
      rw [List.cons_append, decodeParts.eq_def]
      simp [hu, hu']
  | case8 u parts hu hu' ih =>
      rw [List.cons_append, decodeParts.eq_def]
      simp only [hu, hu']
      rw [ih (map_eq_error_iff.1 h)]
      rfl

/-- A broken string has no text because it ended too early, or for a fault that stays whatever
becomes of the string. -/
theorem decodeBroken_ended (parts : List StringPart) :
    decodeBroken parts .ended = .ended ∨ decodeBroken parts .ended = .malformed ∧
      ∀ more, decode (parts ++ more) = .error .malformed ∧
        ∀ how, decodeBroken (parts ++ more) how = .malformed := by
  cases h : decodeParts (some .ended) parts with
  | ok cs => exact .inl (by simp only [decodeBroken, h])
  | error how =>
      cases how with
      | ended => exact .inl (by simp only [decodeBroken, h])
      | malformed =>
          refine .inr ⟨by simp only [decodeBroken, h], fun more => ⟨?_, fun how => ?_⟩⟩
          · rw [decode, decodeParts_append_of_malformed h]
            rfl
          · simp only [decodeBroken, decodeParts_append_of_malformed h]

theorem found_becomes {t t' : Token} (h : t.Becomes t') :
    found [t] = .error .ended ∨ found [t] = .error .malformed ∧ found [t'] = .error .malformed := by
  cases h with
  | word _ => exact .inl rfl
  | number => exact .inl rfl
  | string parts more =>
      rcases decodeBroken_ended parts with hended | ⟨hmalformed, hmore⟩
      · exact .inl (by rw [found, hended]; rfl)
      · exact .inr ⟨by rw [found, hmalformed]; rfl, by rw [found, textOf, (hmore more).1]; rfl⟩
  | brokenString parts more how =>
      rcases decodeBroken_ended parts with hended | ⟨hmalformed, hmore⟩
      · exact .inl (by rw [found, hended]; rfl)
      · exact .inr ⟨by rw [found, hmalformed]; rfl, by rw [found, (hmore more).2]; rfl⟩

theorem found_cons (t : Token) (ts : List Token) : found (t :: ts) = found [t] := by
  cases t <;> rfl

theorem wrongType_eq_of_found {wanted : String} {ts : List Token} {fault : Fault}
    (h : found ts = .error fault) : (wrongType wanted : Reader α) ts = .error fault := by
  simp only [wrongType, h]

theorem takesOne_wrongType (wanted : String) : TakesOne (wrongType wanted : Reader α) where
  nil := rfl
  cons t ts := by
    unfold wrongType
    rw [found_cons t ts]
    cases found [t] <;> rfl

theorem steady_wrongType (wanted : String) : (wrongType wanted : Reader α).Steady := by
  apply (takesOne_wrongType wanted).steady
  · intro t t' ht
    rcases found_becomes ht with hended | ⟨hfound, hfound'⟩
    · exact .inl (wrongType_eq_of_found hended)
    · exact .inr ⟨_, wrongType_eq_of_found hfound, wrongType_eq_of_found hfound'⟩
  · intro n x p _ hread
    exact absurd hread (wrongType_ne_ok _ _ _)

/-- The reader takes some tokens for scalars, among them no strings, and finds the wrong type in
the others. -/
def TakesScalar (r : Reader α) (wanted : String) : Prop :=
  r [] = .error .ended ∧ ∀ t,
    (t.IsSound ∧ (∀ parts, t ≠ .string parts) ∧ ∃ a, ∀ ts, r (t :: ts) = .ok (a, ts)) ∨
      ∀ ts, r (t :: ts) = wrongType wanted (t :: ts)

namespace TakesScalar

variable {r : Reader α} {wanted : String}

theorem takesOne (h : TakesScalar r wanted) : TakesOne r where
  nil := h.1
  cons t ts := by
    rcases h.2 t with ⟨-, -, a, hread⟩ | hread
    · rw [hread, hread]
      rfl
    · rw [hread, hread]
      exact (takesOne_wrongType wanted).cons t ts

theorem wrongType_of_not_isSound (h : TakesScalar r wanted) {t : Token} (ht : ¬ t.IsSound) :
    r [t] = wrongType wanted [t] :=
  ((h.2 t).resolve_left fun hread => ht hread.1) []

theorem wrongType_of_string (h : TakesScalar r wanted) (parts : List StringPart) :
    r [.string parts] = wrongType wanted [.string parts] :=
  ((h.2 _).resolve_left fun hread => hread.2.1 parts rfl) []

/-- A scalar breaks as the finding of a wrong type does. -/
theorem becomes (h : TakesScalar r wanted) {t t' : Token} (ht : t.Becomes t') :
    r [t] = .error .ended ∨ ∃ fault, r [t] = .error fault ∧ r [t'] = .error fault := by
  rw [h.wrongType_of_not_isSound ht.not_isSound]
  rcases found_becomes ht with hended | ⟨hfound, hfound'⟩
  · exact .inl (wrongType_eq_of_found hended)
  · refine .inr ⟨_, wrongType_eq_of_found hfound, ?_⟩
    cases ht with
    | word _ => cases hfound
    | number => cases hfound
    | string parts more => rw [h.wrongType_of_string, wrongType_eq_of_found hfound']
    | brokenString parts more how =>
        rw [h.wrongType_of_not_isSound id, wrongType_eq_of_found hfound']

end TakesScalar

theorem takesScalar_bool : TakesScalar bool "a boolean" := by
  refine ⟨rfl, fun t => ?_⟩
  cases t with
  | bool value => exact .inl ⟨trivial, nofun, value, fun _ => rfl⟩
  | _ => exact .inr fun _ => rfl

theorem takesScalar_unit : TakesScalar unit "unit" := by
  refine ⟨rfl, fun t => ?_⟩
  cases t with
  | null => exact .inl ⟨trivial, nofun, (), fun _ => rfl⟩
  | _ => exact .inr fun _ => rfl

theorem takesScalar_number (wanted : String) : TakesScalar (number wanted) wanted := by
  refine ⟨rfl, fun t => ?_⟩
  cases t with
  | number n =>
      cases h : n.toNumber? with
      | none =>
          refine .inr fun ts => ?_
          simp only [number, wrongType, found, h]
          rfl
      | some value =>
          have hstring (parts : List StringPart) : Token.number n ≠ .string parts := by
            intro heq
            cases heq
          refine .inl ⟨trivial, hstring, value, fun ts => ?_⟩
          simp only [number, h]
  | _ => exact .inr fun _ => rfl

theorem steady_bool : bool.Steady :=
  takesScalar_bool.takesOne.steady (fun _ _ => takesScalar_bool.becomes) fun _ _ _ _ hread =>
    absurd hread (wrongType_ne_ok _ _ _)

theorem steady_unit : unit.Steady :=
  takesScalar_unit.takesOne.steady (fun _ _ => takesScalar_unit.becomes) fun _ _ _ _ hread =>
    absurd hread (wrongType_ne_ok _ _ _)

/-- What is left of a number is a number, or none in range, or broken off. -/
theorem steady_number (wanted : String) : (number wanted).Steady := by
  apply (takesScalar_number wanted).takesOne.steady fun _ _ => (takesScalar_number wanted).becomes
  intro n x p hx _
  cases hx with
  | broken => exact .inl rfl
  | @number m _ _ _ _ =>
      cases hm : m.toNumber? with
      | none => exact .inr (.inl (by simp only [List.nil_append, number, hm]))
      | some value => exact .inr (.inr ⟨m, value, rfl, by simp only [List.nil_append, number, hm]⟩)

theorem takesOne_name : TakesOne name where
  nil := rfl
  cons t ts := by
    cases t with
    | string parts =>
        simp only [name]
        cases textOf parts <;> rfl
    | _ => rfl

theorem steady_name : name.Steady := by
  apply takesOne_name.steady
  · intro t t' h
    cases h with
    | @word t' h =>
        refine .inr ⟨.malformed, rfl, ?_⟩
        cases t' <;> first | rfl | exact h.elim
    | number => exact .inr ⟨.malformed, rfl, rfl⟩
    | string parts more =>
        rcases decodeBroken_ended parts with hended | ⟨hmalformed, hmore⟩
        · exact .inl (by rw [name, hended]; rfl)
        · exact .inr ⟨.malformed, by rw [name, hmalformed]; rfl,
            by rw [name, textOf, (hmore more).1]; rfl⟩
    | brokenString parts more how =>
        rcases decodeBroken_ended parts with hended | ⟨hmalformed, hmore⟩
        · exact .inl (by rw [name, hended]; rfl)
        · exact .inr ⟨.malformed, by rw [name, hmalformed]; rfl, by rw [name, (hmore more).2]; rfl⟩
  · intro n x p _ hread
    cases hread

theorem string_eq_of_found {wanted : String} {ts : List Token} {fault : Fault}
    (h : found ts = .error fault) : string wanted ts = .error fault := by
  unfold string
  split
  · next parts ts =>
      have htext : textOf parts = .error fault := map_eq_error_iff.1 h
      rw [htext]
      rfl
  · exact wrongType_eq_of_found h

theorem takesOne_string (wanted : String) : TakesOne (string wanted) where
  nil := rfl
  cons t ts := by
    have hcases : (∃ parts, t = .string parts) ∨
        ∀ ts, string wanted (t :: ts) = wrongType wanted (t :: ts) := by
      cases t with
      | string parts => exact .inl ⟨parts, rfl⟩
      | _ => exact .inr fun _ => rfl
    rcases hcases with ⟨parts, rfl⟩ | hread
    · simp only [string]
      cases textOf parts <;> rfl
    · rw [hread, hread]
      exact (takesOne_wrongType wanted).cons t ts

theorem steady_string (wanted : String) : (string wanted).Steady := by
  apply (takesOne_string wanted).steady
  · intro t t' ht
    rcases found_becomes ht with hended | ⟨hfound, hfound'⟩
    · exact .inl (string_eq_of_found hended)
    · exact .inr ⟨_, string_eq_of_found hfound, string_eq_of_found hfound'⟩
  · intro n x p _ hread
    exact absurd hread (wrongType_ne_ok _ _ _)

theorem takesOne_punctuation (mark : Token) : TakesOne (punctuation mark) where
  nil := rfl
  cons t ts := by
    simp only [punctuation]
    split <;> rfl

theorem steady_punctuation (mark : Token) (h : mark.IsMark) : (punctuation mark).Steady := by
  have hother {t : Token} (ht : t ≠ mark) : punctuation mark [t] = .error .malformed := if_neg ht
  apply (takesOne_punctuation mark).steady
  · intro t t' ht
    refine .inr ⟨.malformed, hother fun heq => ?_, hother fun heq => ?_⟩
    · subst heq
      exact ht.not_isSound h.isSound
    · subst heq
      exact ht.not_isMark h
  · intro n x p _ hread
    rw [hother (h.ne_number n)] at hread
    cases hread

theorem steadyAt_punctuation_self {t : Token} (ht : t.IsSound) (ts : List Token) :
    (punctuation t).SteadyAt (t :: ts) := by
  have hself (ts : List Token) : punctuation t (t :: ts) = .ok ((), ts) := if_pos rfl
  refine ⟨fun hread hts => ?_, fun hread => ?_, fun hread => ?_⟩
  · rw [hself] at hread
    cases hread
    cases hts with
    | becomes _ h => exact absurd ht h.not_isSound
    | cons _ hts => exact ⟨[t], _, rfl, rfl, hts, hself _⟩
  · rw [hself] at hread
    cases hread
  · rw [hself] at hread
    cases hread

/-! ## The last token taken -/

theorem endsWithoutNumber_of_takes {r : Reader α} {T : List Token → α → Prop} (h : Takes r T)
    (hT : ∀ us a, T us a → ∀ m, us.getLast? ≠ some (.number m)) : r.EndsWithoutNumber := by
  intro ts m a hread
  obtain ⟨us, hus, hread⟩ := (h _ _ _).1 hread
  refine hT us a hread m ?_
  rw [← List.append_nil us, ← hus, List.getLast?_concat]

theorem TakesString.endsWithoutNumber {r : Reader String} (h : TakesString r) :
    r.EndsWithoutNumber := by
  apply endsWithoutNumber_of_takes h
  intro us text hus m
  obtain ⟨parts, rfl, -⟩ := hus
  simp

theorem endsWithoutNumber_punctuation {mark : Token} (h : mark.IsMark) :
    (punctuation mark).EndsWithoutNumber := by
  apply endsWithoutNumber_of_takes (takes_punctuation mark)
  intro us _ hus m heq
  subst hus
  exact h.ne_number m (Option.some.inj heq).symm

theorem endsWithoutNumber_variant (badName : BadName) (known : List (String × α)) :
    (variant badName known).EndsWithoutNumber := by
  apply endsWithoutNumber_of_takes (takes_variant badName known)
  intro us p hus m
  obtain ⟨parts, text, -, -, rfl⟩ := hus
  split <;> simp

theorem Steady.behind {r : Reader α} (h : r.Steady) (mark : Token) (hmark : mark.IsMark) :
    (punctuation mark >>= fun _ => r).Steady :=
  (steady_punctuation mark hmark).bind_of_endsWithoutNumber (fun _ => h)
    (endsWithoutNumber_punctuation hmark)

/-! ## Variants -/

theorem variant_eq_ifNext (badName : BadName) (known : List (String × α)) :
    variant badName known =
      ifNext .openBrace
        (punctuation .openBrace >>= fun _ => variantName badName >>= variant.choose known true)
        (name >>= variant.choose known false) := by
  funext ts
  cases ts with
  | nil => rfl
  | cons t ts => cases t <;> rfl

theorem Steady.choose {r : Reader String} (h : r.Steady) (hstring : TakesString r)
    (known : List (String × α)) (hasContent : Bool) :
    (r >>= variant.choose known hasContent).Steady := by
  apply h.bind_of_endsWithoutNumber _ hstring.endsWithoutNumber
  intro text
  unfold variant.choose
  split
  · exact steady_pure _
  · exact steady_refuse _

/-- A bad name stays one, as the token or as the value that it is taken for. -/
theorem steady_variantName (badName : BadName) : (variantName badName).Steady := by
  cases badName with
  | misplaced => exact steady_name
  | mistyped => exact steady_string _

theorem steady_variant (badName : BadName) (known : List (String × α)) :
    (variant badName known).Steady := by
  have hcontent := (steady_variantName badName).choose (takesString_variantName badName) known true
  rw [variant_eq_ifNext]
  exact Steady.ifNext trivial rfl (hcontent.behind .openBrace trivial)
    (steady_name.choose takesString_name known false)

theorem steady_unitVariant (badName : BadName) (known : List (String × α)) :
    (unitVariant badName known).Steady := by
  apply (steady_variant badName known).bind
  · intro p
    obtain ⟨a, hasContent⟩ := p
    cases hasContent with
    | false => exact steady_pure a
    | true =>
        have hend := (steady_pure a).behind .closeBrace trivial
        exact (steady_unit.bind (fun _ => hend) fun _ => .inl rfl).behind .colon trivial
  · intro p
    obtain ⟨a, hasContent⟩ := p
    cases hasContent with
    | false => exact patient_pure a
    | true => exact .inl rfl

/-! ## Members -/

section Members

variable {σ : Type} {member : σ → String → Reader σ}

theorem steady_oneMember (h : ∀ s text, (member s text).Steady) (s : σ) :
    (oneMember member s).Steady :=
  steady_name.bind_of_endsWithoutNumber (h s) takesString_name.endsWithoutNumber

/-- The members after the first, with as many rounds as it takes. -/
def membersLeft (member : σ → String → Reader σ) (s : σ) : Reader σ := fun ts =>
  moreMembers member (ts.length + 1) s ts

/-- More rounds than tokens are as good as any other number of them. -/
theorem moreMembers_eq_of_lt (h : ∀ s text, (member s text).Steady) {rounds rounds' : Nat} {s : σ}
    {ts : List Token} (hrounds : ts.length < rounds) (hrounds' : ts.length < rounds') :
    moreMembers member rounds s ts = moreMembers member rounds' s ts := by
  induction rounds generalizing rounds' s ts with
  | zero => omega
  | succ rounds ih =>
      obtain ⟨rounds', rfl⟩ := Nat.exists_eq_add_one_of_ne_zero (Nat.ne_zero_of_lt hrounds')
      unfold moreMembers
      split
      · rfl
      · rfl
      · next ts =>
          cases hone : oneMember member s ts with
          | error fault => rfl
          | ok p =>
              have hle := (steady_oneMember h s ts).length_le hone
              simp only [List.length_cons] at hrounds hrounds'
              exact ih (by omega) (by omega)
      · rfl

theorem membersLeft_eq_ifNext (h : ∀ s text, (member s text).Steady) (s : σ) :
    membersLeft member s =
      ifNext .closeBrace (punctuation .closeBrace >>= fun _ => pure s)
        (punctuation .comma >>= fun _ => oneMember member s >>= membersLeft member) := by
  funext ts
  cases ts with
  | nil => rfl
  | cons t ts =>
      cases t with
      | comma =>
          change _ = (oneMember member s >>= membersLeft member) ts
          simp only [membersLeft, List.length_cons, moreMembers]
          cases hone : oneMember member s ts with
          | error fault => rw [bind_apply_of_error hone]
          | ok p =>
              have hle := (steady_oneMember h s ts).length_le hone
              rw [bind_apply_of_ok hone]
              exact moreMembers_eq_of_lt h (Nat.lt_succ_of_le hle) (Nat.lt_succ_self _)
      | _ => rfl

theorem steady_membersLeft (h : ∀ s text, (member s text).Steady) (s : σ) :
    (membersLeft member s).Steady := by
  intro ts
  -- Each member leaves fewer tokens to the members behind it.
  induction hn : ts.length using Nat.strongRecOn generalizing s ts with
  | ind n ih =>
      subst hn
      rw [membersLeft_eq_ifNext h]
      refine SteadyAt.ifNext trivial nofun (fun _ ht => absurd trivial ht.not_isMark) rfl
        (fun _ => (steady_pure s).behind .closeBrace trivial ts) fun _ => ?_
      apply (steady_punctuation .comma trivial ts).bind
      · intro _ rest hcomma
        obtain ⟨us, rfl, rfl⟩ := (takes_punctuation .comma ts _ rest).1 hcomma
        apply (steady_oneMember h s rest).bind
        · intro next rest' hone
          have hle := (steady_oneMember h s rest).length_le hone
          exact ih rest'.length (Nat.lt_succ_of_le hle) next rest' rfl
        · exact fun _ _ _ => .inl rfl
      · exact fun _ _ _ => .inl rfl

theorem members_eq_ifNext (s : σ) : members member s =
    ifNext .closeBrace (punctuation .closeBrace >>= fun _ => pure s)
      (oneMember member s >>= membersLeft member) := by
  funext ts
  cases ts with
  | nil => rfl
  | cons t ts => cases t <;> rfl

theorem steady_members (h : ∀ s text, (member s text).Steady) (s : σ) :
    (members member s).Steady := by
  rw [members_eq_ifNext]
  exact Steady.ifNext trivial rfl ((steady_pure s).behind .closeBrace trivial)
    ((steady_oneMember h s).bind (steady_membersLeft h) fun _ => .inl rfl)

theorem getLast?_moreMemberTokens (ms : List Member) :
    (moreMemberTokens ms).getLast? = some .closeBrace := by
  induction ms with
  | nil => rfl
  | cons m ms ih =>
      obtain ⟨parts, v⟩ := m
      rw [moreMemberTokens, ← List.cons_append, ← List.cons_append, ← List.cons_append,
        List.getLast?_append, ih, Option.some_or]

theorem getLast?_memberTokens (ms : List Member) :
    (memberTokens ms).getLast? = some .closeBrace := by
  cases ms with
  | nil => rfl
  | cons m ms =>
      obtain ⟨parts, v⟩ := m
      rw [memberTokens, ← List.cons_append, ← List.cons_append, List.getLast?_append,
        getLast?_moreMemberTokens, Option.some_or]

theorem endsWithoutNumber_members {S : σ → String → Value → σ → Prop}
    (h : ReadsMember member S) (s : σ) : (members member s).EndsWithoutNumber := by
  apply endsWithoutNumber_of_takes (takes_members h s)
  intro us s' hus m
  obtain ⟨ms, rfl, -⟩ := hus
  rw [getLast?_memberTokens]
  exact nofun

theorem steady_freshMember {value : Reader α} (h : value.Steady) (field : String)
    (before : Option α) : (freshMember field before value).Steady := by
  cases before with
  | some b => exact steady_refuse (.duplicateField field)
  | none => exact h.behind .colon trivial

theorem steady_required (field : String) (o : Option α) : (required field o).Steady := by
  cases o with
  | none => exact steady_refuse _
  | some a => exact steady_pure a

end Members

/-! ## Elements -/

theorem firstElement_eq_ifNext (value : Reader α) :
    firstElement value = ifNext .closeBracket (pure none) (some <$> value) := by
  funext ts
  cases ts with
  | nil => rfl
  | cons t ts => cases t <;> rfl

theorem nextElement_eq_ifNext (value : Reader α) : nextElement value =
    ifNext .closeBracket (pure none) (punctuation .comma >>= fun _ => some <$> value) := by
  funext ts
  cases ts with
  | nil => rfl
  | cons t ts => cases t <;> rfl

theorem steady_firstElement {value : Reader α} (h : value.Steady)
    (hnil : value [] = .error .ended) : (firstElement value).Steady := by
  rw [firstElement_eq_ifNext]
  refine Steady.ifNext trivial ?_ (steady_pure none) (h.map some)
  change (value [] >>= _) = _
  rw [hnil]
  rfl

theorem steady_nextElement {value : Reader α} (h : value.Steady) :
    (nextElement value).Steady := by
  rw [nextElement_eq_ifNext]
  exact Steady.ifNext trivial rfl (steady_pure none) ((h.map some).behind .comma trivial)

theorem getLast?_moreElementTokens (vs : List Value) :
    (moreElementTokens vs).getLast? = some .closeBracket := by
  induction vs with
  | nil => rfl
  | cons v vs ih =>
      rw [moreElementTokens, ← List.cons_append, List.getLast?_append, ih, Option.some_or]

theorem getLast?_elementTokens (vs : List Value) :
    (elementTokens vs).getLast? = some .closeBracket := by
  cases vs with
  | nil => rfl
  | cons v vs =>
      rw [elementTokens, List.getLast?_append, getLast?_moreElementTokens, Option.some_or]

theorem endsWithoutNumber_elements {r : Reader α} {E : List Value → α → Prop}
    (h : TakesElements r E) : r.EndsWithoutNumber := by
  apply endsWithoutNumber_of_takes h
  intro us a hus m
  obtain ⟨vs, rfl, -⟩ := hus
  rw [getLast?_elementTokens]
  exact nofun

/-- An element is missing only before a closing bracket. -/
theorem firstElement_ne_none {value : Reader α} {ts : List Token} :
    firstElement value ts ≠ .ok (none, []) := by
  intro h
  unfold firstElement at h
  split at h
  · cases h
  · obtain ⟨q, -, heq⟩ := some_map_apply_eq_ok_iff.1 h
    cases heq

/-! ## Values in an array or an object -/

theorem enclosed_eq_ifNext (elements members : Reader α) (wanted : String) :
    enclosed elements members wanted =
      ifNext .openBrace (punctuation .openBrace >>= fun _ => members)
        (ifNext .openBracket (punctuation .openBracket >>= fun _ => elements)
          (wrongType wanted)) := by
  funext ts
  cases ts with
  | nil => rfl
  | cons t ts => cases t <;> rfl

theorem steady_enclosed {elements members : Reader α} (helements : elements.Steady)
    (hmembers : members.Steady) (wanted : String) : (enclosed elements members wanted).Steady := by
  rw [enclosed_eq_ifNext]
  exact Steady.ifNext trivial rfl (hmembers.behind .openBrace trivial)
    (Steady.ifNext trivial rfl (helements.behind .openBracket trivial) (steady_wrongType wanted))

/-! ## Values that are passed over -/

theorem skipValueToken_becomes (es : List Enclosure) {t t' : Token} (h : t.Becomes t') :
    skipValueToken es t = .error .ended ∨
      skipValueToken es t = .error .malformed ∧ skipValueToken es t' = .error .malformed := by
  cases h with
  | word _ => exact .inl rfl
  | number => exact .inr ⟨rfl, rfl⟩
  | string parts more => exact .inl rfl
  | brokenString parts more how => exact .inl rfl

theorem skipNameToken_becomes (es : List Enclosure) {t t' : Token} (h : t.Becomes t') :
    skipNameToken es t = .error .ended ∨
      skipNameToken es t = .error .malformed ∧ skipNameToken es t' = .error .malformed := by
  cases h with
  | @word t' h =>
      refine .inr ⟨rfl, ?_⟩
      cases t' <;> first | rfl | exact h.elim
  | number => exact .inr ⟨rfl, rfl⟩
  | string parts more => exact .inl rfl
  | brokenString parts more how => exact .inl rfl

/-- Between values nothing but punctuation may stand. -/
theorem skipToken_of_not_isMark {expected : Expected} (es : List Enclosure)
    (hexpected : expected = .colon ∨ expected = .separator) {t : Token} (ht : ¬ t.IsMark) :
    skipToken (expected, es) t = .error .malformed := by
  rcases hexpected with rfl | rfl
  · cases t <;> first | rfl | exact absurd trivial ht
  · rcases es with _ | ⟨_ | _, es⟩
    all_goals cases t <;> first | rfl | exact absurd trivial ht

theorem ne_of_not_isMark {t mark : Token} (h : ¬ t.IsMark) (hmark : mark.IsMark) : t ≠ mark := by
  intro heq
  subst heq
  exact h hmark

theorem skipToken_becomes (state : Expected × List Enclosure) {t t' : Token} (h : t.Becomes t') :
    skipToken state t = .error .ended ∨
      skipToken state t = .error .malformed ∧ skipToken state t' = .error .malformed := by
  obtain ⟨expected, es⟩ := state
  have ht : ¬ t.IsMark := fun hmark => h.not_isSound hmark.isSound
  have ht' : ¬ t'.IsMark := h.not_isMark
  cases expected with
  | value => exact skipValueToken_becomes es h
  | firstElement =>
      rcases es with _ | ⟨_ | _, es⟩
      · exact skipValueToken_becomes _ h
      · rw [skipToken_firstElement (ne_of_not_isMark ht trivial),
          skipToken_firstElement (ne_of_not_isMark ht' trivial)]
        exact skipValueToken_becomes _ h
      · exact skipValueToken_becomes _ h
  | firstName =>
      rcases es with _ | ⟨_ | _, es⟩
      · exact skipNameToken_becomes _ h
      · exact skipNameToken_becomes _ h
      · rw [skipToken_firstName (ne_of_not_isMark ht trivial),
          skipToken_firstName (ne_of_not_isMark ht' trivial)]
        exact skipNameToken_becomes _ h
  | name => exact skipNameToken_becomes es h
  | colon =>
      exact .inr
        ⟨skipToken_of_not_isMark es (.inl rfl) ht, skipToken_of_not_isMark es (.inl rfl) ht'⟩
  | separator =>
      exact .inr
        ⟨skipToken_of_not_isMark es (.inr rfl) ht, skipToken_of_not_isMark es (.inr rfl) ht'⟩

/-- Numbers are passed over alike, and broken ones never. -/
theorem skipToken_number (state : Expected × List Enclosure) (n m : Numeral) (how : Break) :
    skipToken state (.number n) = skipToken state (.number m) ∧
      skipToken state (.brokenNumber how) = .error .malformed := by
  obtain ⟨expected, es⟩ := state
  cases expected <;> rcases es with _ | ⟨_ | _, es⟩ <;> exact ⟨rfl, rfl⟩

/-- One token of a value that is passed over. -/
def skipOne (state : Expected × List Enclosure) : Reader (Option (Expected × List Enclosure))
  | [] => .error .ended
  | t :: ts => (skipToken state t).map fun next => (next, ts)

theorem takesOne_skipOne (state : Expected × List Enclosure) : TakesOne (skipOne state) where
  nil := rfl
  cons t ts := by
    simp only [skipOne]
    cases skipToken state t <;> rfl

theorem steady_skipOne (state : Expected × List Enclosure) : (skipOne state).Steady := by
  apply (takesOne_skipOne state).steady
  · intro t t' h
    simp only [skipOne]
    rcases skipToken_becomes state h with hended | ⟨hskip, hskip'⟩
    · exact .inl (by rw [hended]; rfl)
    · exact .inr ⟨_, by rw [hskip]; rfl, by rw [hskip']; rfl⟩
  · intro n x p hx hread
    cases hx with
    | broken =>
        refine .inr (.inl ?_)
        simp only [List.nil_append, skipOne, (skipToken_number state n n .ended).2]
        rfl
    | @number m _ _ _ _ =>
        refine .inr (.inr ⟨m, p.1, rfl, ?_⟩)
        simp only [skipOne, (skipToken_number state n m .ended).1] at hread
        obtain ⟨next, hskip, rfl⟩ := map_eq_ok_iff.1 hread
        simp only [List.nil_append, skipOne, hskip]
        rfl

theorem skipFrom_eq_bind (state : Expected × List Enclosure) :
    skipFrom state = (skipOne state >>= fun next => next.elim (pure ()) skipFrom) := by
  funext ts
  cases ts with
  | nil => rfl
  | cons t ts =>
      change skipFrom state (t :: ts) = (skipOne state (t :: ts) >>= fun q => _)
      rw [skipFrom, skipOne]
      cases skipToken state t with
      | error fault => rfl
      | ok next => cases next <;> rfl

theorem steady_skipFrom (state : Expected × List Enclosure) : (skipFrom state).Steady := by
  intro ts
  -- The state changes at every token, so that it is the tokens left that grow fewer.
  induction ts generalizing state with
  | nil =>
      rw [skipFrom_eq_bind]
      apply (steady_skipOne state []).bind
      · intro next rest hread
        cases hread
      · rintro m (_ | next) -
        · exact patient_pure ()
        · exact .inl rfl
  | cons t ts ih =>
      rw [skipFrom_eq_bind]
      apply (steady_skipOne state (t :: ts)).bind
      · intro next rest hread
        cases (takesOne_skipOne state).rest_eq hread
        cases next with
        | none => exact steady_pure () ts
        | some state => exact ih state
      · rintro m (_ | next) -
        · exact patient_pure ()
        · exact .inl rfl

theorem steady_skip : skip.Steady :=
  steady_skipFrom _

end DigitiserSums.Json.Reader
