import DigitiserSums.Proofs.Fields
import DigitiserSums.Proofs.Numerals

/-!
# Which texts describe a session

Each reader of a description reads the values that the schema asks for, from the scalars up to the
session, and so a text is accepted exactly if it spells a value that the schema reads as a
configuration.
-/

namespace DigitiserSums

namespace Json.Numeral

open Decimal

/-! ## Integers -/

/-- All digits are gathered if their value fits. -/
theorem gather_eq_iff {n m : Nat} {digits : List Digit} (hn : n < UInt64.size) :
    gather n digits = (m, []) ↔ extend n digits = m ∧ m < UInt64.size := by
  induction digits generalizing n with
  | nil =>
      constructor
      · intro h
        cases h
        exact ⟨rfl, hn⟩
      · intro hr
        obtain ⟨rfl, -⟩ := hr
        rfl
  | cons d digits ih =>
      simp only [gather]
      by_cases hlt : 10 * n + d.val < UInt64.size
      · rw [if_pos hlt, ih hlt]
        rfl
      · rw [if_neg hlt]
        constructor
        · intro h
          cases h
        · intro hr
          obtain ⟨hm, hsize⟩ := hr
          have hle : 10 * n + d.val ≤ m := hm ▸ le_extend (10 * n + d.val) digits
          omega

theorem toFloat?_ne_integer (isNegative : Bool) (significand : Nat) (power k : Int) :
    toFloat? isNegative significand power ≠ some (.integer k) := by
  intro h
  unfold toFloat? at h
  obtain ⟨magnitude, -, h⟩ := Option.bind_eq_some_iff.1 h
  obtain ⟨scaled, -, h⟩ := Option.bind_eq_some_iff.1 h
  cases h

/-- A natural number is an integer that is spelled without sign, point and power of ten. -/
theorem toNumber?_eq_natural_iff {n : Numeral} {k : Nat} :
    n.toNumber? = some (.integer k) ↔
      n.isNegative = false ∧ n.fraction = [] ∧ n.exponent = none ∧ value n.whole = k ∧
        k < UInt64.size := by
  have hgather (m : Nat) : gather 0 n.whole = (m, []) ↔ value n.whole = m ∧ m < UInt64.size :=
    gather_eq_iff (by decide)
  constructor
  · intro h
    unfold toNumber? at h
    split at h
    next whole dropped hw =>
      split at h
      · next hplain =>
          obtain ⟨rfl, hfraction, hexponent⟩ := hplain
          split at h
          · next hsign =>
              cases h
              obtain ⟨hvalue, hlt⟩ := (hgather k).1 hw
              exact ⟨by simpa using hsign, hfraction, hexponent, hvalue, hlt⟩
          · split at h
            · next hpos =>
                have hk : -(whole : Int) = k := by simpa using h
                omega
            · exact absurd h (toFloat?_ne_integer _ _ _ _)
      · exact absurd h (toFloat?_ne_integer _ _ _ _)
  · intro h
    obtain ⟨hsign, hfraction, hexponent, hvalue, hlt⟩ := h
    have hw := (hgather k).2 ⟨hvalue, hlt⟩
    simp [toNumber?, hw, hsign, hfraction, hexponent]

end Json.Numeral

namespace Description

open Json Reader

variable {badName : BadName}

/-! ## Scalars -/

theorem reads_natural {limit : Nat} (hlimit : limit ≤ UInt64.size) (wanted : String) :
    Reads (natural limit wanted) (IsNatural limit) := by
  refine Takes.congr (takes_bind_check (K := fun x n => x = .integer n ∧ n < limit)
    (reads_number wanted) fun x => ?_) fun us n => ?_
  · cases x with
    | float x =>
        refine (takes_refuse _).congr fun us n => ?_
        simp
    | integer k =>
        simp only
        split
        · refine (takes_pure k.toNat).congr fun us n => ?_
          constructor
          · intro hr
            obtain ⟨hus, rfl⟩ := hr
            exact ⟨hus, by rw [Int.toNat_of_nonneg (by omega)], by omega⟩
          · intro hr
            obtain ⟨hus, hk, -⟩ := hr
            cases hk
            exact ⟨hus, rfl⟩
        · refine (takes_refuse _).congr fun us n => ?_
          constructor
          · exact False.elim
          · intro hr
            obtain ⟨-, hk, hn⟩ := hr
            cases hk
            omega
  · constructor
    · intro hr
      obtain ⟨_, ⟨v, hus, numeral, hv, hnumber⟩, rfl, hlt⟩ := hr
      obtain ⟨hsign, hfraction, hexponent, hvalue, -⟩ :=
        Numeral.toNumber?_eq_natural_iff.1 hnumber
      exact ⟨v, hus, numeral, hv, hsign, hfraction, hexponent, hvalue, hlt⟩
    · intro hr
      obtain ⟨v, hus, numeral, hv, hsign, hfraction, hexponent, hvalue, hlt⟩ := hr
      have hnumber := Numeral.toNumber?_eq_natural_iff.2
        ⟨hsign, hfraction, hexponent, hvalue, Nat.lt_of_lt_of_le hlt hlimit⟩
      exact ⟨_, ⟨v, hus, numeral, hv, hnumber⟩, rfl, hlt⟩

theorem reads_size : Reads size (IsNatural UInt64.size) :=
  reads_natural (Nat.le_refl _) "usize"

theorem reads_byte : Reads byte fun v b => IsNatural UInt8.size v b.toNat := by
  have hlimit : UInt8.size ≤ UInt64.size := by decide
  refine ((reads_natural hlimit "u8").map UInt8.ofNat).congr fun v b => ?_
  constructor
  · intro h
    obtain ⟨n, hn, rfl⟩ := h
    obtain ⟨-, -, -, -, -, -, hlt⟩ := id hn
    rwa [UInt8.toNat_ofNat_of_lt' hlt]
  · intro h
    exact ⟨b.toNat, h, (UInt8.ofNat_toNat).symm⟩

theorem reads_threshold : Reads threshold IsThreshold := by
  refine ((reads_number "f32").map Number.toSingle).congr fun v t => ?_
  constructor
  · intro h
    obtain ⟨x, ⟨numeral, hv, hx⟩, ht⟩ := h
    exact ⟨numeral, x, hv, hx, ht⟩
  · intro h
    obtain ⟨numeral, x, hv, hx, ht⟩ := h
    exact ⟨x, ⟨numeral, hv, hx⟩, ht⟩

/-- What is listed by its name is found under that name. -/
theorem lookup_map_name_iff {α : Type} {name : α → String} (hname : Function.Injective name)
    (all : List α) (a : α) (text : String) :
    (all.map fun a => (name a, a)).lookup text = some a ↔ a ∈ all ∧ text = name a := by
  induction all with
  | nil => simp
  | cons b all ih =>
      rw [List.map_cons, List.lookup_cons]
      by_cases htext : text = name b
      · subst htext
        simp only [beq_self_eq_true, Option.some.injEq]
        constructor
        · intro hr
          subst hr
          exact ⟨List.mem_cons_self, rfl⟩
        · intro hr
          obtain ⟨-, h⟩ := hr
          exact hname h
      · simp only [beq_eq_false_iff_ne.2 htext, ih, List.mem_cons]
        constructor
        · intro hr
          obtain ⟨ha, h⟩ := hr
          exact ⟨.inr ha, h⟩
        · intro hr
          obtain ⟨rfl | ha, h⟩ := hr
          · exact absurd h htext
          · exact ⟨ha, h⟩

theorem reads_unitVariant_names {α : Type} {name : α → String} (hname : Function.Injective name)
    {all : List α} (hall : ∀ a, a ∈ all) :
    Reads (unitVariant badName (all.map fun a => (name a, a))) fun v a => Names (name a) v := by
  refine (reads_unitVariant badName _).congr fun v a => ?_
  constructor
  · intro hr
    obtain ⟨parts, text, htext, hlookup, hv⟩ := hr
    rw [((lookup_map_name_iff hname all a text).1 hlookup).2] at htext
    exact ⟨parts, htext, hv⟩
  · intro hr
    obtain ⟨parts, htext, hv⟩ := hr
    exact ⟨parts, name a, htext, (lookup_map_name_iff hname all a _).2 ⟨hall a, rfl⟩, hv⟩

theorem reads_foldPolicy :
    Reads (foldPolicy badName) fun v policy => Names (FoldPolicy.name policy) v :=
  reads_unitVariant_names (by intro a b; cases a <;> cases b <;> decide) FoldPolicy.mem_all

theorem reads_edgeKind :
    Reads (edgeKind badName) fun v kind => Names (EdgeKind.name kind) v :=
  reads_unitVariant_names (by intro a b; cases a <;> cases b <;> decide) EdgeKind.mem_all

/-! ## Aggregation -/

namespace SizeForm

variable (form : SizeForm)

/-- The only field of the object with the size. -/
def fieldForm : FieldForm Nat :=
  ⟨form.field, IsNatural UInt64.size⟩

theorem readsMember : ReadsMember form.member fun before text v after =>
    form.fieldForm.Step text v before after := by
  intro before text
  unfold member FieldForm.Step fieldForm
  by_cases htext : text = form.field
  · simp only [if_pos htext]
    refine (takes_map some (takes_freshMember reads_size _ _)).congr fun us after => ?_
    constructor
    · intro h
      obtain ⟨n, ⟨hnone, v, hus, hn⟩, hafter⟩ := h
      exact ⟨v, hus, hnone, n, hn, hafter⟩
    · intro h
      obtain ⟨v, hus, hnone, n, hn, hafter⟩ := h
      exact ⟨n, ⟨hnone, v, hus, hn⟩, hafter⟩
  · simp only [if_neg htext]
    have hskip := takes_bind_check reads_skip fun _ => takes_pure before
    refine (takes_bind (takes_punctuation .colon) fun _ => hskip).congr fun us after => ?_
    constructor
    · intro h
      obtain ⟨_, _, _, rfl, rfl, _, ⟨v, rfl, -⟩, hafter⟩ := h
      exact ⟨v, rfl, hafter⟩
    · intro h
      obtain ⟨v, rfl, hafter⟩ := h
      exact ⟨(), [.colon], _, rfl, rfl, (), ⟨v, rfl, trivial⟩, hafter⟩

theorem takes_ofObject : Takes form.ofObject fun us a => ∃ ms, us = memberTokens ms ∧
    (∀ m ∈ ms, Member.text? m |>.isSome) ∧
      ∃ n, Required (IsNatural UInt64.size) (occurrences form.field ms) n ∧ a = form.make n := by
  have hend (found : Option Nat) : Takes (form.make <$> required form.field found) fun us a =>
      us = [] ∧ ∃ n, found = some n ∧ a = form.make n := by
    refine (takes_map form.make (takes_required _ _)).congr fun us a => ?_
    constructor
    · intro h
      obtain ⟨n, ⟨hus, hn⟩, ha⟩ := h
      exact ⟨hus, n, hn, ha⟩
    · intro h
      obtain ⟨hus, n, hn, ha⟩ := h
      exact ⟨n, ⟨hus, hn⟩, ha⟩
  refine (takes_bind_check (takes_members form.readsMember none) hend).congr fun us a => ?_
  constructor
  · intro h
    obtain ⟨_, ⟨ms, hus, hms⟩, n, rfl, ha⟩ := h
    obtain ⟨hnames, hfield⟩ := FieldForm.gathers_iff.1 hms
    exact ⟨ms, hus, hnames, n, required_iff.2 (FieldForm.steps_none_iff.1 hfield), ha⟩
  · intro h
    obtain ⟨ms, hus, hnames, n, hn, ha⟩ := h
    have hfield := (FieldForm.steps_none_iff (f := form.fieldForm)).2 (required_iff.1 hn)
    exact ⟨some n, ⟨ms, hus, FieldForm.gathers_iff.2 ⟨hnames, hfield⟩⟩, n, rfl, ha⟩

theorem takesElements_ofArray : TakesElements form.ofArray fun vs a =>
    ∃ n, (∃ size, vs = [size] ∧ IsNatural UInt64.size size n) ∧ a = form.make n := by
  refine Takes.congr (takesElements_firstElement
    (E := fun o vs a => vs = [] ∧ ∃ n, o = some n ∧ a = form.make n) reads_size fun o => ?_)
    fun us a => ?_
  · cases o with
    | none =>
        refine (takes_refuse _).congr fun us a => ?_
        simp
    | some n =>
        refine (takesMore_closeBracket (form.make n)).congr fun us a => ?_
        simp
  · constructor
    · intro h
      obtain ⟨vs, hus, _, hslot, htail, n, rfl, ha⟩ := h
      refine ⟨vs, hus, n, ?_, ha⟩
      cases vs with
      | nil => cases slot_nil_iff.1 hslot
      | cons v vs =>
          cases htail
          obtain ⟨_, hn, heq⟩ := slot_singleton_iff.1 hslot
          cases heq
          exact ⟨v, rfl, hn⟩
    · intro h
      obtain ⟨_, hus, n, ⟨v, rfl, hn⟩, ha⟩ := h
      exact ⟨[v], hus, some n, slot_singleton_iff.2 ⟨n, hn, rfl⟩, rfl, n, rfl, ha⟩

theorem content_eq_enclosed : form.content = enclosed form.ofArray form.ofObject form.title := by
  funext ts
  cases ts with
  | nil => rfl
  | cons t ts => cases t <;> rfl

theorem reads_content :
    Reads form.content fun v a => ∃ n, IsSize form.field v n ∧ a = form.make n := by
  have hread := reads_enclosed form.takesElements_ofArray form.takes_ofObject form.title
  rw [content_eq_enclosed]
  refine hread.congr fun v a => ?_
  constructor
  · intro h
    cases v with
    | array vs =>
        obtain ⟨n, ⟨size, rfl, hn⟩, ha⟩ := h
        exact ⟨n, .inl ⟨size, rfl, hn⟩, ha⟩
    | object ms =>
        obtain ⟨hnames, n, hn, ha⟩ := h
        exact ⟨n, .inr ⟨ms, rfl, hnames, hn⟩, ha⟩
    | null | bool | number | string => exact h.elim
  · intro h
    obtain ⟨n, ⟨size, rfl, hn⟩ | ⟨ms, rfl, hnames, hn⟩, ha⟩ := h
    · exact ⟨n, ⟨size, rfl, hn⟩, ha⟩
    · exact ⟨hnames, n, hn, ha⟩

end SizeForm

/-- A size stands in the object whose only name is that of its aggregator. -/
theorem takes_sizeContent (p : SizeForm × Bool) :
    Takes
      (do
        if p.2 then
          punctuation .colon
          let aggregation ← p.1.content
          punctuation .closeBrace
          return aggregation
        else
          refuse (.wrongType .unitVariant "struct variant"))
      fun us a => p.2 = true ∧ ∃ content : Value, us = .colon :: (content.tokens ++ [.closeBrace]) ∧
        ∃ n, IsSize p.1.field content n ∧ a = p.1.make n := by
  obtain ⟨form, hasContent⟩ := p
  cases hasContent with
  | false =>
      refine (takes_refuse _).congr fun us a => ?_
      simp
  | true =>
      have hend (a : Aggregation) :=
        takes_bind (takes_punctuation .closeBrace) fun _ => takes_pure a
      have hbody := takes_bind form.reads_content hend
      refine (takes_bind (takes_punctuation .colon) fun _ => hbody).congr fun us a => ?_
      constructor
      · intro h
        obtain ⟨_, _, _, rfl, rfl, _, _, _, rfl, ⟨content, rfl, hsize⟩, hclose⟩ := h
        obtain ⟨_, _, _, rfl, rfl, rfl, rfl⟩ := hclose
        exact ⟨rfl, content, rfl, hsize⟩
      · intro h
        obtain ⟨-, content, rfl, hsize⟩ := h
        exact ⟨(), [.colon], _, rfl, rfl, a, _, _, rfl, ⟨content, rfl, hsize⟩, (), [.closeBrace],
          [], rfl, rfl, rfl, rfl⟩

theorem reads_aggregation_content : Reads (aggregation badName) fun v a =>
    ∃ parts text form content, v = .object [(parts, content)] ∧ decode parts = .ok text ∧
      sizeForms.lookup text = some form ∧ ∃ n, IsSize form.field content n ∧ a = form.make n := by
  refine (takes_bind (takes_variant badName sizeForms) takes_sizeContent).congr fun us a => ?_
  constructor
  · intro h
    obtain ⟨⟨form, _⟩, _, _, rfl, ⟨parts, text, htext, hlookup, rfl⟩, rfl, content, rfl, hsize⟩ := h
    exact ⟨.object [(parts, content)], rfl, parts, text, form, content, rfl, htext, hlookup, hsize⟩
  · intro h
    obtain ⟨_, rfl, parts, text, form, content, rfl, htext, hlookup, hsize⟩ := h
    exact ⟨(form, true), [.openBrace, .string parts], _, rfl, ⟨parts, text, htext, hlookup, rfl⟩,
      rfl, content, rfl, hsize⟩

theorem lookup_sizeForms {text : String} {form : SizeForm} (h : sizeForms.lookup text = some form) :
    text = "downsample" ∧ form.make = .downsample ∧ form.field = "downsample-num" ∨
      text = "moving-sum" ∧ form.make = .movingSum ∧ form.field = "window-width" := by
  unfold sizeForms at h
  rw [List.lookup_cons, List.lookup_cons] at h
  by_cases hfirst : text = "downsample"
  · simp only [hfirst, beq_self_eq_true, Option.some.injEq] at h
    subst h
    exact .inl ⟨hfirst, rfl, rfl⟩
  · by_cases hsecond : text = "moving-sum"
    · subst hsecond
      cases h
      exact .inr ⟨rfl, rfl, rfl⟩
    · simp only [beq_eq_false_iff_ne.2 hfirst, beq_eq_false_iff_ne.2 hsecond] at h
      cases h

theorem isAggregation_iff {v : Value} {a : Aggregation} : IsAggregation v a ↔
    ∃ parts text form content, v = .object [(parts, content)] ∧ decode parts = .ok text ∧
      sizeForms.lookup text = some form ∧ ∃ n, IsSize form.field content n ∧ a = form.make n := by
  constructor
  · intro h
    obtain ⟨parts, content, rfl, h⟩ := h
    cases a with
    | downsample n => exact ⟨parts, _, _, content, rfl, h.1, rfl, n, h.2, rfl⟩
    | movingSum n => exact ⟨parts, _, _, content, rfl, h.1, rfl, n, h.2, rfl⟩
  · intro h
    obtain ⟨parts, text, form, content, rfl, htext, hlookup, n, hsize, rfl⟩ := h
    refine ⟨parts, content, rfl, ?_⟩
    rcases lookup_sizeForms hlookup with ⟨rfl, hmake, hfield⟩ | ⟨rfl, hmake, hfield⟩
    · rw [hmake]
      exact ⟨htext, hfield ▸ hsize⟩
    · rw [hmake]
      exact ⟨htext, hfield ▸ hsize⟩

theorem reads_aggregation : Reads (aggregation badName) IsAggregation :=
  reads_aggregation_content.congr fun _ _ => isAggregation_iff.symm

/-! ## Edge trigger -/

/-- The fields of an edge trigger. -/
def edgeForm : RecordForm Single EdgeKind UInt8 UInt8 where
  first := ⟨"threshold", IsThreshold⟩
  second := ⟨"edge-type", fun v kind => Names (EdgeKind.name kind) v⟩
  third := ⟨"settling-time", fun v n => IsNatural UInt8.size v n.toNat⟩
  fourth := ⟨"edge-num", fun v n => IsNatural UInt8.size v n.toNat⟩

theorem edgeForm_names_nodup : edgeForm.names.Nodup := by
  decide

namespace EdgeMembers

/-- The members of an edge trigger as a record. -/
def view : EdgeMembers ≃ Record Single EdgeKind UInt8 UInt8 where
  toFun m := (m.threshold, m.kind, m.settlingTime, m.edgeNum)
  invFun fields := ⟨fields.1, fields.2.1, fields.2.2.1, fields.2.2.2⟩
  left_inv _ := rfl
  right_inv _ := rfl

theorem member_of_not_mem (m : EdgeMembers) {text : String} (h : text ∉ edgeForm.names) :
    member badName m text = refuse (.unknownField text edgeNames) := by
  simp only [RecordForm.names, edgeForm, List.mem_cons, List.not_mem_nil, or_false, not_or] at h
  unfold member
  split
  · exact absurd rfl h.1
  · exact absurd rfl h.2.1
  · exact absurd rfl h.2.2.1
  · exact absurd rfl h.2.2.2
  · rfl

theorem takes_member_of_not_mem (m : EdgeMembers) {text : String}
    (h : text ∉ edgeForm.names) : Takes (member badName m text) fun _ _ => False := by
  rw [member_of_not_mem m h]
  exact takes_refuse _

theorem readsMember : ReadsMember (member badName) fun before text v after =>
    edgeForm.Next (view before) text v (view after) := by
  apply RecordForm.readsMember_record view edgeForm_names_nodup
  · intro ε field m
    cases field with
    | first => exact FieldForm.fills_freshMember reads_threshold "threshold" m.threshold _
    | second => exact FieldForm.fills_freshMember reads_edgeKind "edge-type" m.kind _
    | third => exact FieldForm.fills_freshMember reads_byte "settling-time" m.settlingTime _
    | fourth => exact FieldForm.fills_freshMember reads_byte "edge-num" m.edgeNum _
  · intro m text htext
    exact takes_member_of_not_mem m htext

theorem takesElements_ofArray : TakesElements (ofArray badName) fun vs m =>
    (view m).1.isSome ∧ edgeForm.FilledInOrder vs (view m) :=
  RecordForm.takesElements_record reads_threshold reads_edgeKind reads_byte reads_byte view _

/-- The settings by field. -/
def parts (e : EdgeSettings) : Single × EdgeKind × UInt8 × UInt8 :=
  (e.threshold, e.kind, e.settlingTime, e.edgeNum)

theorem takes_settings (m : EdgeMembers) : Takes m.settings fun us e =>
    us = [] ∧ RecordForm.Makes (.rising, 0, 1) (view m) (parts e) := by
  refine (takes_bind_check (takes_required "threshold" m.threshold) fun t => takes_pure _).congr
    fun us e => ?_
  constructor
  · intro h
    obtain ⟨t, ⟨hus, ht⟩, rfl⟩ := h
    exact ⟨hus, ht, rfl, rfl, rfl⟩
  · intro h
    obtain ⟨hus, ht, hkind, hsettling, hedges⟩ := h
    refine ⟨e.threshold, ⟨hus, ht⟩, ?_⟩
    obtain ⟨threshold, kind, settlingTime, edgeNum⟩ := e
    cases hkind
    cases hsettling
    cases hedges
    rfl

end EdgeMembers

theorem edgeSettings_eq_enclosed : edgeSettings badName =
    enclosed (EdgeMembers.ofArray badName >>= EdgeMembers.settings)
      (members (EdgeMembers.member badName) {} >>= EdgeMembers.settings)
      "struct EdgeCounterSettings" := by
  funext ts
  cases ts with
  | nil => rfl
  | cons t ts => cases t <;> rfl

theorem reads_edgeSettings : Reads (edgeSettings badName) IsEdgeSettings := by
  rw [edgeSettings_eq_enclosed]
  exact RecordForm.reads_record EdgeMembers.view edgeForm_names_nodup EdgeMembers.readsMember
    EdgeMembers.takesElements_ofArray EdgeMembers.takes_settings "struct EdgeCounterSettings"

theorem reads_optionalEdge : Reads (optionalEdge badName) IsEdge := by
  intro ts e rest
  constructor
  · intro h
    unfold optionalEdge at h
    split at h
    · cases h
      exact ⟨_, rfl, .null, rfl, .inl ⟨rfl, rfl⟩⟩
    · obtain ⟨⟨settings, ts'⟩, hread, heq⟩ := some_map_apply_eq_ok_iff.1 h
      cases heq
      obtain ⟨us, hts, v, hus, hv⟩ := (reads_edgeSettings _ _ _).1 hread
      exact ⟨us, hts, v, hus, .inr ⟨settings, hv, rfl⟩⟩
  · intro h
    obtain ⟨_, rfl, v, rfl, ⟨rfl, rfl⟩ | ⟨settings, hv, rfl⟩⟩ := h
    · rfl
    · have hread : edgeSettings badName (v.tokens ++ rest) = .ok (settings, rest) :=
        (reads_edgeSettings _ settings rest).2 ⟨_, rfl, v, rfl, hv⟩
      obtain ⟨place, hplace, -⟩ := hv
      cases hplace with
      | members _ => exact some_map_apply_eq_ok_iff.2 ⟨_, hread, rfl⟩
      | elements _ => exact some_map_apply_eq_ok_iff.2 ⟨_, hread, rfl⟩

/-! ## Session -/

/-- The fields of a session. -/
def sessionForm : RecordForm Aggregation Bool FoldPolicy (Option EdgeSettings) where
  first := ⟨"aggregation", IsAggregation⟩
  second := ⟨"absolute-value", fun v b => v = .bool b⟩
  third := ⟨"fold-policy", fun v policy => Names (FoldPolicy.name policy) v⟩
  fourth := ⟨"edge-trigger", IsEdge⟩

theorem sessionForm_names_nodup : sessionForm.names.Nodup := by
  decide

namespace SessionMembers

/-- The members of a session as a record. -/
def view : SessionMembers ≃ Record Aggregation Bool FoldPolicy (Option EdgeSettings) where
  toFun m := (m.aggregation, m.absoluteValue, m.foldPolicy, m.edge)
  invFun fields := ⟨fields.1, fields.2.1, fields.2.2.1, fields.2.2.2⟩
  left_inv _ := rfl
  right_inv _ := rfl

theorem member_of_not_mem (m : SessionMembers) {text : String} (h : text ∉ sessionForm.names) :
    member badName m text = refuse (.unknownField text sessionNames) := by
  simp only [RecordForm.names, sessionForm, List.mem_cons, List.not_mem_nil, or_false, not_or] at h
  unfold member
  split
  · exact absurd rfl h.1
  · exact absurd rfl h.2.1
  · exact absurd rfl h.2.2.1
  · exact absurd rfl h.2.2.2
  · rfl

theorem takes_member_of_not_mem (m : SessionMembers) {text : String}
    (h : text ∉ sessionForm.names) : Takes (member badName m text) fun _ _ => False := by
  rw [member_of_not_mem m h]
  exact takes_refuse _

theorem readsMember : ReadsMember (member badName) fun before text v after =>
    sessionForm.Next (view before) text v (view after) := by
  apply RecordForm.readsMember_record view sessionForm_names_nodup
  · intro ε field m
    cases field with
    | first => exact FieldForm.fills_freshMember reads_aggregation "aggregation" m.aggregation _
    | second => exact FieldForm.fills_freshMember reads_bool "absolute-value" m.absoluteValue _
    | third => exact FieldForm.fills_freshMember reads_foldPolicy "fold-policy" m.foldPolicy _
    | fourth => exact FieldForm.fills_freshMember reads_optionalEdge "edge-trigger" m.edge _
  · intro m text htext
    exact takes_member_of_not_mem m htext

theorem takesElements_ofArray : TakesElements (ofArray badName) fun vs m =>
    (view m).1.isSome ∧ sessionForm.FilledInOrder vs (view m) :=
  RecordForm.takesElements_record reads_aggregation reads_bool reads_foldPolicy reads_optionalEdge
    view _

/-- The configuration by field. -/
def parts (c : SessionConfig) : Aggregation × Bool × FoldPolicy × Option EdgeSettings :=
  (c.aggregation, c.absoluteValue, c.foldPolicy, c.edge)

theorem takes_config (m : SessionMembers) : Takes m.config fun us c =>
    us = [] ∧ RecordForm.Makes (false, .reflect, none) (view m) (parts c) := by
  refine (takes_bind_check (takes_required "aggregation" m.aggregation) fun a => takes_pure _).congr
    fun us c => ?_
  constructor
  · intro h
    obtain ⟨a, ⟨hus, ha⟩, rfl⟩ := h
    exact ⟨hus, ha, rfl, rfl, rfl⟩
  · intro h
    obtain ⟨hus, ha, habsolute, hfold, hedge⟩ := h
    refine ⟨c.aggregation, ⟨hus, ha⟩, ?_⟩
    obtain ⟨aggregation, absoluteValue, foldPolicy, edge⟩ := c
    cases habsolute
    cases hfold
    cases hedge
    rfl

end SessionMembers

theorem session_eq_enclosed : session badName =
    enclosed (SessionMembers.ofArray badName >>= SessionMembers.config)
      (members (SessionMembers.member badName) {} >>= SessionMembers.config)
      "struct SessionConfig" := by
  funext ts
  cases ts with
  | nil => rfl
  | cons t ts => cases t <;> rfl

theorem reads_session : Reads (session badName) IsSession := by
  rw [session_eq_enclosed]
  exact RecordForm.reads_record SessionMembers.view sessionForm_names_nodup
    SessionMembers.readsMember SessionMembers.takesElements_ofArray SessionMembers.takes_config
    "struct SessionConfig"

/-- A text is accepted exactly if it is one value, with spaces around its tokens, and the schema
reads the value as the configuration. -/
theorem ofText_eq_ok_iff (badName : BadName) (text : String) (c : SessionConfig) :
    ofText badName text = .ok c ↔ ∃ v : Value, Layout v.tokens text.toList ∧ IsSession v c :=
  readAll_eq_ok_iff reads_session text c

end Description

end DigitiserSums
