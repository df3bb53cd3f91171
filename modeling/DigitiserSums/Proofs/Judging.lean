import DigitiserSums.Proofs.Json.Reaching
import DigitiserSums.Proofs.Description

/-!
# How members are judged

The members of an object are judged one by one, by their names and by those that came before. The
session and its edge trigger refuse a name that they do not know; no object takes a name that it
knows twice; each has one member that it cannot be without. The object with the size passes over
names that it does not know.
-/

namespace DigitiserSums.Description

open Json Reader

/-! ## Objects -/

/-- The names that an object knows, and which of them it cannot be without. -/
structure ObjectForm where
  names : List String
  required : String
  /-- Whether other names are refused. -/
  strict : Bool

def sessionObject : ObjectForm where
  names := sessionNames
  required := "aggregation"
  strict := true

def edgeObject : ObjectForm where
  names := edgeNames
  required := "threshold"
  strict := true

def SizeForm.object (form : SizeForm) : ObjectForm where
  names := [form.field]
  required := form.field
  strict := false

/-- Members among which others are put, with values of any kind but with none of these names. -/
inductive Padded (names : List String) : List Member → List Member → Prop
  | nil : Padded names [] []
  | keep (m : Member) {ms ms' : List Member} : Padded names ms ms' →
      Padded names (m :: ms) (m :: ms')
  | insert {m : Member} {name : String} {ms ms' : List Member} : m.text? = some name →
      name ∉ names → Padded names ms ms' → Padded names ms (m :: ms')

/-! ## Judging members -/

variable {α β γ δ σ κ τ : Type} {badName : BadName}

/-- How a reader `q` of objects judges their members: it gathers them from the state `start` on, and
finishes with the state that it has reached then. -/
structure ObjectForm.Judges (object : ObjectForm) (q : Reader κ) (Q : Value → κ → Prop)
    (member : σ → String → Reader σ) (S : σ → String → Value → σ → Prop) (start : σ)
    (finish : σ → Reader τ) : Prop where
  opens : q.Reaches [.openBrace] (members member start >>= finish)
  reads : ReadsMember member S
  gathers {ms : List Member} {a : κ} : Q (.object ms) a → ∃ s, Gathers S start ms s
  unknown {s : σ} {name : String} : object.strict = true → name ∉ object.names →
    member s name = refuse (.unknownField name object.names)
  duplicate {before : List Member} {s : σ} {name : String} : Gathers S start before s →
    name ∈ object.names → (∃ m ∈ before, m.text? = some name) → ∀ ts,
      member s name ts = .error (.refused (.duplicateField name))
  missing {before after : List Member} {m : Member} {s : σ} :
    Gathers S start (before ++ m :: after) s → m.text? = some object.required →
      ∃ s', Gathers S start (before ++ after) s' ∧
        finish s' = refuse (.missingField object.required)
  ignores {ms ms' : List Member} {a : κ} : object.strict = false → Q (.object ms) a →
    Padded object.names ms ms' → Q (.object ms') a

/-! ### Records -/

theorem occurrences_append_cons (name : String) (before : List Member) (m : Member)
    (after : List Member) :
    occurrences name (before ++ m :: after) =
      occurrences name before ++ ((if m.text? = some name then [m.2] else []) ++
        occurrences name after) := by
  unfold occurrences
  rw [List.filter_append, List.filter_cons, List.map_append]
  by_cases hm : m.text? = some name <;> simp [hm]

theorem occurrences_ne_nil {name : String} {ms : List Member} {m : Member} (hm : m ∈ ms)
    (hname : m.text? = some name) : occurrences name ms ≠ [] := by
  intro hnil
  have hmem : m ∈ ms.filter fun m => m.text? = some name :=
    List.mem_filter.2 ⟨hm, by simpa using hname⟩
  rw [List.map_eq_nil_iff.1 hnil] at hmem
  cases hmem

theorem isSome_of_slot {R : Value → α → Prop} {place : List Value} {o : Option α}
    (h : Slot R place o) (hne : place ≠ []) : o.isSome := by
  rcases h with ⟨hnil, -⟩ | ⟨v, a, -, -, rfl⟩
  · exact absurd hnil hne
  · rfl

/-- Without its only member a place is empty. -/
theorem slot_erase {R : Value → α → Prop} {name : String} {before after : List Member}
    {m : Member} {o : Option α} (h : Slot R (occurrences name (before ++ m :: after)) o)
    (hm : m.text? = some name) : Slot R (occurrences name (before ++ after)) none := by
  rw [occurrences_append_cons, if_pos hm] at h
  refine .inl ⟨?_, rfl⟩
  rcases h with ⟨hnil, -⟩ | ⟨v, a, hsingle, -, -⟩
  · simp at hnil
  · have hlength := congrArg List.length hsingle
    simp only [List.length_append, List.length_cons, List.length_nil] at hlength
    unfold occurrences at hlength ⊢
    rw [List.filter_append, List.map_append, ← List.length_eq_zero_iff, List.length_append]
    omega

/-- A place is as it was when a member of another name is taken away. -/
theorem occurrences_erase {name other : String} (hne : name ≠ other) {before after : List Member}
    {m : Member} (hm : m.text? = some name) :
    occurrences other (before ++ m :: after) = occurrences other (before ++ after) := by
  have hother : m.text? ≠ some other := by
    rw [hm]
    exact fun h => hne (Option.some.inj h)
  rw [occurrences_append_cons, if_neg hother, List.nil_append]
  simp [occurrences]

namespace RecordForm

variable {form : RecordForm α β γ δ} {fields : Record α β γ δ}

/-- A field with this name is filled. -/
def Occupied (form : RecordForm α β γ δ) (fields : Record α β γ δ) (name : String) : Prop :=
  ∃ (ε : Type) (field : RecordField α β γ δ ε),
    name = (field.of form).name ∧ (field.get fields).isSome

theorem occupied_of_gathers {before : List Member} {name : String}
    (h : Gathers form.Next (none, none, none, none) before fields) (hname : name ∈ form.names)
    (hmem : ∃ m ∈ before, m.text? = some name) : form.Occupied fields name := by
  obtain ⟨m, hm, htext⟩ := hmem
  obtain ⟨ε, field, rfl⟩ := RecordField.exists_of_mem_names hname
  have hslot := field.slot_of_filled (gathers_none_iff.1 h).2
  exact ⟨ε, field, rfl, isSome_of_slot hslot (occurrences_ne_nil hm htext)⟩

theorem gathers_erase_first (hnames : form.names.Nodup) {before after : List Member} {m : Member}
    (h : Gathers form.Next (none, none, none, none) (before ++ m :: after) fields)
    (hm : m.text? = some form.first.name) :
    Gathers form.Next (none, none, none, none) (before ++ after) (none, fields.2) := by
  obtain ⟨hknown, h₁, h₂, h₃, h₄⟩ := gathers_none_iff.1 h
  simp only [names, List.nodup_cons, List.mem_cons, List.not_mem_nil, or_false, not_or] at hnames
  obtain ⟨⟨h₁₂, h₁₃, h₁₄⟩, -⟩ := hnames
  simp only [occurrences_erase h₁₂ hm] at h₂
  simp only [occurrences_erase h₁₃ hm] at h₃
  simp only [occurrences_erase h₁₄ hm] at h₄
  have hsub := (List.sublist_cons_self m after).append_left before
  exact gathers_none_iff.2
    ⟨fun m' hm' => hknown m' (hsub.subset hm'), slot_erase h₁ hm, h₂, h₃, h₄⟩

/-- A record judges its members by its fields. -/
theorem judges {q : Reader κ} {Q : Value → κ → Prop} {member : σ → String → Reader σ}
    {finish : σ → Reader τ} (view : σ ≃ Record α β γ δ) (hnames : form.names.Nodup)
    (hopens : q.Reaches [.openBrace]
      (members member (view.symm (none, none, none, none)) >>= finish))
    (hreads : ReadsMember member fun s text v s' => form.Next (view s) text v (view s'))
    (hgathers : ∀ ms a, Q (.object ms) a → ∃ s,
      Gathers (fun s text v s' => form.Next (view s) text v (view s'))
        (view.symm (none, none, none, none)) ms s)
    (hunknown : ∀ s name, name ∉ form.names →
      member s name = refuse (.unknownField name form.names))
    (hduplicate : ∀ s name ts, form.Occupied (view s) name →
      member s name ts = .error (.refused (.duplicateField name)))
    (hmissing : ∀ s, (view s).1 = none → finish s = refuse (.missingField form.first.name)) :
    ObjectForm.Judges ⟨form.names, form.first.name, true⟩ q Q member
      (fun s text v s' => form.Next (view s) text v (view s'))
      (view.symm (none, none, none, none)) finish where
  opens := hopens
  reads := hreads
  gathers h := hgathers _ _ h
  unknown _ h := hunknown _ _ h
  duplicate hbefore hname hmem ts := by
    rw [gathers_view view, view.apply_symm_apply] at hbefore
    exact hduplicate _ _ ts (occupied_of_gathers hbefore hname hmem)
  missing := by
    intro before after m s h hm
    rw [gathers_view view, view.apply_symm_apply] at h
    refine ⟨view.symm (none, (view s).2), ?_, hmissing _ (by rw [view.apply_symm_apply])⟩
    rw [gathers_view view, view.apply_symm_apply, view.apply_symm_apply]
    exact gathers_erase_first hnames h hm
  ignores := nofun

end RecordForm

/-! ### The objects of a description -/

theorem EdgeMembers.member_of_occupied (m : EdgeMembers) {name : String}
    (h : edgeForm.Occupied (view m) name) (ts : List Token) :
    member badName m name ts = .error (.refused (.duplicateField name)) := by
  obtain ⟨threshold, kind, settlingTime, edgeNum⟩ := m
  obtain ⟨ε, field, rfl, h⟩ := h
  cases field
  all_goals
    obtain ⟨a, rfl⟩ := Option.isSome_iff_exists.1 h
    rfl

theorem EdgeMembers.settings_of_none (m : EdgeMembers) (h : (view m).1 = none) :
    m.settings = refuse (.missingField "threshold") := by
  obtain ⟨threshold, kind, settlingTime, edgeNum⟩ := m
  cases h
  rfl

theorem isEdgeSettings_object_iff {ms : List Member} {e : EdgeSettings} :
    IsEdgeSettings (.object ms) e ↔ ∃ m : EdgeMembers,
      Gathers (fun s text v s' => edgeForm.Next (EdgeMembers.view s) text v
        (EdgeMembers.view s')) {} ms m ∧
      RecordForm.Makes (.rising, 0, 1) (EdgeMembers.view m) (EdgeMembers.parts e) := by
  change (∃ place, Supplies edgeForm.names (.object ms) place ∧
    edgeForm.Stands (.rising, 0, 1) place (EdgeMembers.parts e)) ↔ _
  exact RecordForm.supplies_object_iff EdgeMembers.view

theorem edgeObject_judges (badName : BadName) :
    edgeObject.Judges (optionalEdge badName) IsEdge (EdgeMembers.member badName)
      (fun s text v s' => edgeForm.Next (EdgeMembers.view s) text v (EdgeMembers.view s')) {}
      EdgeMembers.settings := by
  apply RecordForm.judges EdgeMembers.view edgeForm_names_nodup
  · exact (reaches_refl _).map some
  · exact EdgeMembers.readsMember
  · intro ms e h
    rcases h with ⟨h, -⟩ | ⟨settings, h, -⟩
    · cases h
    · obtain ⟨m, hgathers, -⟩ := isEdgeSettings_object_iff.1 h
      exact ⟨m, hgathers⟩
  · exact fun m name h => EdgeMembers.member_of_not_mem m h
  · exact fun m name ts h => EdgeMembers.member_of_occupied m h ts
  · exact EdgeMembers.settings_of_none

theorem SessionMembers.member_of_occupied (m : SessionMembers) {name : String}
    (h : sessionForm.Occupied (view m) name) (ts : List Token) :
    member badName m name ts = .error (.refused (.duplicateField name)) := by
  obtain ⟨aggregation, absoluteValue, foldPolicy, edge⟩ := m
  obtain ⟨ε, field, rfl, h⟩ := h
  cases field
  all_goals
    obtain ⟨a, rfl⟩ := Option.isSome_iff_exists.1 h
    rfl

theorem SessionMembers.config_of_none (m : SessionMembers) (h : (view m).1 = none) :
    m.config = refuse (.missingField "aggregation") := by
  obtain ⟨aggregation, absoluteValue, foldPolicy, edge⟩ := m
  cases h
  rfl

theorem isSession_object_iff {ms : List Member} {c : SessionConfig} :
    IsSession (.object ms) c ↔ ∃ m : SessionMembers,
      Gathers (fun s text v s' => sessionForm.Next (SessionMembers.view s) text v
        (SessionMembers.view s')) {} ms m ∧
      RecordForm.Makes (false, .reflect, none) (SessionMembers.view m)
        (SessionMembers.parts c) := by
  change (∃ place, Supplies sessionForm.names (.object ms) place ∧
    sessionForm.Stands (false, .reflect, none) place (SessionMembers.parts c)) ↔ _
  exact RecordForm.supplies_object_iff SessionMembers.view

theorem sessionObject_judges (badName : BadName) :
    sessionObject.Judges (session badName) IsSession (SessionMembers.member badName)
      (fun s text v s' => sessionForm.Next (SessionMembers.view s) text v
        (SessionMembers.view s')) {}
      SessionMembers.config := by
  apply RecordForm.judges SessionMembers.view sessionForm_names_nodup
  · exact reaches_refl _
  · exact SessionMembers.readsMember
  · intro ms c h
    obtain ⟨m, hgathers, -⟩ := isSession_object_iff.1 h
    exact ⟨m, hgathers⟩
  · exact fun m name h => SessionMembers.member_of_not_mem m h
  · exact fun m name ts h => SessionMembers.member_of_occupied m h ts
  · exact SessionMembers.config_of_none

theorem Padded.occurrences_eq {names : List String} {ms ms' : List Member} {name : String}
    (h : Padded names ms ms') (hname : name ∈ names) :
    occurrences name ms' = occurrences name ms := by
  induction h with
  | nil => rfl
  | keep m _ ih =>
      change occurrences name ([] ++ m :: _) = occurrences name ([] ++ m :: _)
      rw [occurrences_append_cons, occurrences_append_cons, ih]
  | @insert m other ms ms' hm hother _ ih =>
      have hne : other ≠ name := by
        rintro rfl
        exact hother hname
      have herase := @occurrences_erase other name hne [] ms' m hm
      exact herase.trans ih

theorem Padded.forall_isSome {names : List String} {ms ms' : List Member}
    (h : Padded names ms ms') (hms : ∀ m ∈ ms, m.text?.isSome) : ∀ m ∈ ms', m.text?.isSome := by
  induction h with
  | nil => exact hms
  | keep m _ ih =>
      rw [List.forall_mem_cons] at hms ⊢
      exact ⟨hms.1, ih hms.2⟩
  | insert hm _ _ ih =>
      rw [List.forall_mem_cons]
      exact ⟨by rw [hm]; rfl, ih hms⟩

theorem SizeForm.isSize_object_iff (form : SizeForm) {ms : List Member} {n : Nat} :
    IsSize form.field (.object ms) n ↔ (∀ m ∈ ms, m.text?.isSome) ∧
      Slot form.fieldForm.Is (occurrences form.field ms) (some n) := by
  constructor
  · intro h
    rcases h with ⟨size, h, -⟩ | ⟨_, h, hnames, hsize⟩
    · cases h
    · cases h
      exact ⟨hnames, required_iff.1 hsize⟩
  · intro h
    exact .inr ⟨ms, rfl, h.1, required_iff.2 h.2⟩

theorem SizeForm.gathers_iff (form : SizeForm) {ms : List Member} {found : Option Nat} :
    Gathers (fun before text v after => form.fieldForm.Step text v before after) none ms found ↔
      (∀ m ∈ ms, m.text?.isSome) ∧ Slot form.fieldForm.Is (occurrences form.field ms) found := by
  rw [FieldForm.gathers_iff, FieldForm.steps_none_iff]
  rfl

/-- The object with the size passes over other names. -/
theorem SizeForm.object_judges (form : SizeForm) : form.object.Judges form.content
    (fun v a => ∃ n, IsSize form.field v n ∧ a = form.make n) form.member
    (fun before text v after => form.fieldForm.Step text v before after) none
    (fun found => form.make <$> required form.field found) where
  opens := reaches_refl _
  reads := form.readsMember
  gathers := by
    intro ms a h
    obtain ⟨n, hsize, -⟩ := h
    exact ⟨some n, form.gathers_iff.2 (form.isSize_object_iff.1 hsize)⟩
  unknown := nofun
  duplicate := by
    intro before found name hbefore hname hmem ts
    cases List.mem_singleton.1 hname
    obtain ⟨m, hm, htext⟩ := hmem
    have hsome := isSome_of_slot (form.gathers_iff.1 hbefore).2 (occurrences_ne_nil hm htext)
    obtain ⟨n, rfl⟩ := Option.isSome_iff_exists.1 hsome
    rw [member, if_pos rfl]
    rfl
  missing := by
    intro before after m found h hm
    obtain ⟨hnames, hslot⟩ := form.gathers_iff.1 h
    have hsub := (List.sublist_cons_self m after).append_left before
    have hnames' : ∀ m' ∈ before ++ after, m'.text?.isSome := fun m' hm' =>
      hnames m' (hsub.subset hm')
    exact ⟨none, form.gathers_iff.2 ⟨hnames', slot_erase hslot hm⟩, rfl⟩
  ignores := by
    intro ms ms' a _ h hpadded
    obtain ⟨n, hsize, ha⟩ := h
    obtain ⟨hnames, hslot⟩ := form.isSize_object_iff.1 hsize
    refine ⟨n, form.isSize_object_iff.2 ⟨hpadded.forall_isSome hnames, ?_⟩, ha⟩
    rw [hpadded.occurrences_eq (List.mem_singleton.2 rfl)]
    exact hslot

end DigitiserSums.Description
