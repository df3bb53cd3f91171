import DigitiserSums.Proofs.Json.Readers
import DigitiserSums.Proofs.Schema
import Mathlib.Logic.Equiv.Defs

/-!
# Fields gathered from members

The members of an object are read one by one into a record of optional fields, each of which may be
set once; the elements of an array are read into the same record in order. Either way a field holds
in the end what stands in its place.
-/

namespace DigitiserSums.Description

open Json Reader

variable {α β γ δ σ κ : Type}

theorem text?_eq_some_iff {parts : List StringPart} {v : Value} {text : String} :
    Member.text? (parts, v) = some text ↔ decode parts = .ok text :=
  toOption_eq_some_iff

/-- A field: its name, and what a value has to be to stand for it. -/
structure FieldForm (α : Type) where
  name : String
  Is : Value → α → Prop

namespace FieldForm

/-- What becomes of a field at a member with the name `text`. -/
def Step (f : FieldForm α) (text : String) (v : Value) (before after : Option α) : Prop :=
  if text = f.name then before = none ∧ ∃ a, f.Is v a ∧ after = some a else after = before

/-- What becomes of a field at the values under its name. -/
def Steps (f : FieldForm α) : Option α → List Value → Option α → Prop
  | before, [], after => after = before
  | before, v :: vs, after => before = none ∧ ∃ a, f.Is v a ∧ f.Steps (some a) vs after

variable {f : FieldForm α}

/-- A field that starts empty takes one value at most. -/
theorem steps_none_iff {place : List Value} {after : Option α} :
    f.Steps none place after ↔ Slot f.Is place after := by
  match place with
  | [] => rw [slot_nil_iff]; rfl
  | [v] =>
      rw [slot_singleton_iff]
      constructor
      · intro h
        obtain ⟨-, a, ha, hafter⟩ := h
        exact ⟨a, ha, hafter⟩
      · intro h
        obtain ⟨a, ha, hafter⟩ := h
        exact ⟨rfl, a, ha, hafter⟩
  | v :: w :: vs =>
      constructor
      · intro h
        obtain ⟨-, a, -, hnone, -⟩ := h
        cases hnone
      · intro h
        rcases h with ⟨h, -⟩ | ⟨v', a, h, -⟩
        · cases h
        · cases h

/-- A field at the first member and at the others. -/
theorem steps_occurrences_cons {m : Member} {ms : List Member} {text : String}
    {before after : Option α} (h : m.text? = some text) :
    f.Steps before (occurrences f.name (m :: ms)) after ↔
      ∃ next, f.Step text m.2 before next ∧ f.Steps next (occurrences f.name ms) after := by
  unfold Step
  by_cases htext : text = f.name
  · have hfirst : occurrences f.name (m :: ms) = m.2 :: occurrences f.name ms := by
      simp [occurrences, h, htext]
    rw [hfirst]
    simp only [if_pos htext]
    constructor
    · intro hr
      obtain ⟨hnone, a, ha, hrest⟩ := hr
      exact ⟨some a, ⟨hnone, a, ha, rfl⟩, hrest⟩
    · intro hr
      obtain ⟨_, ⟨hnone, a, ha, rfl⟩, hrest⟩ := hr
      exact ⟨hnone, a, ha, hrest⟩
  · have hother : occurrences f.name (m :: ms) = occurrences f.name ms := by
      simp [occurrences, h, htext]
    rw [hother]
    simp only [if_neg htext]
    constructor
    · intro hrest
      exact ⟨before, rfl, hrest⟩
    · intro hr
      obtain ⟨_, rfl, hrest⟩ := hr
      exact hrest

/-- A field by itself takes the members with its name and passes over the others. -/
theorem gathers_iff {before after : Option α} {ms : List Member} :
    Gathers (fun before text v after => f.Step text v before after) before ms after ↔
      (∀ m ∈ ms, m.text?.isSome) ∧ f.Steps before (occurrences f.name ms) after := by
  induction ms generalizing before with
  | nil =>
      constructor
      · intro h
        exact ⟨nofun, h⟩
      · exact And.right
  | cons m ms ih =>
      obtain ⟨parts, v⟩ := m
      rw [List.forall_mem_cons]
      constructor
      · intro h
        obtain ⟨text, next, htext, hstep, hrest⟩ := h
        have hname := text?_eq_some_iff (v := v).2 htext
        obtain ⟨hnames, hfield⟩ := ih.1 hrest
        refine ⟨⟨by rw [hname]; rfl, hnames⟩, ?_⟩
        exact (steps_occurrences_cons hname).2 ⟨next, hstep, hfield⟩
      · intro h
        obtain ⟨⟨hfirst, hnames⟩, hfield⟩ := h
        obtain ⟨text, hname⟩ := Option.isSome_iff_exists.1 hfirst
        obtain ⟨next, hstep, hrest⟩ := (steps_occurrences_cons hname).1 hfield
        exact ⟨text, next, text?_eq_some_iff.1 hname, hstep, ih.2 ⟨hnames, hrest⟩⟩

/-- The reader fills the field behind its name, if it is still empty. -/
def Fills (f : FieldForm α) (before : Option α) (set : α → σ) (r : Reader σ) : Prop :=
  Takes r fun us s => ∃ v : Value, us = .colon :: v.tokens ∧ before = none ∧
    ∃ a, f.Is v a ∧ s = set a

theorem fills_freshMember {value : Reader α} (h : Reads value f.Is) (field : String)
    (before : Option α) (set : α → σ) :
    f.Fills before set (do return set (← freshMember field before value)) := by
  have hset (a : α) := takes_pure (set a)
  refine (takes_bind_check (takes_freshMember h field before) hset).congr fun us s => ?_
  constructor
  · intro hr
    obtain ⟨a, ⟨hnone, v, hus, ha⟩, hs⟩ := hr
    exact ⟨v, hus, hnone, a, ha, hs⟩
  · intro hr
    obtain ⟨v, hus, hnone, a, ha, hs⟩ := hr
    exact ⟨a, ⟨hnone, v, hus, ha⟩, hs⟩

end FieldForm

/-! ## What a place stands for -/

theorem required_iff {R : Value → α → Prop} {place : List Value} {a : α} :
    Required R place a ↔ Slot R place (some a) := by
  constructor
  · intro h
    obtain ⟨v, hplace, hR⟩ := h
    exact .inr ⟨v, a, hplace, hR, rfl⟩
  · intro h
    rcases h with ⟨-, h⟩ | ⟨v, a', hplace, hR, h⟩
    · cases h
    · cases h
      exact ⟨v, hplace, hR⟩

theorem optional_iff {R : Value → α → Prop} {absent : α} {place : List Value} {a : α} :
    Optional R absent place a ↔ ∃ o, Slot R place o ∧ a = o.getD absent := by
  constructor
  · intro h
    rcases h with ⟨hplace, rfl⟩ | ⟨v, hplace, hR⟩
    · exact ⟨none, .inl ⟨hplace, rfl⟩, rfl⟩
    · exact ⟨some a, .inr ⟨v, a, hplace, hR, rfl⟩, rfl⟩
  · intro h
    obtain ⟨o, ⟨hplace, rfl⟩ | ⟨v, a', hplace, hR, rfl⟩, rfl⟩ := h
    · exact .inl ⟨hplace, rfl⟩
    · exact .inr ⟨v, hplace, hR⟩

/-! ## Records of four fields -/

/-- The fields of a record. -/
structure RecordForm (α β γ δ : Type) where
  first : FieldForm α
  second : FieldForm β
  third : FieldForm γ
  fourth : FieldForm δ

/-- A record as it is filled. -/
abbrev Record (α β γ δ : Type) := Option α × Option β × Option γ × Option δ

namespace RecordForm

variable (form : RecordForm α β γ δ)

/-- The names of the fields. -/
def names : List String :=
  [form.first.name, form.second.name, form.third.name, form.fourth.name]

/-- What becomes of a record at a member. -/
def Next (before : Record α β γ δ) (text : String) (v : Value) (after : Record α β γ δ) : Prop :=
  text ∈ form.names ∧ form.first.Step text v before.1 after.1 ∧
    form.second.Step text v before.2.1 after.2.1 ∧ form.third.Step text v before.2.2.1 after.2.2.1 ∧
    form.fourth.Step text v before.2.2.2 after.2.2.2

/-- Each field holds what stands in its place. -/
def Filled (place : String → List Value) (fields : Record α β γ δ) : Prop :=
  Slot form.first.Is (place form.first.name) fields.1 ∧
    Slot form.second.Is (place form.second.name) fields.2.1 ∧
    Slot form.third.Is (place form.third.name) fields.2.2.1 ∧
    Slot form.fourth.Is (place form.fourth.name) fields.2.2.2

variable {form}

/-- The fields are filled apart from each other. -/
theorem gathers_iff {before after : Record α β γ δ} {ms : List Member} :
    Gathers form.Next before ms after ↔
      (∀ m ∈ ms, ∃ name ∈ form.names, m.text? = some name) ∧
        form.first.Steps before.1 (occurrences form.first.name ms) after.1 ∧
        form.second.Steps before.2.1 (occurrences form.second.name ms) after.2.1 ∧
        form.third.Steps before.2.2.1 (occurrences form.third.name ms) after.2.2.1 ∧
        form.fourth.Steps before.2.2.2 (occurrences form.fourth.name ms) after.2.2.2 := by
  induction ms generalizing before with
  | nil =>
      constructor
      · intro h
        subst h
        exact ⟨nofun, rfl, rfl, rfl, rfl⟩
      · intro h
        obtain ⟨-, h₁, h₂, h₃, h₄⟩ := h
        exact Prod.ext h₁ (Prod.ext h₂ (Prod.ext h₃ h₄))
  | cons m ms ih =>
      obtain ⟨parts, v⟩ := m
      rw [List.forall_mem_cons]
      constructor
      · intro h
        obtain ⟨text, next, htext, ⟨hmem, h₁, h₂, h₃, h₄⟩, hrest⟩ := h
        have hname := text?_eq_some_iff (v := v).2 htext
        obtain ⟨hnames, hrest₁, hrest₂, hrest₃, hrest₄⟩ := ih.1 hrest
        refine ⟨⟨⟨text, hmem, hname⟩, hnames⟩, ?_, ?_, ?_, ?_⟩
        · exact (FieldForm.steps_occurrences_cons hname).2 ⟨_, h₁, hrest₁⟩
        · exact (FieldForm.steps_occurrences_cons hname).2 ⟨_, h₂, hrest₂⟩
        · exact (FieldForm.steps_occurrences_cons hname).2 ⟨_, h₃, hrest₃⟩
        · exact (FieldForm.steps_occurrences_cons hname).2 ⟨_, h₄, hrest₄⟩
      · intro h
        obtain ⟨⟨⟨text, hmem, hname⟩, hnames⟩, h₁, h₂, h₃, h₄⟩ := h
        obtain ⟨a, hstep₁, hrest₁⟩ := (FieldForm.steps_occurrences_cons hname).1 h₁
        obtain ⟨b, hstep₂, hrest₂⟩ := (FieldForm.steps_occurrences_cons hname).1 h₂
        obtain ⟨c, hstep₃, hrest₃⟩ := (FieldForm.steps_occurrences_cons hname).1 h₃
        obtain ⟨d, hstep₄, hrest₄⟩ := (FieldForm.steps_occurrences_cons hname).1 h₄
        exact ⟨text, (a, b, c, d), text?_eq_some_iff.1 hname,
          ⟨hmem, hstep₁, hstep₂, hstep₃, hstep₄⟩, ih.2 ⟨hnames, hrest₁, hrest₂, hrest₃, hrest₄⟩⟩

theorem gathers_none_iff {after : Record α β γ δ} {ms : List Member} :
    Gathers form.Next (none, none, none, none) ms after ↔
      (∀ m ∈ ms, ∃ name ∈ form.names, m.text? = some name) ∧
        form.Filled (fun name => occurrences name ms) after := by
  rw [gathers_iff]
  simp only [FieldForm.steps_none_iff]
  rfl

/-- What a record makes: the first field has to be there, and the others may stand for `absent`. -/
def Makes (absent : β × γ × δ) (fields : Record α β γ δ) (made : α × β × γ × δ) : Prop :=
  fields.1 = some made.1 ∧ made.2.1 = fields.2.1.getD absent.1 ∧
    made.2.2.1 = fields.2.2.1.getD absent.2.1 ∧ made.2.2.2 = fields.2.2.2.getD absent.2.2

/-- What the places of a record stand for. -/
def Stands (form : RecordForm α β γ δ) (absent : β × γ × δ) (place : String → List Value)
    (made : α × β × γ × δ) : Prop :=
  Required form.first.Is (place form.first.name) made.1 ∧
    Optional form.second.Is absent.1 (place form.second.name) made.2.1 ∧
    Optional form.third.Is absent.2.1 (place form.third.name) made.2.2.1 ∧
    Optional form.fourth.Is absent.2.2 (place form.fourth.name) made.2.2.2

theorem exists_filled_iff {absent : β × γ × δ} {place : String → List Value}
    {made : α × β × γ × δ} :
    (∃ fields, form.Filled place fields ∧ Makes absent fields made) ↔
      form.Stands absent place made := by
  unfold Stands
  rw [required_iff, optional_iff, optional_iff, optional_iff]
  constructor
  · intro h
    obtain ⟨fields, ⟨h₁, h₂, h₃, h₄⟩, hfirst, hsecond, hthird, hfourth⟩ := h
    rw [hfirst] at h₁
    exact ⟨h₁, ⟨_, h₂, hsecond⟩, ⟨_, h₃, hthird⟩, _, h₄, hfourth⟩
  · intro h
    obtain ⟨h₁, ⟨b, h₂, hsecond⟩, ⟨c, h₃, hthird⟩, d, h₄, hfourth⟩ := h
    exact ⟨(some made.1, b, c, d), ⟨h₁, h₂, h₃, h₄⟩, rfl, hsecond, hthird, hfourth⟩

/-- The elements fill the fields in order, and none is left over. -/
def FilledInOrder (form : RecordForm α β γ δ) (vs : List Value) (fields : Record α β γ δ) : Prop :=
  Slot form.first.Is vs.head?.toList fields.1 ∧
    Slot form.second.Is vs.tail.head?.toList fields.2.1 ∧
    Slot form.third.Is vs.tail.tail.head?.toList fields.2.2.1 ∧
    Slot form.fourth.Is vs.tail.tail.tail.head?.toList fields.2.2.2 ∧
    vs.tail.tail.tail.tail = []

theorem filledInOrder_iff (hnames : form.names.Nodup) {vs : List Value} {fields : Record α β γ δ} :
    form.FilledInOrder vs fields ↔ vs.length ≤ form.names.length ∧
      form.Filled (fun name => vs[form.names.idxOf name]?.toList) fields := by
  have hlength : vs.length ≤ form.names.length ↔ vs.tail.tail.tail.tail = [] := by
    rw [← List.length_eq_zero_iff]
    simp only [names, List.length_tail, List.length_cons, List.length_nil]
    omega
  have hplaces : form.names.idxOf form.first.name = 0 ∧ form.names.idxOf form.second.name = 1 ∧
      form.names.idxOf form.third.name = 2 ∧ form.names.idxOf form.fourth.name = 3 := by
    simp only [names, List.nodup_cons, List.mem_cons, List.not_mem_nil, or_false, not_or] at hnames
    obtain ⟨⟨h₁₂, h₁₃, h₁₄⟩, ⟨h₂₃, h₂₄⟩, h₃₄, -⟩ := hnames
    simp [names, List.idxOf_cons, beq_eq_false_iff_ne.2 h₁₂, beq_eq_false_iff_ne.2 h₁₃,
      beq_eq_false_iff_ne.2 h₁₄, beq_eq_false_iff_ne.2 h₂₃, beq_eq_false_iff_ne.2 h₂₄,
      beq_eq_false_iff_ne.2 h₃₄]
  obtain ⟨h₁, h₂, h₃, h₄⟩ := hplaces
  unfold FilledInOrder Filled
  simp only [hlength, h₁, h₂, h₃, h₄, List.head?_eq_getElem?, List.getElem?_tail]
  constructor
  · intro hr
    obtain ⟨hfirst, hsecond, hthird, hfourth, hend⟩ := hr
    exact ⟨hend, hfirst, hsecond, hthird, hfourth⟩
  · intro hr
    obtain ⟨hend, hfirst, hsecond, hthird, hfourth⟩ := hr
    exact ⟨hfirst, hsecond, hthird, hfourth, hend⟩

/-! ## Readers of records -/

theorem gathers_view {τ : Type} (view : σ ≃ τ) {S : τ → String → Value → τ → Prop} {s s' : σ}
    {ms : List Member} :
    Gathers (fun s text v s' => S (view s) text v (view s')) s ms s' ↔
      Gathers S (view s) ms (view s') := by
  induction ms generalizing s with
  | nil => exact view.apply_eq_iff_eq.symm
  | cons m ms ih =>
      obtain ⟨parts, v⟩ := m
      constructor
      · intro h
        obtain ⟨text, next, htext, hS, hrest⟩ := h
        exact ⟨text, view next, htext, hS, ih.1 hrest⟩
      · intro h
        obtain ⟨text, next, htext, hS, hrest⟩ := h
        refine ⟨text, view.symm next, htext, ?_, ih.2 ?_⟩
        · change S (view s) text v (view (view.symm next))
          rwa [view.apply_symm_apply]
        · rwa [view.apply_symm_apply]

/-- What stands in the places of an object is what its members fill. -/
theorem supplies_object_iff {τ : Type} (view : τ ≃ Record α β γ δ) {absent : β × γ × δ}
    {ms : List Member} {made : α × β × γ × δ} :
    (∃ place, Supplies form.names (.object ms) place ∧ form.Stands absent place made) ↔
      ∃ s, Gathers (fun s text v s' => form.Next (view s) text v (view s'))
        (view.symm (none, none, none, none)) ms s ∧ Makes absent (view s) made := by
  simp only [gathers_view view, view.apply_symm_apply, gathers_none_iff, ← exists_filled_iff]
  constructor
  · intro h
    obtain ⟨place, hplace, fields, hfilled, hmakes⟩ := h
    cases hplace with
    | members hknown =>
        refine ⟨view.symm fields, ?_⟩
        rw [view.apply_symm_apply]
        exact ⟨⟨hknown, hfilled⟩, hmakes⟩
  · intro h
    obtain ⟨s, ⟨hknown, hfilled⟩, hmakes⟩ := h
    exact ⟨_, .members hknown, view s, hfilled, hmakes⟩

theorem supplies_array_iff (hnames : form.names.Nodup) {absent : β × γ × δ} {vs : List Value}
    {made : α × β × γ × δ} :
    (∃ place, Supplies form.names (.array vs) place ∧ form.Stands absent place made) ↔
      ∃ fields, form.FilledInOrder vs fields ∧ Makes absent fields made := by
  simp only [filledInOrder_iff hnames, ← exists_filled_iff]
  constructor
  · intro h
    obtain ⟨place, hplace, fields, hfilled, hmakes⟩ := h
    cases hplace with
    | elements hlength => exact ⟨fields, ⟨hlength, hfilled⟩, hmakes⟩
  · intro h
    obtain ⟨fields, ⟨hlength, hfilled⟩, hmakes⟩ := h
    exact ⟨_, .elements hlength, fields, hfilled, hmakes⟩

end RecordForm

/-! ## One field among four -/

/-- A field of a record, by its place. -/
inductive RecordField (α β γ δ : Type) : Type → Type
  | first : RecordField α β γ δ α
  | second : RecordField α β γ δ β
  | third : RecordField α β γ δ γ
  | fourth : RecordField α β γ δ δ

namespace RecordField

variable {ε : Type} {form : RecordForm α β γ δ}

/-- What the form of a record says about the field. -/
def of (form : RecordForm α β γ δ) : RecordField α β γ δ ε → FieldForm ε
  | first => form.first
  | second => form.second
  | third => form.third
  | fourth => form.fourth

def get (fields : Record α β γ δ) : RecordField α β γ δ ε → Option ε
  | first => fields.1
  | second => fields.2.1
  | third => fields.2.2.1
  | fourth => fields.2.2.2

/-- Fills the field. -/
def set (fields : Record α β γ δ) : RecordField α β γ δ ε → ε → Record α β γ δ
  | first, a => (some a, fields.2)
  | second, b => (fields.1, some b, fields.2.2)
  | third, c => (fields.1, fields.2.1, some c, fields.2.2.2)
  | fourth, d => (fields.1, fields.2.1, fields.2.2.1, some d)

theorem exists_of_mem_names {text : String} (h : text ∈ form.names) :
    ∃ (ε : Type) (field : RecordField α β γ δ ε), text = (field.of form).name := by
  simp only [RecordForm.names, List.mem_cons, List.not_mem_nil, or_false] at h
  rcases h with rfl | rfl | rfl | rfl
  · exact ⟨α, first, rfl⟩
  · exact ⟨β, second, rfl⟩
  · exact ⟨γ, third, rfl⟩
  · exact ⟨δ, fourth, rfl⟩

theorem slot_of_filled (field : RecordField α β γ δ ε) {place : String → List Value}
    {fields : Record α β γ δ} (h : form.Filled place fields) :
    Slot (field.of form).Is (place (field.of form).name) (field.get fields) := by
  obtain ⟨h₁, h₂, h₃, h₄⟩ := h
  cases field with
  | first => exact h₁
  | second => exact h₂
  | third => exact h₃
  | fourth => exact h₄

/-- Under its name the field is filled, if it is still empty, and the others stay as they are. -/
theorem next_iff (field : RecordField α β γ δ ε) (hnames : form.names.Nodup)
    {before after : Record α β γ δ} {v : Value} :
    form.Next before (field.of form).name v after ↔
      field.get before = none ∧ ∃ e, (field.of form).Is v e ∧ after = field.set before e := by
  obtain ⟨a, b, c, d⟩ := after
  simp only [RecordForm.Next, RecordForm.names, FieldForm.Step] at hnames ⊢
  cases field <;> simp only [RecordField.of, get, set] <;> grind

end RecordField

namespace RecordForm

variable {form : RecordForm α β γ δ}

/-- Each name of a record fills its own field and leaves the others as they are. -/
theorem readsMember_record {member : σ → String → Reader σ} (view : σ ≃ Record α β γ δ)
    (hnames : form.names.Nodup)
    (hfields : ∀ {ε : Type} (field : RecordField α β γ δ ε) (s : σ),
      (field.of form).Fills (field.get (view s)) (fun e => view.symm (field.set (view s) e))
        (member s (field.of form).name))
    (hother : ∀ s text, text ∉ form.names → Takes (member s text) fun _ _ => False) :
    ReadsMember member fun s text v s' => form.Next (view s) text v (view s') := by
  intro s text
  by_cases htext : text ∈ form.names
  · obtain ⟨ε, field, rfl⟩ := RecordField.exists_of_mem_names htext
    refine (hfields field s).congr fun us s' => ?_
    simp only [field.next_iff hnames, view.eq_symm_apply]
  · refine (hother s text htext).congr fun us s' => ?_
    simp [Next, htext]

/-- What follows the first element: fields that may be left off at the end. -/
theorem takesMore_record {r₂ : Reader β} {r₃ : Reader γ} {r₄ : Reader δ}
    (h₂ : Reads r₂ form.second.Is) (h₃ : Reads r₃ form.third.Is) (h₄ : Reads r₄ form.fourth.Is)
    (view : σ ≃ Record α β γ δ) (tooShort : Mismatch) (a : Option α) :
    TakesMore
      (do
        if a.isNone then
          refuse tooShort
        let b ← nextElement r₂
        let c ← nextElement r₃
        let d ← nextElement r₄
        punctuation .closeBracket
        return view.symm (a, b, c, d))
      fun vs s => a.isSome ∧ ∃ b, Slot form.second.Is vs.head?.toList b ∧
        ∃ c, Slot form.third.Is vs.tail.head?.toList c ∧
          ∃ d, Slot form.fourth.Is vs.tail.tail.head?.toList d ∧
            vs.tail.tail.tail = [] ∧ s = view.symm (a, b, c, d) := by
  cases a with
  | none =>
      refine (takes_refuse tooShort).congr fun us s => ?_
      simp
  | some a =>
      have hend (b : Option β) (c : Option γ) (d : Option δ) :=
        takesMore_closeBracket (view.symm (some a, b, c, d))
      have hlast (b : Option β) (c : Option γ) := takesMore_nextElement h₄ (hend b c)
      have hthird (b : Option β) := takesMore_nextElement h₃ (hlast b)
      refine (takesMore_nextElement h₂ hthird).congr fun us s => ?_
      simp

/-- The first element of an array has to be there. -/
theorem takesElements_record {r₁ : Reader α} {r₂ : Reader β} {r₃ : Reader γ} {r₄ : Reader δ}
    (h₁ : Reads r₁ form.first.Is) (h₂ : Reads r₂ form.second.Is) (h₃ : Reads r₃ form.third.Is)
    (h₄ : Reads r₄ form.fourth.Is) (view : σ ≃ Record α β γ δ) (tooShort : Mismatch) :
    TakesElements
      (do
        let a ← firstElement r₁
        if a.isNone then
          refuse tooShort
        let b ← nextElement r₂
        let c ← nextElement r₃
        let d ← nextElement r₄
        punctuation .closeBracket
        return view.symm (a, b, c, d))
      fun vs s => (view s).1.isSome ∧ form.FilledInOrder vs (view s) := by
  have hrest := takesMore_record h₂ h₃ h₄ view tooShort
  refine (takesElements_firstElement h₁ hrest).congr fun us s => ?_
  constructor
  · intro hr
    obtain ⟨vs, hus, a, ha, hsome, b, hb, c, hc, d, hd, hend, rfl⟩ := hr
    refine ⟨vs, hus, ?_⟩
    change (view (view.symm _)).1.isSome ∧ form.FilledInOrder vs (view (view.symm _))
    rw [view.apply_symm_apply]
    exact ⟨hsome, ha, hb, hc, hd, hend⟩
  · intro hr
    obtain ⟨vs, hus, hsome, ha, hb, hc, hd, hend⟩ := hr
    exact ⟨vs, hus, _, ha, hsome, _, hb, _, hc, _, hd, hend, (view.symm_apply_apply s).symm⟩

section Finish

variable {ofArray : Reader σ} {member : σ → String → Reader σ} {finish : σ → Reader κ}
  (view : σ ≃ Record α β γ δ) {absent : β × γ × δ} {parts : κ → α × β × γ × δ}

theorem takesElements_bind_finish (hnames : form.names.Nodup)
    (hofArray : TakesElements ofArray fun vs s =>
      (view s).1.isSome ∧ form.FilledInOrder vs (view s))
    (hfinish : ∀ s, Takes (finish s) fun us k => us = [] ∧ Makes absent (view s) (parts k)) :
    TakesElements (ofArray >>= finish) fun vs k =>
      ∃ place, Supplies form.names (.array vs) place ∧ form.Stands absent place (parts k) := by
  refine (takes_bind_check hofArray hfinish).congr fun us k => ?_
  simp only [supplies_array_iff hnames, view.surjective.exists]
  constructor
  · intro hr
    obtain ⟨s, ⟨vs, hus, -, hvs⟩, hmakes⟩ := hr
    exact ⟨vs, hus, s, hvs, hmakes⟩
  · intro hr
    obtain ⟨vs, hus, s, hvs, hmakes⟩ := hr
    exact ⟨s, ⟨vs, hus, by rw [hmakes.1]; rfl, hvs⟩, hmakes⟩

theorem takes_members_bind_finish
    (hmember : ReadsMember member fun s text v s' => form.Next (view s) text v (view s'))
    (hfinish : ∀ s, Takes (finish s) fun us k => us = [] ∧ Makes absent (view s) (parts k)) :
    Takes (members member (view.symm (none, none, none, none)) >>= finish) fun us k =>
      ∃ ms, us = memberTokens ms ∧
        ∃ place, Supplies form.names (.object ms) place ∧ form.Stands absent place (parts k) := by
  refine (takes_bind_check (takes_members hmember _) hfinish).congr fun us k => ?_
  simp only [supplies_object_iff view]
  constructor
  · intro hr
    obtain ⟨s, ⟨ms, hus, hgathers⟩, hmakes⟩ := hr
    exact ⟨ms, hus, s, hgathers, hmakes⟩
  · intro hr
    obtain ⟨ms, hus, s, hgathers, hmakes⟩ := hr
    exact ⟨s, ⟨ms, hus, hgathers⟩, hmakes⟩

/-- A record is read from an object or from an array, and then finished. -/
theorem reads_record (hnames : form.names.Nodup)
    (hmember : ReadsMember member fun s text v s' => form.Next (view s) text v (view s'))
    (hofArray : TakesElements ofArray fun vs s =>
      (view s).1.isSome ∧ form.FilledInOrder vs (view s))
    (hfinish : ∀ s, Takes (finish s) fun us k => us = [] ∧ Makes absent (view s) (parts k))
    (wanted : String) :
    Reads (enclosed (ofArray >>= finish)
      (members member (view.symm (none, none, none, none)) >>= finish) wanted)
      fun v k => ∃ place, Supplies form.names v place ∧ form.Stands absent place (parts k) := by
  have helements := takesElements_bind_finish view hnames hofArray hfinish
  have hmembers := takes_members_bind_finish view hmember hfinish
  refine (reads_enclosed helements hmembers wanted).congr fun v k => ?_
  cases v with
  | array vs => exact Iff.rfl
  | object ms => exact Iff.rfl
  | null | bool | number | string => exact ⟨False.elim, fun h => nomatch h.choose_spec.1⟩

end Finish

end RecordForm

end DigitiserSums.Description
