import DigitiserSums.Proofs.Judging
import DigitiserSums.Proofs.Truncations

/-!
# Members too many and too few

Wherever in an accepted description an object stands, a member too many or too few is found there:
the reader of the whole comes to the reader of the object, and what that one refuses is refused,
whatever follows.
-/

namespace DigitiserSums.Description

open Json Reader

variable {α β γ σ τ : Type} {badName : BadName}

/-! ## The way to an object -/

/-- Where the reader `r` takes the context `K` with some value in it, it comes to the reader `q` at
the hole, and any other value of which `q` makes the same may stand there. -/
def Leads (r : Reader α) (R : Value → α → Prop) (K : Context) (q : Reader β)
    (Q : Value → β → Prop) : Prop :=
  ∀ v a, R (K.fill v) a →
    r.Reaches K.front q ∧ ∃ b, Q v b ∧ ∀ v', Q v' b → R (K.fill v') a

theorem leads_hole (r : Reader α) (R : Value → α → Prop) : Leads r R .hole r R :=
  fun _ a h => ⟨reaches_refl r, a, h, fun _ => id⟩

variable {q : Reader γ} {Q : Value → γ → Prop} {K : Context}

/-- A member of the session, whose reader is `value`. -/
theorem leads_sessionMember {value : Reader β} {Is : Value → β → Prop} {text : String}
    {name : List StringPart} (hname : decode name = .ok text) (hinner : Leads value Is K q Q)
    (hfield : ∀ m v m', sessionForm.Next (SessionMembers.view m) text v (SessionMembers.view m') →
      (SessionMembers.member badName m text).Reaches [.colon] value ∧ ∃ b, Is v b ∧ ∀ v', Is v' b →
        sessionForm.Next (SessionMembers.view m) text v' (SessionMembers.view m'))
    (before after : List Member) :
    Leads (session badName) IsSession (.member before name K after) q Q := by
  intro v c h
  obtain ⟨m, hgathers, hmakes⟩ := isSession_object_iff.1 h
  obtain ⟨here, hbefore, text', next, htext, hnext, hafter⟩ := gathers_append_iff.1 hgathers
  cases hname.symm.trans htext
  obtain ⟨hvalue, b, hb, hother⟩ := hfield here _ next hnext
  obtain ⟨hreach, a, ha, hsame⟩ := hinner v b hb
  refine ⟨?_, a, ha, fun v' hv' => isSession_object_iff.2 ⟨m, ?_, hmakes⟩⟩
  · have hjudges := sessionObject_judges badName
    have hmembers := (reaches_members hjudges.reads hbefore hname).bind SessionMembers.config
    have hfront := ((hjudges.opens.trans hmembers).trans hvalue).trans hreach
    simpa [Context.front] using hfront
  · exact gathers_append_iff.2
      ⟨here, hbefore, text, next, hname, hother _ (hsame v' hv'), hafter⟩

theorem leads_aggregationMember {name : List StringPart} (hname : decode name = .ok "aggregation")
    (hinner : Leads (aggregation badName) IsAggregation K q Q) (before after : List Member) :
    Leads (session badName) IsSession (.member before name K after) q Q := by
  refine leads_sessionMember hname hinner (fun m v m' h => ?_) before after
  have hnext (v : Value) : sessionForm.Next (SessionMembers.view m) "aggregation" v
      (SessionMembers.view m') ↔ _ := RecordField.first.next_iff sessionForm_names_nodup
  obtain ⟨hnone, a, ha, hafter⟩ := (hnext v).1 h
  refine ⟨?_, a, ha, fun v' hv' => (hnext v').2 ⟨hnone, a, hv', hafter⟩⟩
  obtain ⟨aggregation, absoluteValue, foldPolicy, edge⟩ := m
  cases hnone
  exact (reaches_freshMember "aggregation" (Description.aggregation badName)).bind _

theorem leads_edgeMember {name : List StringPart} (hname : decode name = .ok "edge-trigger")
    (before after : List Member) :
    Leads (session badName) IsSession (.member before name .hole after) (optionalEdge badName)
      IsEdge := by
  refine leads_sessionMember hname (leads_hole _ _) (fun m v m' h => ?_) before after
  have hnext (v : Value) : sessionForm.Next (SessionMembers.view m) "edge-trigger" v
      (SessionMembers.view m') ↔ _ := RecordField.fourth.next_iff sessionForm_names_nodup
  obtain ⟨hnone, e, he, hafter⟩ := (hnext v).1 h
  refine ⟨?_, e, he, fun v' hv' => (hnext v').2 ⟨hnone, e, hv', hafter⟩⟩
  obtain ⟨aggregation, absoluteValue, foldPolicy, edge⟩ := m
  cases hnone
  exact (reaches_freshMember "edge-trigger" (optionalEdge badName)).bind _

theorem leads_content {kind : List StringPart} {text : String} {form : SizeForm}
    (hkind : decode kind = .ok text) (hform : sizeForms.lookup text = some form) :
    Leads (aggregation badName) IsAggregation (.member [] kind .hole []) form.content
      fun v a => ∃ n, IsSize form.field v n ∧ a = form.make n := by
  intro v a h
  obtain ⟨kind', text', form', content, hv, hkind', hform', n, hsize, ha⟩ := isAggregation_iff.1 h
  cases hv
  cases hkind.symm.trans hkind'
  cases hform.symm.trans hform'
  refine ⟨?_, a, ⟨n, hsize, ha⟩, fun v' hv' => ?_⟩
  · have hvariant (ts : List Token) :
        variant badName sizeForms ([.openBrace, .string kind] ++ ts) = .ok ((form, true), ts) :=
      Takes.run (a := (form, true)) (takes_variant badName sizeForms)
        ⟨kind, text, hkind, hform, rfl⟩ ts
    have hcontent := (reaches_refl form.content).bind fun a => do
      punctuation .closeBrace
      return a
    have hcolon := (reaches_punctuation .colon _).trans hcontent
    exact (reaches_of_ok hvariant _).trans hcolon
  · exact isAggregation_iff.2 ⟨kind, text, form, v', rfl, hkind, hform, hv'⟩

theorem isSession_array_iff {vs : List Value} {c : SessionConfig} :
    IsSession (.array vs) c ↔ ∃ fields, sessionForm.FilledInOrder vs fields ∧
      RecordForm.Makes (false, .reflect, none) fields (SessionMembers.parts c) := by
  change (∃ place, Supplies sessionForm.names (.array vs) place ∧
    sessionForm.Stands (false, .reflect, none) place (SessionMembers.parts c)) ↔ _
  exact RecordForm.supplies_array_iff sessionForm_names_nodup

theorem reaches_session_array :
    (session badName).Reaches [.openBracket]
      (SessionMembers.ofArray badName >>= SessionMembers.config) :=
  reaches_refl _

/-- The first element of the session, if it is an object. -/
theorem leads_aggregationElement {front : List Token} (hfront : K.front = .openBrace :: front)
    (hinner : Leads (aggregation badName) IsAggregation K q Q) (after : List Value) :
    Leads (session badName) IsSession (.element [] K after) q Q := by
  intro v c h
  obtain ⟨fields, ⟨hfirst, hrest⟩, hmakes⟩ := isSession_array_iff.1 h
  obtain ⟨b, hb, hfields⟩ := slot_singleton_iff.1 hfirst
  obtain ⟨hreach, a, ha, hsame⟩ := hinner v b hb
  refine ⟨?_, a, ha, fun v' hv' => isSession_array_iff.2 ⟨fields, ⟨?_, hrest⟩, hmakes⟩⟩
  · rw [Context.front, hfront]
    rw [hfront] at hreach
    have helement : (SessionMembers.ofArray badName).Reaches (.openBrace :: front) q :=
      (reaches_firstElement (by decide) hreach).bind _
    exact reaches_session_array.trans (helement.bind SessionMembers.config)
  · exact slot_singleton_iff.2 ⟨b, hsame v' hv', hfields⟩

/-- The fourth element of the session. -/
theorem leads_edgeElement {before : List Value} (hbefore : before.length = 3)
    (after : List Value) :
    Leads (session badName) IsSession (.element before .hole after) (optionalEdge badName)
      IsEdge := by
  intro v c h
  obtain ⟨fields, ⟨h₁, h₂, h₃, h₄, hend⟩, hmakes⟩ := isSession_array_iff.1 h
  match before, hbefore with
  | [v₁, v₂, v₃], _ =>
      obtain ⟨a, ha, hfirst⟩ := slot_singleton_iff.1 h₁
      obtain ⟨b, hb, hsecond⟩ := slot_singleton_iff.1 h₂
      obtain ⟨p, hp, hthird⟩ := slot_singleton_iff.1 h₃
      obtain ⟨e, he, hfourth⟩ := slot_singleton_iff.1 h₄
      refine ⟨?_, e, he, fun v' hv' => isSession_array_iff.2
        ⟨fields, ⟨h₁, h₂, h₃, slot_singleton_iff.2 ⟨e, hv', hfourth⟩, hend⟩, hmakes⟩⟩
      -- Three elements are taken whole, and the comma behind them belongs to the fourth.
      have hread₁ (ts : List Token) :
          firstElement (aggregation badName) (v₁.tokens ++ ts) = .ok (some a, ts) :=
        (takesSlot_firstElement reads_aggregation _ _ _).2 (.inr ⟨v₁, a, rfl, ha, rfl⟩)
      have hread₂ (ts : List Token) :
          nextElement bool (.comma :: v₂.tokens ++ ts) = .ok (some b, ts) :=
        (takesSlot_nextElement reads_bool _ _ _).2 (.inr ⟨v₂, b, rfl, hb, rfl⟩)
      have hread₃ (ts : List Token) :
          nextElement (foldPolicy badName) (.comma :: v₃.tokens ++ ts) = .ok (some p, ts) :=
        (takesSlot_nextElement reads_foldPolicy _ _ _).2 (.inr ⟨v₃, p, rfl, hp, rfl⟩)
      have hofArray : (SessionMembers.ofArray badName).Reaches
          (v₁.tokens ++ (.comma :: v₂.tokens ++ (.comma :: v₃.tokens ++ [.comma])))
          (optionalEdge badName) :=
        (reaches_of_ok hread₁ _).trans ((reaches_of_ok hread₂ _).trans
          ((reaches_of_ok hread₃ _).trans ((reaches_nextElement (optionalEdge badName)).bind _)))
      have hfront := reaches_session_array.trans (hofArray.bind SessionMembers.config)
      simpa [Context.front, elementsBefore] using hfront

/-! ## Objects where they stand -/

/-- Where the objects of a description stand: the session is the whole of it, the edge trigger a
member or the last element of the session, and the object with the size stands under the name of
its aggregator, in a member or the first element of the session. -/
inductive ObjectForm.At : ObjectForm → Context → Prop
  | session : At sessionObject .hole
  | edgeMember {before after : List Member} {name : List StringPart} :
      decode name = .ok "edge-trigger" → At edgeObject (.member before name .hole after)
  | edgeElement {before after : List Value} :
      before.length = 3 → At edgeObject (.element before .hole after)
  | sizeMember {before after : List Member} {name kind : List StringPart} {text : String}
      {form : SizeForm} : decode name = .ok "aggregation" → decode kind = .ok text →
      sizeForms.lookup text = some form →
      At form.object (.member before name (.member [] kind .hole []) after)
  | sizeElement {after : List Value} {kind : List StringPart} {text : String} {form : SizeForm} :
      decode kind = .ok text → sizeForms.lookup text = some form →
      At form.object (.element [] (.member [] kind .hole []) after)

/-- What becomes of texts that differ from a description of `c` in the members `ms` of the object at
`K`. The first three hold of what a text starts with, whatever follows. -/
structure ObjectForm.Guards (object : ObjectForm) (badName : BadName) (K : Context)
    (ms : List Member) (c : SessionConfig) : Prop where
  /-- The object refuses another name than its own, if it is strict. -/
  unknown (before after : List Member) (parts : List StringPart) {name front : String} :
    object.strict = true → ms = before ++ after → decode parts = .ok name → name ∉ object.names →
      Layout (K.upToName before parts) front.toList → ∀ rest,
        ofText badName (front ++ rest) = .error (.refused (.unknownField name object.names))
  /-- It refuses a name of its own the second time. -/
  duplicate (before after : List Member) (parts : List StringPart) {name front : String} :
    ms = before ++ after → decode parts = .ok name → name ∈ object.names →
      (∃ m ∈ before, m.text? = some name) → Layout (K.upToName before parts) front.toList →
        ∀ rest, ofText badName (front ++ rest) = .error (.refused (.duplicateField name))
  /-- It is refused without the member that it needs. -/
  missing (before after : List Member) {m : Member} {front : String} :
    ms = before ++ m :: after → m.text? = some object.required →
      Layout (K.front ++ (Value.object (before ++ after)).tokens) front.toList → ∀ rest,
        ofText badName (front ++ rest) = .error (.refused (.missingField object.required))
  /-- If it is not strict, it takes any members with other names. -/
  ignores (ms' : List Member) {text : String} :
    object.strict = false → Padded object.names ms ms' →
      Layout (K.fill (.object ms')).tokens text.toList → ofText badName text = .ok c

theorem ofText_of_session_error {front : List Token} {text : String} {fault : Fault}
    (h : Layout front text.toList) (hsound : Sound front)
    (hlast : ∀ n, front.getLast? ≠ some (.number n))
    (hsession : ∀ ts, session badName (front ++ ts) = .error fault) (rest : String) :
    ofText badName (text ++ rest) = .error fault := by
  rw [ofText, readAll, tokens_append_of_layout h hsound hlast rest, hsession]

section Guards

variable {object : ObjectForm} {member : σ → String → Reader σ}
  {S : σ → String → Value → σ → Prop} {start s : σ} {finish : σ → Reader τ} {ms : List Member}
  {c : SessionConfig}

/-- A member that the object refuses after those before it is refused in the whole. -/
theorem session_error_of_member (hjudges : object.Judges q Q member S start finish)
    (hreach : (session badName).Reaches K.front q) {before : List Member} {parts : List StringPart}
    {name : String} {m : Mismatch} (hbefore : Gathers S start before s)
    (hname : decode parts = .ok name) (hmember : ∀ ts, member s name ts = .error (.refused m))
    (ts : List Token) : session badName (K.upToName before parts ++ ts) = .error (.refused m) := by
  have hmembers := (reaches_members hjudges.reads hbefore hname).bind finish
  have hobject := ((hreach.trans hjudges.opens).trans hmembers) ts _ (hmember ts)
  simpa [Context.upToName] using hobject

theorem session_error_of_finish (hjudges : object.Judges q Q member S start finish)
    (hreach : (session badName).Reaches K.front q) (hgathers : Gathers S start ms s) {m : Mismatch}
    (hfinish : finish s = refuse m) (ts : List Token) :
    session badName (K.front ++ (Value.object ms).tokens ++ ts) = .error (.refused m) := by
  have hmembers := (takes_members hjudges.reads start).run ⟨ms, rfl, hgathers⟩
  have hend := (hreach.trans hjudges.opens).trans (reaches_of_ok hmembers finish)
  have hobject := hend ts (.refused m) (by rw [hfinish]; rfl)
  simpa [Value.tokens] using hobject

/-- An object that the session is led to is judged as its own reader judges it. -/
theorem ObjectForm.Judges.guards (hjudges : object.Judges q Q member S start finish)
    (hleads : Leads (session badName) IsSession K q Q) (h : IsSession (K.fill (.object ms)) c) :
    object.Guards badName K ms c := by
  obtain ⟨hreach, a, ha, hsame⟩ := hleads _ _ h
  obtain ⟨s, hgathers⟩ := hjudges.gathers ha
  have hlast (before : List Member) (parts : List StringPart) (n : Numeral) :
      (K.upToName before parts).getLast? ≠ some (.number n) := by
    rw [K.getLast?_upToName]
    exact nofun
  constructor
  case unknown =>
    intro before after parts name front hstrict hms hname hother hfront
    subst hms
    obtain ⟨here, hbefore, -⟩ := gathers_append_iff.1 hgathers
    apply ofText_of_session_error hfront (K.sound_upToName before parts) (hlast before parts)
    apply session_error_of_member hjudges hreach hbefore hname
    intro ts
    rw [hjudges.unknown hstrict hother]
    rfl
  case duplicate =>
    intro before after parts name front hms hname hknown hmem hfront
    subst hms
    obtain ⟨here, hbefore, -⟩ := gathers_append_iff.1 hgathers
    apply ofText_of_session_error hfront (K.sound_upToName before parts) (hlast before parts)
    exact session_error_of_member hjudges hreach hbefore hname
      (hjudges.duplicate hbefore hknown hmem)
  case missing =>
    intro before after m front hms hm hfront
    subst hms
    obtain ⟨s', hgathers', hfinish⟩ := hjudges.missing hgathers hm
    refine ofText_of_session_error hfront (K.sound_front_append _) (fun n => ?_)
      (session_error_of_finish hjudges hreach hgathers' hfinish)
    rw [Value.tokens, ← List.singleton_append, List.getLast?_append, List.getLast?_append,
      getLast?_memberTokens]
    exact nofun
  case ignores =>
    intro ms' text hstrict hpadded htext
    have hsession := hsame _ (hjudges.ignores hstrict ha hpadded)
    exact (readAll_eq_ok_iff reads_session text c).2 ⟨_, htext, hsession⟩

end Guards

/-- Let an object stand somewhere in an accepted description. With another name than its own behind
some of its members, or with a name of its own a second time, or without the member that it needs,
the text is refused for that, and whatever follows does not matter; but the object with the size may
have any members with other names. -/
theorem guards_of_ofText {object : ObjectForm} {K : Context} (hplace : object.At K) {text : String}
    {c : SessionConfig} (hok : ofText badName text = .ok c) {ms : List Member}
    (htext : Layout (K.fill (.object ms)).tokens text.toList) : object.Guards badName K ms c := by
  obtain ⟨v, htokens, hv⟩ := exists_tokens_of_ofText hok
  rw [(tokens_eq_iff _ _).2 htext] at htokens
  rw [← Value.tokens_inj htokens] at hv
  cases hplace with
  | session => exact (sessionObject_judges _).guards (leads_hole _ _) hv
  | edgeMember hname => exact (edgeObject_judges _).guards (leads_edgeMember hname _ _) hv
  | edgeElement hbefore => exact (edgeObject_judges _).guards (leads_edgeElement hbefore _) hv
  | sizeMember hname hkind hform =>
      exact (SizeForm.object_judges _).guards
        (leads_aggregationMember hname (leads_content hkind hform) _ _) hv
  | sizeElement hkind hform =>
      exact (SizeForm.object_judges _).guards
        (leads_aggregationElement rfl (leads_content hkind hform) _) hv

theorem guards_of_ofText_of_blocks :
    let config : SessionConfig :=
      { aggregation := .downsample 2, edge := some { threshold := ⟨0x3f800000⟩ } }
    let size := "\x7b\"aggregation\":\x7b\"downsample\":\x7b\"downsample-num\":2"
    let edge := "\x7d\x7d,\"edge-trigger\":\x7b\"threshold\":1"
    ofText .mistyped (size ++ edge ++ "\x7d\x7d") = .ok config ∧
      ofText .mistyped (size ++ edge ++ ",\"speed\"" ++ ":?") =
        .error (.refused (.unknownField "speed" edgeNames)) ∧
      ofText .mistyped (size ++ "\x7d\x7d,\"edge-trigger\":\x7b\x7d" ++ ",") =
        .error (.refused (.missingField "threshold")) ∧
      ofText .mistyped (size ++ ",\"downsample-num\"" ++ ":2") =
        .error (.refused (.duplicateField "downsample-num")) ∧
      ofText .mistyped (size ++ ",\"x\":[\x7b\x7d,-1]" ++ edge ++ "\x7d\x7d") = .ok config := by
  intro config size edge
  let parts (name : String) : List StringPart := name.toList.map .char
  let two : Value := .number ⟨false, [2], [], none⟩
  let one : Value := .number ⟨false, [1], [], none⟩
  let sizeMembers : List Member := [(parts "downsample-num", two)]
  let edgeMembers : List Member := [(parts "threshold", one)]
  let sizePlace : Context :=
    .member [] (parts "aggregation") (.member [] (parts "downsample") .hole [])
      [(parts "edge-trigger", .object edgeMembers)]
  let edgePlace : Context :=
    .member [(parts "aggregation", .object [(parts "downsample", .object sizeMembers)])]
      (parts "edge-trigger") .hole []
  have hok : ofText .mistyped (size ++ edge ++ "\x7d\x7d") = .ok config := by decide +kernel
  have hlayout {ts : List Token} (hts : Sound ts) {text : String}
      (h : tokens text.toList = ts) : Layout ts text.toList :=
    (tokens_eq_iff_of_sound hts _).1 h
  have hedge : edgeObject.Guards .mistyped edgePlace edgeMembers config :=
    guards_of_ofText (.edgeMember rfl) hok
      (hlayout (Value.sound_tokens _) (by decide +kernel))
  have hsize : (SizeForm.object _).Guards .mistyped sizePlace sizeMembers config :=
    guards_of_ofText (.sizeMember rfl (rfl : decode (parts "downsample") = .ok "downsample") rfl)
      hok (hlayout (Value.sound_tokens _) (by decide +kernel))
  refine ⟨hok, ?_, ?_, ?_, ?_⟩
  · exact hedge.unknown edgeMembers [] (parts "speed") rfl rfl rfl (by decide)
      (hlayout (Context.sound_upToName _ _ _) (by decide +kernel)) ":?"
  · exact hedge.missing [] [] rfl rfl
      (hlayout (Context.sound_front_append _ _) (by decide +kernel)) ","
  · exact hsize.duplicate sizeMembers [] (parts "downsample-num") rfl rfl (by decide)
      ⟨_, List.mem_cons_self, rfl⟩
      (hlayout (Context.sound_upToName _ _ _) (by decide +kernel)) ":2"
  · have hpadded : Padded ["downsample-num"] sizeMembers
        (sizeMembers ++ [(parts "x", .array [.object [], .number ⟨true, [1], [], none⟩])]) :=
      .keep _ (.insert (rfl : _ = some "x") (by decide) .nil)
    exact hsize.ignores _ rfl hpadded (hlayout (Value.sound_tokens _) (by decide +kernel))

end DigitiserSums.Description
