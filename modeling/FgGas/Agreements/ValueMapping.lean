import FgGas.Agreements.Agreement
import FgGas.Agreements.Identities

/-!
# Mapped values

How a candidate becomes the values of an agreement: at its creation
(`src/agreements/models/agreement-definitions/compile-agreement-creation.js`), and at a
transition, where it is checked on its own and then written over the agreement's values field
by field (`src/agreements/models/agreement-definitions/compile-transition-value-mapping.js`,
`src/agreements/models/agreement.js`). The paths of the values a schema refuses are left out.
-/

namespace FgGas.Agreements

open Machine

/-! ### The schemas of candidates -/

/-- The references of a candidate line item. -/
def CandidateLineItem.references (i : CandidateLineItem) : List (Option String) :=
  [i.actionId, i.itemId, i.actionRef, i.itemRef]

/-- `transitionPaymentLineItemSchema`: exactly one of the four references. -/
def CandidateLineItem.matchesSchema (i : CandidateLineItem) : Bool :=
  i.toLineItemValues.matchesSchema && i.references.all filled &&
    i.references.countP Option.isSome = 1

/-- `transitionPaymentInstalmentSchema`. -/
def CandidateInstalment.matchesSchema (i : CandidateInstalment) : Bool :=
  filled i.id && i.toInstalmentValues.matchesSchema &&
    i.lineItems.all CandidateLineItem.matchesSchema

/-- `transitionCandidateEntrySchema(revenueActionSchema)`. -/
def CandidateEntry.matchesActionSchema (e : CandidateEntry) : Bool :=
  e.id.all (isNumbered "action") && filled e.ref && e.toEntryValues.matchesSchema

/-- `transitionCandidateEntrySchema(capitalItemSchema)`. -/
def CandidateEntry.matchesItemSchema (e : CandidateEntry) : Bool :=
  e.id.all (isNumbered "item") && filled e.ref && e.toEntryValues.matchesSchema && e.isItem

section
variable {A P : Type}

/-- `transitionAgreementValueCandidateSchema`. -/
def Candidate.matchesSchema (c : Candidate A P) : Bool :=
  filled c.schemeCode && filled c.name && c.startDate.all isCalendarDate &&
    c.endDate.all isCalendarDate &&
    c.parcels.all (fun parcels ↦ parcels.all Parcel.matchesSchema && (parcels.map (·.id)).Nodup) &&
    c.actions.all CandidateEntry.matchesActionSchema &&
    c.items.all CandidateEntry.matchesItemSchema &&
    c.annualAmountPence.all isPence && c.totalAmountPence.all isPence &&
    c.paymentSchedule.all fun schedule ↦ filled schedule.frequency &&
      schedule.instalments.all CandidateInstalment.matchesSchema

/-- A candidate that selects nothing and refers to nothing by identity, as the schemas of
creation values and of process outputs ask. -/
def Candidate.isNew (c : Candidate A P) : Bool :=
  c.actions.all (·.id.isNone) && c.items.all (·.id.isNone) &&
    c.instalments.all fun instalment ↦ instalment.id.isNone &&
      instalment.lineItems.all fun i ↦ i.actionId.isNone && i.itemId.isNone

/-- `assembleAgreementValues`, of the values mapped and put out at a creation. -/
def assembleAgreementValues (definitionCode : String) (c : Candidate A P) :
    Except String (AgreementValues A P) := do
  require (c.matchesSchema && c.isNew)
    ("Agreement definition \"" ++ definitionCode ++ "\" produced invalid creation value")
  let values ← materialiseCreationIdentities c
  require values.matchesSchema "Agreement creation produced invalid Agreement values"
  pure values

/-- The contents of an agreement that is created. -/
def createContents (definitionCode : String) (identifiers : List (String × String))
    (c : Candidate A P) : Except String (Contents A P) := do
  let values ← assembleAgreementValues definitionCode c
  pure (Contents.construct ⟨identifiers, values, none⟩)

/-! ### Transitions -/

/-- Refuse a change of an immutable field. -/
def assertImmutable (field : String) (same : Bool) : Except String Unit :=
  require same ("Agreement transition cannot change immutable Agreement field \"" ++ field ++ "\"")

/-- `assertImmutableValues`. -/
def assertImmutableValues [DecidableEq A] [DecidableEq P] (v : AgreementValues A P)
    (c : Candidate A P) : Except String Unit := do
  assertImmutable "schemeCode" (c.schemeCode = v.schemeCode)
  assertImmutable "name" (c.name = v.name)
  assertImmutable "applicant" (c.applicant = v.applicant)
  assertImmutable "application" (c.application = v.application)

/-- `resolveMapping`, of what the mapping of a transition resolves to. -/
def resolveTransitionValues [DecidableEq A] [DecidableEq P] (definitionCode : String)
    (k : Contents A P) (c : Candidate A P) : Except String (AgreementValues A P) := do
  let invalid := "Agreement definition \"" ++ definitionCode ++
    "\" produced invalid transition values"
  require c.matchesSchema invalid
  assertImmutableValues k.values c
  let values ← reconcileTransitionIdentities k c
  require values.matchesSchema invalid
  pure values

/-- The agreement's values with those of a transition spread over them: a field that is left
out is carried over, but for the schedule, which is set even to nothing. -/
def AgreementValues.spread (old new : AgreementValues A P) : AgreementValues A P where
  schemeCode := new.schemeCode.or old.schemeCode
  name := new.name.or old.name
  applicant := new.applicant.or old.applicant
  application := new.application
  startDate := new.startDate.or old.startDate
  endDate := new.endDate.or old.endDate
  parcels := new.parcels.or old.parcels
  actions := new.actions
  items := new.items
  annualAmountPence := new.annualAmountPence.or old.annualAmountPence
  totalAmountPence := new.totalAmountPence.or old.totalAmountPence
  paymentSchedule := new.paymentSchedule

/-- What a transition makes of the contents, with the values it maps, if it does. -/
def Contents.transition (values : Option (AgreementValues A P)) (k : Contents A P) :
    Contents A P :=
  Contents.construct { k with values := values.elim k.values k.values.spread }

/-- The agreement read back from its document. -/
def Agreement.reloaded (a : Agreement (Contents A P)) : Agreement (Contents A P) :=
  { a with values := a.values.construct }

/-- A transition of an agreement: its target and moment, what its mapping resolves to if it has
one, and the version of the definition it pins if it does. -/
structure TransitionCall (A P : Type) where
  definitionCode : String
  target : String
  transitionedAt : String
  candidate : Option (Candidate A P)
  configVersion : Option String

/-- The values a transition maps, if it does. -/
def TransitionCall.values [DecidableEq A] [DecidableEq P] (l : TransitionCall A P)
    (k : Contents A P) : Except String (Option (AgreementValues A P)) :=
  match l.candidate with
  | none => .ok none
  | some c => (resolveTransitionValues l.definitionCode k c).map some

/-- The agreement after a transition, unless its values are refused. -/
def transitionStep [DecidableEq A] [DecidableEq P] (a : Agreement (Contents A P))
    (l : TransitionCall A P) : Option (Agreement (Contents A P)) :=
  match l.values a.reloaded.values with
  | .error _ => none
  | .ok values => some (a.reloaded.transition l.target l.transitionedAt (Contents.transition values)
      l.configVersion)

end

/-! ### What is mapped -/

section
variable {A P : Type} {definitionCode : String} {c : Candidate A P} {k : Contents A P}
  {v : AgreementValues A P}

/-- A candidate that is new selects nothing. -/
theorem wanted_of_isNew (h : c.isNew = true) (type : IdentityType) :
    ∀ id ∈ c.wanted type, id = none := by
  simp only [Candidate.isNew, Bool.and_eq_true, List.all_eq_true, Option.isNone_iff_eq_none] at h
  obtain ⟨⟨hactions, hitems⟩, hinstalments⟩ := h
  intro id hid
  cases type with
  | actions =>
    obtain ⟨e, he, rfl⟩ := List.mem_map.mp hid
    exact hactions e he
  | items =>
    obtain ⟨e, he, rfl⟩ := List.mem_map.mp hid
    exact hitems e he
  | instalments =>
    obtain ⟨i, hi, rfl⟩ := List.mem_map.mp hid
    exact (hinstalments i hi).1

/-- The contents of an agreement that is created have the values of its candidate, which the
schema accepts. -/
theorem createContents_eq_ok {identifiers : List (String × String)}
    (h : createContents definitionCode identifiers c = .ok k) :
    ∃ v, k = Contents.construct ⟨identifiers, v, none⟩ ∧
      c.MaterialisedAs (fun _ ↦ []) (fun _ ↦ 1) v ∧ v.WellFormed ∧ v.Consistent := by
  obtain ⟨v, hv, h⟩ := bind_eq_ok.mp h
  cases h
  obtain ⟨hcandidate, hv⟩ := andThen_eq_ok.mp hv
  obtain ⟨values, hvalues, hv⟩ := bind_eq_ok.mp hv
  obtain ⟨hschema, hv⟩ := andThen_eq_ok.mp hv
  cases hv
  have hnew : c.isNew = true := (Bool.and_eq_true _ _ ▸ require_eq_ok.mp hcandidate).2
  exact ⟨v, rfl, materialiseCreationIdentities_eq_ok (wanted_of_isNew hnew) hvalues,
    v.matchesSchema_eq_true (require_eq_ok.mp hschema)⟩

/-- What a transition's values have gone through. -/
structure Resolved (k : Contents A P) (c : Candidate A P) (v : AgreementValues A P) : Prop where
  schemeCode : c.schemeCode = k.values.schemeCode
  name : c.name = k.values.name
  applicant : c.applicant = k.values.applicant
  application : c.application = k.values.application
  materialised : c.MaterialisedAs k.values.identities k.nextIdentityOrdinal v
  wellFormed : v.WellFormed
  consistent : v.Consistent

/-- What a transition of an agreement comes to: the contents as they were, or with the values
of its candidate spread over them. -/
inductive Transitions (a : Agreement (Contents A P)) (l : TransitionCall A P) :
    Option (AgreementValues A P) → Prop
  | unmapped (h : l.candidate = none) : Transitions a l none
  | mapped {c : Candidate A P} {v : AgreementValues A P} (h : l.candidate = some c)
      (hresolved : Resolved a.values.construct c v) : Transitions a l (some v)

variable [DecidableEq A] [DecidableEq P]

theorem resolveTransitionValues_eq_ok (h : resolveTransitionValues definitionCode k c = .ok v) :
    Resolved k c v := by
  obtain ⟨_, h⟩ := andThen_eq_ok.mp h
  obtain ⟨himmutable, h⟩ := andThen_eq_ok.mp h
  obtain ⟨values, hvalues, h⟩ := bind_eq_ok.mp h
  obtain ⟨hschema, h⟩ := andThen_eq_ok.mp h
  cases h
  obtain ⟨hscheme, himmutable⟩ := andThen_eq_ok.mp himmutable
  obtain ⟨hname, himmutable⟩ := andThen_eq_ok.mp himmutable
  obtain ⟨happlicant, happlication⟩ := andThen_eq_ok.mp himmutable
  obtain ⟨hwell, hconsistent⟩ := v.matchesSchema_eq_true (require_eq_ok.mp hschema)
  exact
    { schemeCode := of_decide_eq_true (require_eq_ok.mp hscheme)
      name := of_decide_eq_true (require_eq_ok.mp hname)
      applicant := of_decide_eq_true (require_eq_ok.mp happlicant)
      application := of_decide_eq_true (require_eq_ok.mp happlication)
      materialised := reconcileTransitionIdentities_eq_ok hvalues
      wellFormed := hwell
      consistent := hconsistent }

theorem transitionStep_eq_some {a b : Agreement (Contents A P)} {l : TransitionCall A P}
    (h : transitionStep a l = some b) : ∃ values, Transitions a l values ∧
      b = a.reloaded.transition l.target l.transitionedAt (Contents.transition values)
        l.configVersion := by
  unfold transitionStep TransitionCall.values at h
  cases hc : l.candidate with
  | none =>
    simp only [hc, Option.some.injEq] at h
    exact ⟨none, .unmapped hc, h.symm⟩
  | some c =>
    simp only [hc] at h
    cases hv : resolveTransitionValues l.definitionCode a.reloaded.values c with
    | error e =>
      rw [hv] at h
      cases h
    | ok v =>
      rw [hv] at h
      exact ⟨some v, .mapped hc (resolveTransitionValues_eq_ok hv), (Option.some.inj h).symm⟩

end

end FgGas.Agreements
