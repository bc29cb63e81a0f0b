import FgGas.Agreements.ValueMapping
import FgGas.Machine.Run

/-!
# Values carried over by a transition

The values of a transition are checked on their own, and only then written over those of the
version before: what the mapping leaves out is carried over unchecked. The rules that tie
fields together hold of the version made just when the dates carried over fit the dates mapped.
-/

namespace FgGas.Agreements

open Machine

variable {A P : Type}

/-- The entries of a candidate, without their identities. -/
def Candidate.entries (c : Candidate A P) : List EntryValues :=
  c.actions.map (·.toEntryValues) ++ c.items.map (·.toEntryValues)

/-- The dates a candidate leaves out fit those it has: a start carried over is not after the
end or a date of an entry, and an end carried over is not before the start or one of those. -/
structure CarriedDatesFit (v : AgreementValues A P) (c : Candidate A P) : Prop where
  startDate : c.startDate = none → ∀ start ∈ v.startDate,
    (∀ end' ∈ c.endDate, isBefore end' start = false) ∧
      ∀ e ∈ c.entries, ∀ date ∈ e.dates, isBefore date start = false
  endDate : c.endDate = none → ∀ end' ∈ v.endDate,
    (∀ start ∈ c.startDate, isBefore end' start = false) ∧
      ∀ e ∈ c.entries, ∀ date ∈ e.dates, isBefore end' date = false

/-- What a transition carries over fits what it maps. -/
def TransitionCall.Fits (a : Agreement (Contents A P)) (l : TransitionCall A P) : Prop :=
  ∀ c ∈ l.candidate, CarriedDatesFit a.values.values c

section
variable {v w : AgreementValues A P} {c : Candidate A P}
  {known : IdentityType → List String} {nextOrdinal : IdentityType → Nat}

/-- The entries of the values a candidate is materialised as are its own. -/
theorem Candidate.MaterialisedAs.entries (h : c.MaterialisedAs known nextOrdinal w) :
    w.entries.map (·.toEntryValues) = c.entries := by
  rw [AgreementValues.entries, List.map_append, h.actions, h.items, Candidate.entries]

/-- What holds of a candidate's entries holds of those it is materialised as. -/
theorem Candidate.MaterialisedAs.forall_entries (h : c.MaterialisedAs known nextOrdinal w)
    {p : EntryValues → Prop} : (∀ e ∈ c.entries, p e) ↔ ∀ e ∈ w.entries, p e.toEntryValues := by
  rw [← h.entries, List.forall_mem_map]

/-- An entry of mapped values without parcels has none. -/
theorem AgreementValues.Consistent.parcel_eq_none (h : w.Consistent) (hparcels : w.parcels = none)
    {e : FundedEntry} (he : e ∈ w.entries) : e.parcel = none := by
  cases hparcel : e.parcel with
  | none => rfl
  | some id =>
    obtain ⟨parcel, hm, _⟩ := h.parcel e he id hparcel
    rw [hparcels] at hm
    exact absurd hm List.not_mem_nil

/-- The parcels an entry of mapped values refers to are mapped with it. -/
theorem AgreementValues.Consistent.parcels_spread (h : w.Consistent) {e : FundedEntry}
    (he : e ∈ w.entries) {id : String} (hid : e.parcel = some id) :
    (v.spread w).parcels = w.parcels := by
  cases hparcels : w.parcels with
  | none =>
    rw [h.parcel_eq_none hparcels he] at hid
    cases hid
  | some parcels => simp [AgreementValues.spread, hparcels]

theorem Candidate.MaterialisedAs.startDate (h : c.MaterialisedAs known nextOrdinal w) :
    c.startDate = w.startDate := by
  obtain ⟨m, paymentSchedule, rfl⟩ := h.shape
  rfl

theorem Candidate.MaterialisedAs.endDate (h : c.MaterialisedAs known nextOrdinal w) :
    c.endDate = w.endDate := by
  obtain ⟨m, paymentSchedule, rfl⟩ := h.shape
  rfl

/-- Where values spread over others keep the rules, the dates that are carried over fit. -/
theorem carriedDatesFit_of_spread (h : (v.spread w).Consistent)
    (hw : c.MaterialisedAs known nextOrdinal w) : CarriedDatesFit v c := by
  constructor
  · intro hnone start hm
    have hcarried : start ∈ (v.spread w).startDate :=
      Option.or_eq_some_iff.mpr (.inr ⟨hw.startDate ▸ hnone, hm⟩)
    refine ⟨fun end' hend' ↦ h.range start hcarried end' ?_, ?_⟩
    · rw [hw.endDate] at hend'
      exact Option.or_eq_some_iff.mpr (.inl hend')
    · exact hw.forall_entries.mpr fun e he date hdate ↦ h.notBefore e he date hdate start hcarried
  · intro hnone end' hm
    have hcarried : end' ∈ (v.spread w).endDate :=
      Option.or_eq_some_iff.mpr (.inr ⟨hw.endDate ▸ hnone, hm⟩)
    refine ⟨fun start hstart ↦ h.range start ?_ end' hcarried, ?_⟩
    · rw [hw.startDate] at hstart
      exact Option.or_eq_some_iff.mpr (.inl hstart)
    · exact hw.forall_entries.mpr fun e he date hdate ↦ h.notAfter e he date hdate end' hcarried

/-- Where the dates that are carried over fit, values spread over others keep the rules. -/
theorem CarriedDatesFit.spread_consistent (hfit : CarriedDatesFit v c) (hold : v.Consistent)
    (hnew : w.Consistent) (hw : c.MaterialisedAs known nextOrdinal w) :
    (v.spread w).Consistent := by
  constructor
  case range =>
    intro start hs end' he
    rcases Option.or_eq_some_iff.mp hs with hs | ⟨hsnone, hs⟩ <;>
      rcases Option.or_eq_some_iff.mp he with he | ⟨henone, he⟩
    · exact hnew.range start hs end' he
    · exact (hfit.endDate (hw.endDate.trans henone) end' he).1 start (hw.startDate ▸ hs)
    · exact (hfit.startDate (hw.startDate.trans hsnone) start hs).1 end' (hw.endDate ▸ he)
    · exact hold.range start hs end' he
  case entryRange => exact hnew.entryRange
  case notBefore =>
    intro e he date hdate start hs
    rcases Option.or_eq_some_iff.mp hs with hs | ⟨hnone, hs⟩
    · exact hnew.notBefore e he date hdate start hs
    · have hdates := (hfit.startDate (hw.startDate.trans hnone) start hs).2
      exact hw.forall_entries.mp hdates e he date hdate
  case notAfter =>
    intro e he date hdate end' hs
    rcases Option.or_eq_some_iff.mp hs with hs | ⟨hnone, hs⟩
    · exact hnew.notAfter e he date hdate end' hs
    · have hdates := (hfit.endDate (hw.endDate.trans hnone) end' hs).2
      exact hw.forall_entries.mp hdates e he date hdate
  case parcel =>
    intro e he id hid
    rw [hnew.parcels_spread he hid]
    exact hnew.parcel e he id hid
  case area =>
    intro e he parcel hm hid
    rw [hnew.parcels_spread he hid] at hm
    exact hnew.area e he parcel hm hid
  case actionId => exact hnew.actionId
  case itemId => exact hnew.itemId

end

variable [DecidableEq A] [DecidableEq P]

/-- A transition makes a version that keeps the rules of one that keeps them just when what
it carries over fits. -/
theorem transitionStep_consistent_iff {a b : Agreement (Contents A P)} {l : TransitionCall A P}
    (h : transitionStep a l = some b) (ha : a.values.values.Consistent) :
    b.values.values.Consistent ↔ l.Fits a := by
  obtain ⟨values, htransitions, rfl⟩ := transitionStep_eq_some h
  cases htransitions with
  | unmapped hnone =>
    refine iff_of_true ha ?_
    intro c hc
    rw [hnone] at hc
    cases hc
  | @mapped c v hc hresolved =>
    have hfits : l.Fits a ↔ CarriedDatesFit a.values.values c := by
      simp [TransitionCall.Fits, hc]
    rw [hfits]
    exact ⟨fun hb ↦ carriedDatesFit_of_spread hb hresolved.materialised,
      fun hfit ↦ hfit.spread_consistent ha hresolved.consistent hresolved.materialised⟩

/-- In every version of an agreement made by transitions each of which carries over dates that
fit, the values keep the rules the schema enforces at creation; and a transition of such a
version makes another just when its dates fit. -/
theorem carried_values_consistent {definitionCode : String}
    {identifiers : List (String × String)} {c : Candidate A P} {a₀ a : Agreement (Contents A P)}
    {ls : List (TransitionCall A P)}
    (hcreated : createContents definitionCode identifiers c = .ok a₀.values)
    (hrun : Run transitionStep (fun a l ↦ l.Fits a) a₀ ls a) :
    a.values.values.Consistent ∧ ∀ l b, transitionStep a l = some b →
      (b.values.values.Consistent ↔ l.Fits a) := by
  have ha : a.values.values.Consistent := by
    refine hrun.invariant (fun a ↦ a.values.values.Consistent) ?_ ?_
    · obtain ⟨v, hv, _, _, hconsistent⟩ := createContents_eq_ok hcreated
      rw [hv]
      exact hconsistent
    · intro a l b ha hfits hstep
      exact (transitionStep_consistent_iff hstep ha).mpr hfits
  exact ⟨ha, fun l b hstep ↦ transitionStep_consistent_iff hstep ha⟩

/-! ### An agreement whose end moves -/

/-- What an entry of it has. -/
def uplandEntry : EntryValues where
  code := "UPL1"
  description := none
  version := none
  startDate := none
  endDate := none
  parcel := none
  quantity := none
  unit := none
  ratePence := none
  totalAmountPence := none
  durationYears := none
  annualAmountPence := none

/-- A candidate of one action, new or selected. -/
def uplandCandidate (startDate endDate selected : Option String) : Candidate Unit Unit where
  schemeCode := none
  name := none
  applicant := none
  application := ()
  startDate := startDate
  endDate := endDate
  parcels := none
  actions := [⟨uplandEntry, selected, none⟩]
  items := []
  annualAmountPence := none
  totalAmountPence := none
  paymentSchedule := none

/-- The contents of an agreement for the year 2025. -/
def uplandContents : Contents Unit Unit where
  identifiers := []
  values :=
    { schemeCode := none
      name := none
      applicant := none
      application := ()
      startDate := some "2025-01-01"
      endDate := some "2025-12-31"
      parcels := none
      actions := [⟨uplandEntry, "action:1"⟩]
      items := []
      annualAmountPence := none
      totalAmountPence := none
      paymentSchedule := none }
  identitySequence := some ⟨1, 0, 0⟩

/-- The agreement. -/
def uplandAgreement : Agreement (Contents Unit Unit) :=
  Agreement.create "UPL1" "upland" "ref-1" "1.0.0" "cor-1" "106284736" uplandContents "offered" "t0"

/-- Its acceptance, under a mapping that sets another end and leaves out the start. -/
def uplandAccepted (endDate : String) : TransitionCall Unit Unit :=
  ⟨"upland", "accepted", "t1", some (uplandCandidate none (some endDate) (some "action:1")), none⟩

/-- An agreement that is to end a year later starts when it did. -/
theorem carried_values_extended : ∃ a, transitionStep uplandAgreement
    (uplandAccepted "2026-12-31") = some a ∧ a.values.values.Consistent := by
  refine ⟨_, rfl, ?_⟩
  have hcreated : createContents "upland" [] (uplandCandidate (some "2025-01-01")
      (some "2025-12-31") none) = .ok uplandAgreement.values := rfl
  refine (carried_values_consistent hcreated (.snoc (l := uplandAccepted "2026-12-31") .nil ?_
    rfl)).1
  intro c hc
  cases hc
  constructor
  · rintro _ start hstart
    cases hstart
    refine ⟨?_, ?_⟩
    · intro end' hend'
      cases hend'
      decide
    · intro e he date hdate
      obtain rfl := List.mem_singleton.mp he
      exact absurd hdate List.not_mem_nil
  · intro hnone
    cases hnone

/-- An agreement that is to end before it started keeps its start. -/
theorem carried_start_after_end : ∃ a, createContents "upland" [] (uplandCandidate
      (some "2025-01-01") (some "2025-12-31") none) = .ok uplandAgreement.values ∧
    transitionStep uplandAgreement (uplandAccepted "2024-12-31") = some a ∧
    ¬ a.values.values.Consistent := by
  refine ⟨_, rfl, rfl, ?_⟩
  intro h
  have hrange := h.range "2025-01-01" rfl "2024-12-31" rfl
  exact absurd hrange (by decide)

end FgGas.Agreements
