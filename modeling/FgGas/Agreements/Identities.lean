import FgGas.Agreements.Values

/-!
# The identities of an agreement's entries

Actions, items and instalments have identities of their own, numbered in three namespaces
(`src/agreements/models/agreement-identity-sequence.js`,
`src/agreements/models/materialise-agreement-identities.js`). A candidate for the values of an
agreement selects entries by their identities and refers to its new ones by names of its own;
it is materialised where an agreement is created and reconciled with the agreement where one
is changed (`src/agreements/schemas/agreement-value-candidate.schema.js`). An ordinal is a
JavaScript number, which is exact up to `Number.MAX_SAFE_INTEGER`.
-/

namespace FgGas.Agreements

open Machine

/-- The keys of `identityTypes`. -/
inductive IdentityType
  | actions
  | items
  | instalments
  deriving DecidableEq, Repr

/-- The `namespace` of a type. -/
def IdentityType.kind : IdentityType → String
  | .actions => "action"
  | .items => "item"
  | .instalments => "instalment"

/-- The `label` of a type. -/
def IdentityType.label : IdentityType → String
  | .actions => "Revenue Action"
  | .items => "Capital Item"
  | .instalments => "Payment Schedule Instalment"

/-- The highest ordinal recorded for each namespace. -/
structure IdentitySequence where
  action : Nat
  item : Nat
  instalment : Nat
  deriving DecidableEq, Repr

/-- The ordinal of a type. -/
def IdentitySequence.of (s : IdentitySequence) : IdentityType → Nat
  | .actions => s.action
  | .items => s.item
  | .instalments => s.instalment

/-- What an agreement holds besides its version and state. -/
structure Contents (A P : Type) where
  identifiers : List (String × String)
  values : AgreementValues A P
  identitySequence : Option IdentitySequence
  deriving DecidableEq, Repr

section
variable {A P : Type}

/-- `identityEntries`, by their identities. -/
def AgreementValues.identities (v : AgreementValues A P) : IdentityType → List String
  | .actions => v.actions.map (·.id)
  | .items => v.items.map (·.id)
  | .instalments => v.instalments.map (·.id)

/-- `recordedOrdinal`. -/
def recordedOrdinal (identitySequence : Option IdentitySequence) (type : IdentityType) : Nat :=
  identitySequence.elim 0 fun s ↦ if s.of type ≤ maxSafeInteger then s.of type else 0

/-- `currentOrdinal`. -/
def AgreementValues.currentOrdinal (v : AgreementValues A P) (type : IdentityType) : Nat :=
  ((v.identities type).map (numberOf type.kind)).foldr max 0

/-- The ordinal `resolveAgreementIdentitySequence` finds for a type. -/
def Contents.highestOrdinal (k : Contents A P) (type : IdentityType) : Nat :=
  max (recordedOrdinal k.identitySequence type) (k.values.currentOrdinal type)

/-- `resolveAgreementIdentitySequence`. -/
def Contents.resolveIdentitySequence (k : Contents A P) : IdentitySequence where
  action := k.highestOrdinal .actions
  item := k.highestOrdinal .items
  instalment := k.highestOrdinal .instalments

/-- `nextAgreementIdentityOrdinal`. -/
def Contents.nextIdentityOrdinal (k : Contents A P) (type : IdentityType) : Nat :=
  k.resolveIdentitySequence.of type + 1

/-- What the constructor of an agreement does to what it is given. -/
def Contents.construct (k : Contents A P) : Contents A P :=
  { k with identitySequence := some k.resolveIdentitySequence }

end

/-! ### Candidates -/

/-- A candidate for an entry: one selected by its identity or a new one, with a name that line
items refer to it by. -/
structure CandidateEntry extends EntryValues where
  id : Option String
  ref : Option String
  deriving DecidableEq, Repr

/-- A candidate for a line item. -/
structure CandidateLineItem extends LineItemValues where
  actionId : Option String
  itemId : Option String
  actionRef : Option String
  itemRef : Option String
  deriving DecidableEq, Repr

/-- A candidate for an instalment. -/
structure CandidateInstalment extends InstalmentValues where
  id : Option String
  lineItems : List CandidateLineItem
  deriving DecidableEq, Repr

/-- A candidate for a payment schedule. -/
structure CandidateSchedule where
  frequency : Option String
  instalments : List CandidateInstalment
  deriving DecidableEq, Repr

/-- A candidate for the values of an agreement. -/
structure Candidate (A P : Type) where
  schemeCode : Option String
  name : Option String
  applicant : Option A
  application : P
  startDate : Option String
  endDate : Option String
  parcels : Option (List Parcel)
  actions : List CandidateEntry
  items : List CandidateEntry
  annualAmountPence : Option Int
  totalAmountPence : Option Int
  paymentSchedule : Option CandidateSchedule
  deriving DecidableEq, Repr

section
variable {A P : Type}

/-- The instalments a candidate has. -/
def Candidate.instalments (c : Candidate A P) : List CandidateInstalment :=
  c.paymentSchedule.elim [] (·.instalments)

/-- The identities a candidate selects, with nothing for a new one. -/
def Candidate.wanted (c : Candidate A P) : IdentityType → List (Option String)
  | .actions => c.actions.map (·.id)
  | .items => c.items.map (·.id)
  | .instalments => c.instalments.map (·.id)

/-- How many identities of a type a candidate is allocated. -/
def Candidate.allocations (c : Candidate A P) (type : IdentityType) : Nat :=
  (c.wanted type).countP Option.isNone

end

/-! ### Materialisation -/

/-- `allocateIdentity`: the identity and the next ordinal. -/
def allocateIdentity (type : IdentityType) (nextOrdinal : Nat) : String × Nat :=
  (numbered type.kind nextOrdinal, nextOrdinal + 1)

/-- `resolveTransitionIdentity`. -/
def resolveTransitionIdentity (type : IdentityType) (existingIds : List String)
    (selected : Option String) (nextOrdinal : Nat) : Except String (String × Nat) :=
  match selected with
  | none => .ok (allocateIdentity type nextOrdinal)
  | some id =>
      if id ∈ existingIds then .ok (id, nextOrdinal)
      else .error ("Agreement transition cannot select unknown stable " ++ type.label ++
        " identity \"" ++ id ++ "\"")

/-- The identity of an entry that is created. -/
def resolveCreationIdentity (type : IdentityType) (_ : Option String) (nextOrdinal : Nat) :
    Except String (String × Nat) := .ok (allocateIdentity type nextOrdinal)

/-- The names candidates are referred to by, with the identities of their entries. -/
abbrev References := List (String × String)

/-- `duplicateReference`. -/
def duplicateReference (workflow reference : String) : String :=
  "Agreement " ++ workflow ++ " produced duplicate candidate reference \"" ++ reference ++ "\""

/-- `unknownReference`. -/
def unknownReference (workflow reference : String) : String :=
  "Agreement " ++ workflow ++ " produced unknown candidate reference \"" ++ reference ++ "\""

/-- `recordCandidateReference`. -/
def recordCandidateReference (ref : Option String) (id : String) (references : References)
    (workflow : String) : Except String References :=
  match ref with
  | none => .ok references
  | some ref =>
      if references.any (·.1 = ref) then .error (duplicateReference workflow ref)
      else .ok (references ++ [(ref, id)])

/-- `materialiseEntries`: the entries and the references to them. -/
def materialiseEntries (resolveIdentity : Option String → Nat → Except String (String × Nat))
    (workflow : String) :
    List CandidateEntry → Nat → References → Except String (List FundedEntry × References)
  | [], _, references => .ok ([], references)
  | entry :: entries, nextOrdinal, references => do
      let identity ← resolveIdentity entry.id nextOrdinal
      let references ← recordCandidateReference entry.ref identity.1 references workflow
      let rest ← materialiseEntries resolveIdentity workflow entries identity.2 references
      pure (⟨entry.toEntryValues, identity.1⟩ :: rest.1, rest.2)

/-- The entries of both fields, materialised. -/
structure Materialised where
  actions : List FundedEntry × References
  items : List FundedEntry × References

/-- `replaceCandidateReference`, of the references of one field. -/
def lookUpReference (references : References) (workflow reference : String) :
    Except String String :=
  match references.find? (·.1 = reference) with
  | none => .error (unknownReference workflow reference)
  | some found => .ok found.2

/-- A line item that refers to a candidate, if it does: `findCandidateReference` and
`replaceCandidateReference`. -/
def resolveCandidateReference (m : Materialised) (workflow : String) (i : CandidateLineItem) :
    Option (Except String LineItem) :=
  match i.actionRef, i.itemRef with
  | some reference, _ => some do
      let id ← lookUpReference m.actions.2 workflow reference
      pure ⟨i.toLineItemValues, some id, i.itemId⟩
  | none, some reference => some do
      let id ← lookUpReference m.items.2 workflow reference
      pure ⟨i.toLineItemValues, i.actionId, some id⟩
  | none, none => none

/-- `resolveCreationLineItem`. -/
def resolveCreationLineItem (m : Materialised) (i : CandidateLineItem) : Except String LineItem :=
  (resolveCandidateReference m "creation" i).getD
    (.error (unknownReference "creation" "undefined"))

/-- `requireSurvivingReference`: the first reference a line item has, to an entry there is. -/
def requireSurvivingReference (m : Materialised) (i : CandidateLineItem) :
    Except String LineItem :=
  let require (id : String) (entries : List FundedEntry) : Except String LineItem :=
    if id ∈ entries.map (·.id) then .ok ⟨i.toLineItemValues, i.actionId, i.itemId⟩
    else .error ("Agreement transition produced unknown persisted reference \"" ++ id ++ "\"")
  match i.actionId, i.itemId with
  | some id, _ => require id m.actions.1
  | none, some id => require id m.items.1
  | none, none => .error "Cannot read properties of undefined"

/-- `resolveTransitionLineItem`. -/
def resolveTransitionLineItem (m : Materialised) (i : CandidateLineItem) :
    Except String LineItem :=
  (resolveCandidateReference m "transition" i).getD (requireSurvivingReference m i)

/-- The instalments of `materialisePaymentSchedule`. -/
def materialiseInstalments (resolveIdentity : Option String → Nat → Except String (String × Nat))
    (resolveLineItem : CandidateLineItem → Except String LineItem) :
    List CandidateInstalment → Nat → Except String (List Instalment)
  | [], _ => .ok []
  | instalment :: instalments, nextOrdinal => do
      let identity ← resolveIdentity instalment.id nextOrdinal
      let lineItems ← instalment.lineItems.mapM resolveLineItem
      let rest ← materialiseInstalments resolveIdentity resolveLineItem instalments identity.2
      pure (⟨instalment.toInstalmentValues, identity.1, lineItems⟩ :: rest)

/-- `materialisePaymentSchedule`: without one, there is none. -/
def materialisePaymentSchedule
    (resolveIdentity : Option String → Nat → Except String (String × Nat)) (nextOrdinal : Nat)
    (resolveLineItem : CandidateLineItem → Except String LineItem) :
    Option CandidateSchedule → Except String (Option PaymentSchedule)
  | none => .ok none
  | some schedule => do
      let instalments ← materialiseInstalments resolveIdentity resolveLineItem
        schedule.instalments nextOrdinal
      pure (some ⟨schedule.frequency, instalments⟩)

section
variable {A P : Type}

/-- The candidate with its entries and its schedule materialised. -/
def Candidate.withIdentities (c : Candidate A P) (m : Materialised)
    (paymentSchedule : Option PaymentSchedule) : AgreementValues A P where
  schemeCode := c.schemeCode
  name := c.name
  applicant := c.applicant
  application := c.application
  startDate := c.startDate
  endDate := c.endDate
  parcels := c.parcels
  actions := m.actions.1
  items := m.items.1
  annualAmountPence := c.annualAmountPence
  totalAmountPence := c.totalAmountPence
  paymentSchedule := paymentSchedule

/-- `materialiseCreationIdentities`. -/
def materialiseCreationIdentities (c : Candidate A P) : Except String (AgreementValues A P) := do
  let actions ← materialiseEntries (resolveCreationIdentity .actions) "creation" c.actions 1 []
  let items ← materialiseEntries (resolveCreationIdentity .items) "creation" c.items 1 []
  let m : Materialised := ⟨actions, items⟩
  let paymentSchedule ← materialisePaymentSchedule (resolveCreationIdentity .instalments) 1
    (resolveCreationLineItem m) c.paymentSchedule
  pure (c.withIdentities m paymentSchedule)

/-- The identity a transition of the agreement gives a candidate of a type. -/
def Contents.resolveIdentity (k : Contents A P) (type : IdentityType) :
    Option String → Nat → Except String (String × Nat) :=
  resolveTransitionIdentity type (k.values.identities type)

/-- `reconcileTransitionIdentities`. -/
def reconcileTransitionIdentities (k : Contents A P) (c : Candidate A P) :
    Except String (AgreementValues A P) := do
  let actions ← materialiseEntries (k.resolveIdentity .actions) "transition" c.actions
    (k.nextIdentityOrdinal .actions) []
  let items ← materialiseEntries (k.resolveIdentity .items) "transition" c.items
    (k.nextIdentityOrdinal .items) []
  let m : Materialised := ⟨actions, items⟩
  let paymentSchedule ← materialisePaymentSchedule (k.resolveIdentity .instalments)
    (k.nextIdentityOrdinal .instalments) (resolveTransitionLineItem m) c.paymentSchedule
  pure (c.withIdentities m paymentSchedule)

end

/-! ### What is materialised -/

/-- An identity resolved for a candidate is the known one it selects, or the next new one. -/
def ResolvesFrom (type : IdentityType) (known : List String)
    (resolveIdentity : Option String → Nat → Except String (String × Nat))
    (selected : Option String) : Prop :=
  ∀ nextOrdinal identity, resolveIdentity selected nextOrdinal = .ok identity →
    selected = none ∧ identity = allocateIdentity type nextOrdinal ∨
      selected = some identity.1 ∧ identity.1 ∈ known ∧ identity.2 = nextOrdinal

theorem resolvesFrom_transition (type : IdentityType) (known : List String)
    (selected : Option String) :
    ResolvesFrom type known (resolveTransitionIdentity type known) selected := by
  intro nextOrdinal identity h
  cases selected with
  | none =>
    cases h
    exact .inl ⟨rfl, rfl⟩
  | some id =>
    simp only [resolveTransitionIdentity] at h
    split at h
    · next hknown =>
      cases h
      exact .inr ⟨rfl, hknown, rfl⟩
    · cases h

theorem resolvesFrom_creation (type : IdentityType) :
    ResolvesFrom type [] (resolveCreationIdentity type) none := by
  intro nextOrdinal identity h
  cases h
  exact .inl ⟨rfl, rfl⟩

section
variable {type : IdentityType} {known : List String}
  {resolveIdentity : Option String → Nat → Except String (String × Nat)}

/-- One more candidate given its identity. -/
theorem assigned_cons {selected : Option String}
    (h : ResolvesFrom type known resolveIdentity selected) {nextOrdinal : Nat}
    {identity : String × Nat}
    (hidentity : resolveIdentity selected nextOrdinal = .ok identity)
    {wanted : List (Option String)} {ids : List String} {last : Nat}
    (hrest : Assigned known (numbered type.kind) identity.2 wanted ids last) :
    Assigned known (numbered type.kind) nextOrdinal (selected :: wanted) (identity.1 :: ids)
      last := by
  rcases h nextOrdinal identity hidentity with ⟨rfl, rfl⟩ | ⟨rfl, hknown, hnext⟩
  · exact .fresh hrest
  · rw [hnext] at hrest
    exact .kept hknown hrest

/-- Entries are given the identities their candidates want, and are otherwise as they were. -/
theorem materialiseEntries_eq_ok {workflow : String} {entries : List CandidateEntry}
    (hresolves : ∀ e ∈ entries, ResolvesFrom type known resolveIdentity e.id) {nextOrdinal : Nat}
    {references : References} {result : List FundedEntry × References}
    (h : materialiseEntries resolveIdentity workflow entries nextOrdinal references = .ok result) :
    (∃ last, Assigned known (numbered type.kind) nextOrdinal (entries.map (·.id))
      (result.1.map (·.id)) last) ∧
    result.1.map (·.toEntryValues) = entries.map (·.toEntryValues) := by
  induction entries generalizing nextOrdinal references result with
  | nil =>
    cases h
    exact ⟨⟨_, .nil⟩, rfl⟩
  | cons entry entries ih =>
    obtain ⟨hentry, hentries⟩ := List.forall_mem_cons.mp hresolves
    obtain ⟨identity, hidentity, h⟩ := bind_eq_ok.mp h
    obtain ⟨references', _, h⟩ := bind_eq_ok.mp h
    obtain ⟨rest, hrest, h⟩ := bind_eq_ok.mp h
    cases h
    obtain ⟨⟨last, hassigned⟩, hvalues⟩ := ih hentries hrest
    exact ⟨⟨last, assigned_cons hentry hidentity hassigned⟩, by simp [hvalues]⟩

/-- Instalments are given the identities their candidates want. -/
theorem materialiseInstalments_eq_ok
    {resolveLineItem : CandidateLineItem → Except String LineItem}
    {instalments : List CandidateInstalment}
    (hresolves : ∀ i ∈ instalments, ResolvesFrom type known resolveIdentity i.id)
    {nextOrdinal : Nat} {result : List Instalment}
    (h : materialiseInstalments resolveIdentity resolveLineItem instalments nextOrdinal =
      .ok result) :
    ∃ last, Assigned known (numbered type.kind) nextOrdinal (instalments.map (·.id))
      (result.map (·.id)) last := by
  induction instalments generalizing nextOrdinal result with
  | nil =>
    cases h
    exact ⟨_, .nil⟩
  | cons instalment instalments ih =>
    obtain ⟨hinstalment, hinstalments⟩ := List.forall_mem_cons.mp hresolves
    obtain ⟨identity, hidentity, h⟩ := bind_eq_ok.mp h
    obtain ⟨lineItems, _, h⟩ := bind_eq_ok.mp h
    obtain ⟨rest, hrest, h⟩ := bind_eq_ok.mp h
    cases h
    obtain ⟨last, hassigned⟩ := ih hinstalments hrest
    exact ⟨last, assigned_cons hinstalment hidentity hassigned⟩

/-- The same of the instalments of a schedule, if there is one. -/
theorem materialisePaymentSchedule_eq_ok
    {resolveLineItem : CandidateLineItem → Except String LineItem}
    {schedule : Option CandidateSchedule}
    (hresolves : ∀ i ∈ schedule.elim [] (·.instalments),
      ResolvesFrom type known resolveIdentity i.id)
    {nextOrdinal : Nat} {result : Option PaymentSchedule}
    (h : materialisePaymentSchedule resolveIdentity nextOrdinal resolveLineItem schedule =
      .ok result) :
    ∃ last, Assigned known (numbered type.kind) nextOrdinal
      ((schedule.elim [] (·.instalments)).map (·.id))
      ((result.elim [] (·.instalments)).map (·.id)) last := by
  cases schedule with
  | none =>
    cases h
    exact ⟨_, .nil⟩
  | some schedule =>
    obtain ⟨instalments, hinstalments, h⟩ := bind_eq_ok.mp h
    cases h
    exact materialiseInstalments_eq_ok hresolves hinstalments

end

section
variable {A P : Type} {c : Candidate A P} {v : AgreementValues A P}

/-- The values have what the candidate gives, with entries of identities of their own: those
it selects are known ones, and the others are new, numbered from an ordinal of their
namespace. -/
structure Candidate.MaterialisedAs (c : Candidate A P) (known : IdentityType → List String)
    (nextOrdinal : IdentityType → Nat) (v : AgreementValues A P) : Prop where
  shape : ∃ m paymentSchedule, v = c.withIdentities m paymentSchedule
  actions : v.actions.map (·.toEntryValues) = c.actions.map (·.toEntryValues)
  items : v.items.map (·.toEntryValues) = c.items.map (·.toEntryValues)
  identities : ∀ type, ∃ last, Assigned (known type) (numbered type.kind) (nextOrdinal type)
    (c.wanted type) (v.identities type) last

/-- Entries and a schedule whose identities resolve are the candidate's, materialised. -/
theorem Candidate.materialisedAs {known : IdentityType → List String}
    {nextOrdinal : IdentityType → Nat}
    {resolveIdentity : IdentityType → Option String → Nat → Except String (String × Nat)}
    (hresolves : ∀ type, ∀ id ∈ c.wanted type,
      ResolvesFrom type (known type) (resolveIdentity type) id)
    {workflow : String} {resolveLineItem : CandidateLineItem → Except String LineItem}
    {m : Materialised} {paymentSchedule : Option PaymentSchedule}
    (hactions : materialiseEntries (resolveIdentity .actions) workflow c.actions
      (nextOrdinal .actions) [] = .ok m.actions)
    (hitems : materialiseEntries (resolveIdentity .items) workflow c.items
      (nextOrdinal .items) [] = .ok m.items)
    (hschedule : materialisePaymentSchedule (resolveIdentity .instalments)
      (nextOrdinal .instalments) resolveLineItem c.paymentSchedule = .ok paymentSchedule) :
    c.MaterialisedAs known nextOrdinal (c.withIdentities m paymentSchedule) := by
  obtain ⟨haction, hactionValues⟩ := materialiseEntries_eq_ok
    (fun e he ↦ hresolves .actions _ (List.mem_map_of_mem he)) hactions
  obtain ⟨hitem, hitemValues⟩ := materialiseEntries_eq_ok
    (fun e he ↦ hresolves .items _ (List.mem_map_of_mem he)) hitems
  have hinstalment := materialisePaymentSchedule_eq_ok
    (fun i hi ↦ hresolves .instalments _ (List.mem_map_of_mem hi)) hschedule
  refine ⟨⟨_, _, rfl⟩, hactionValues, hitemValues, fun type ↦ ?_⟩
  cases type with
  | actions => exact haction
  | items => exact hitem
  | instalments => exact hinstalment

/-- What a creation materialises, of a candidate that selects nothing. -/
theorem materialiseCreationIdentities_eq_ok (hnew : ∀ type, ∀ id ∈ c.wanted type, id = none)
    (h : materialiseCreationIdentities c = .ok v) :
    c.MaterialisedAs (fun _ ↦ []) (fun _ ↦ 1) v := by
  obtain ⟨actions, hactions, h⟩ := bind_eq_ok.mp h
  obtain ⟨items, hitems, h⟩ := bind_eq_ok.mp h
  obtain ⟨paymentSchedule, hschedule, h⟩ := bind_eq_ok.mp h
  cases h
  refine Candidate.materialisedAs (fun type id hid ↦ ?_) hactions hitems hschedule
  rw [hnew type id hid]
  exact resolvesFrom_creation type

/-- What a transition reconciles with the agreement. -/
theorem reconcileTransitionIdentities_eq_ok {k : Contents A P}
    (h : reconcileTransitionIdentities k c = .ok v) :
    c.MaterialisedAs k.values.identities k.nextIdentityOrdinal v := by
  obtain ⟨actions, hactions, h⟩ := bind_eq_ok.mp h
  obtain ⟨items, hitems, h⟩ := bind_eq_ok.mp h
  obtain ⟨paymentSchedule, hschedule, h⟩ := bind_eq_ok.mp h
  cases h
  exact Candidate.materialisedAs (fun type id _ ↦ resolvesFrom_transition type _ id) hactions
    hitems hschedule

end

end FgGas.Agreements
