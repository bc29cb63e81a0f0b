import FgGas.Machine.Numbering
import FgGas.Processes.Definitions

/-!
# Identities of what is created

The values put together for an agreement name their actions and items by references of their own
(`src/agreements/models/materialise-agreement-identities.js`). When the agreement is created, each
entry gets an identity by its place, loses its reference, and the line items of the payment schedule
that referred to it are given that identity. Entries and line items are objects and references
texts, as the schemas of the candidates have it.
-/

namespace FgGas.Processes

open Machine

/-! ### Materialisation -/

/-- The entries of an object. -/
def Data.entries : Data → List (String × Data)
  | .object entries => entries
  | _ => []

/-- What `map` is called on. -/
def mapTarget (name : String) : Data → Except String (List Data)
  | .array items => .ok items
  | .undefined => .error "Cannot read properties of undefined (reading 'map')"
  | .null => .error "Cannot read properties of null (reading 'map')"
  | _ => .error (name ++ ".map is not a function")

/-- An entry of `fundedIdentityTypes`. -/
structure IdentityType where
  field : String
  kind : String
  candidateReference : String
  persistedReference : String

/-- `fundedIdentityTypes`. -/
def fundedIdentityTypes : List IdentityType :=
  [⟨"actions", "action", "actionRef", "actionId"⟩, ⟨"items", "item", "itemRef", "itemId"⟩]

/-- The references of the entries of one field, with their identities. -/
abbrev References := List (String × String)

def duplicateReference (reference : String) : String :=
  "Agreement creation produced duplicate candidate reference " ++ quoted reference

def unknownReference (reference : String) : String :=
  "Agreement creation produced unknown candidate reference " ++ quoted reference

def recordCandidateReference (candidate : Data) (id : String) (references : References) :
    Except String References :=
  match candidate.property "ref" with
  | .string ref => do
    require (references.lookup ref).isNone (duplicateReference ref)
    return references ++ [(ref, id)]
  | _ => return references

def withMaterialisedIdentity (candidate : Data) (id : String) : Data :=
  .object (setEntry "id" (.string id) (candidate.entries.filter (·.1 ≠ "ref")))

/-- `materialiseEntries`, with the identities that a creation allocates. -/
def materialiseEntries (kind : String) :
    List Data → Nat → References → Except String (List Data × References)
  | [], _, references => return ([], references)
  | entry :: entries, nextOrdinal, references => do
    let id := numbered kind nextOrdinal
    let references ← recordCandidateReference entry id references
    let rest ← materialiseEntries kind entries (nextOrdinal + 1) references
    return (withMaterialisedIdentity entry id :: rest.1, rest.2)

/-- `materialiseCreationEntries`. -/
def materialiseCreationEntries (candidate : List (String × Data)) (type : IdentityType) :
    Except String (List Data × References) := do
  materialiseEntries type.kind
    (← mapTarget "entries" ((candidate.lookup type.field).getD .undefined)) 1 []

/-- `findCandidateReference`. -/
def findCandidateReference (lineItem : Data) : Option IdentityType :=
  fundedIdentityTypes.find? fun type ↦ (lineItem.entries.lookup type.candidateReference).isSome

/-- `replaceCandidateReference`, with the references of the field. -/
def replaceCandidateReference (lineItem : Data) (type : IdentityType) (references : References) :
    Except String Data :=
  match lineItem.property type.candidateReference with
  | .string reference =>
    match references.lookup reference with
    | some id => .ok (.object (setEntry type.persistedReference (.string id)
        (lineItem.entries.filter (·.1 ≠ type.candidateReference))))
    | none => .error (unknownReference reference)
  | _ => .error (unknownReference "undefined")

def resolveCreationLineItem (references : IdentityType → References) (lineItem : Data) :
    Except String Data :=
  match findCandidateReference lineItem with
  | some type => replaceCandidateReference lineItem type (references type)
  | none => .error (unknownReference "undefined")

/-- The instalments of `materialisePaymentSchedule`. -/
def materialiseInstalments (references : IdentityType → References) :
    List Data → Nat → Except String (List Data)
  | [], _ => return []
  | instalment :: instalments, nextOrdinal => do
    let lineItems ← mapTarget "instalment.lineItems" (instalment.property "lineItems")
    let lineItems ← lineItems.mapM (resolveCreationLineItem references)
    let rest ← materialiseInstalments references instalments (nextOrdinal + 1)
    return .object (setEntry "lineItems" (.array lineItems)
      (setEntry "id" (.string (numbered "instalment" nextOrdinal)) instalment.entries)) :: rest

def materialisePaymentSchedule (references : IdentityType → References) (paymentSchedule : Data) :
    Except String Data :=
  if paymentSchedule.isTruthy then do
    let instalments ← mapTarget "paymentSchedule.instalments"
      (paymentSchedule.property "instalments")
    let instalments ← materialiseInstalments references instalments 1
    return .object (setEntry "instalments" (.array instalments) paymentSchedule.entries)
  else return .undefined

/-- `materialiseCreationIdentities`. -/
def materialiseCreationIdentities (candidate : List (String × Data)) :
    Except String (List (String × Data)) := do
  let materialised ← fundedIdentityTypes.mapM fun type ↦ do
    return (type.field, ← materialiseCreationEntries candidate type)
  let entriesOf := fun type ↦ (materialised.lookup type.field).getD ([], [])
  let paymentSchedule ← materialisePaymentSchedule (fun type ↦ (entriesOf type).2)
    ((candidate.lookup "paymentSchedule").getD .undefined)
  return setEntry "paymentSchedule" paymentSchedule
    (assign candidate (fundedIdentityTypes.map fun type ↦
      (type.field, .array (entriesOf type).1)))

/-! ### What becomes of the values -/

/-- The names of the values that hold identities. -/
def identifiedValues : List String := ["actions", "items", "paymentSchedule"]

/-- The entries of a field, each with its identity by its place. -/
def identifiedEntries (type : IdentityType) (entries : List Data) : List Data :=
  entries.mapIdx fun place entry ↦ withMaterialisedIdentity entry (numbered type.kind (place + 1))

/-- A line item is given the identity of the entry its reference names. -/
def LineItemIdentified (value : String → Option Data) (lineItem identified : Data) : Prop :=
  ∃ type ∈ fundedIdentityTypes, ∃ entries place entry reference,
    value type.field = some (.array entries) ∧ entries[place]? = some entry ∧
    entry.property "ref" = .string reference ∧
    lineItem.property type.candidateReference = .string reference ∧
    identified = .object (setEntry type.persistedReference
      (.string (numbered type.kind (place + 1)))
      (lineItem.entries.filter (·.1 ≠ type.candidateReference)))

/-- An instalment is given its identity by its place, and so are its line items those they name. -/
def InstalmentIdentified (value : String → Option Data) (ordinal : Nat)
    (instalment identified : Data) : Prop :=
  ∃ lineItems lineItems', instalment.property "lineItems" = .array lineItems ∧
    List.Forall₂ (LineItemIdentified value) lineItems lineItems' ∧
    identified = .object (setEntry "lineItems" (.array lineItems')
      (setEntry "id" (.string (numbered "instalment" ordinal)) instalment.entries))

/-- The values of an agreement with their identities: its actions and items are the entries there
were, and its payment schedule the one there was if there was any; all other values are as they
were. -/
structure Identified (value value' : String → Option Data) : Prop where
  kept : ∀ name ∉ identifiedValues, value' name = value name
  entries : ∀ type ∈ fundedIdentityTypes, ∃ entries, value type.field = some (.array entries) ∧
    value' type.field = some (.array (identifiedEntries type entries))
  paymentSchedule : ∀ schedule, value "paymentSchedule" = some schedule →
    schedule.isTruthy = true → ∃ instalments instalments',
      schedule.property "instalments" = .array instalments ∧
      instalments'.length = instalments.length ∧
      (∀ place instalment identified, instalments[place]? = some instalment →
        instalments'[place]? = some identified →
          InstalmentIdentified value (place + 1) instalment identified) ∧
      value' "paymentSchedule" =
        some (.object (setEntry "instalments" (.array instalments') schedule.entries))
  unscheduled : ((value "paymentSchedule").getD .undefined).isTruthy = false →
    value' "paymentSchedule" = some .undefined

section
variable {kind : String} {entries values : List Data} {references references' : References}

/-- A reference there afterwards was there, or is the entry's own. -/
theorem recordCandidateReference_eq_ok {candidate : Data} {id : String}
    (h : recordCandidateReference candidate id references = .ok references')
    {reference found : String}
    (hfound : references'.lookup reference = some found) :
    references.lookup reference = some found ∨
      candidate.property "ref" = .string reference ∧ found = id := by
  unfold recordCandidateReference at h
  split at h
  · next ref href =>
    obtain ⟨-, h⟩ := andThen_eq_ok.mp h
    obtain rfl := Except.ok.inj h
    rw [List.lookup_append, Option.or_eq_some_iff] at hfound
    refine hfound.imp_right fun ⟨_, hlast⟩ ↦ ?_
    rw [lookup_cons_eq] at hlast
    split at hlast
    · next heq =>
      rw [href, eq_of_beq heq]
      exact ⟨rfl, (Option.some.inj hlast).symm⟩
    · cases hlast
  · obtain rfl := Except.ok.inj h
    exact .inl hfound

/-- Each entry has its identity by its place, and a reference is that of an entry. -/
theorem materialiseEntries_eq_ok {nextOrdinal : Nat}
    (h : materialiseEntries kind entries nextOrdinal references = .ok (values, references')) :
    values = entries.mapIdx (fun place entry ↦
      withMaterialisedIdentity entry (numbered kind (nextOrdinal + place))) ∧
    ∀ reference found, references'.lookup reference = some found →
      references.lookup reference = some found ∨ ∃ place entry, entries[place]? = some entry ∧
        entry.property "ref" = .string reference ∧
        found = numbered kind (nextOrdinal + place) := by
  induction entries generalizing nextOrdinal references values with
  | nil =>
    obtain ⟨rfl, rfl⟩ := Prod.mk.inj (Except.ok.inj h)
    exact ⟨rfl, fun _ _ hfound ↦ .inl hfound⟩
  | cons entry entries ih =>
    obtain ⟨middle, hmiddle, h⟩ := bind_eq_ok.mp h
    obtain ⟨⟨rest, last⟩, hrest, h⟩ := bind_eq_ok.mp h
    obtain ⟨rfl, rfl⟩ := Prod.mk.inj (Except.ok.inj h)
    obtain ⟨rfl, hreferences⟩ := ih hrest
    refine ⟨?_, fun reference found hfound ↦ ?_⟩
    · rw [List.mapIdx_cons]
      simp only [Nat.add_zero, Nat.add_right_comm _ 1, Nat.add_assoc]
    · rcases hreferences reference found hfound with hmiddle' | ⟨place, other, hother, href, rfl⟩
      · refine (recordCandidateReference_eq_ok hmiddle hmiddle').imp_right fun ⟨href, hid⟩ ↦ ?_
        exact ⟨0, entry, rfl, href, hid⟩
      · exact .inr ⟨place + 1, other, hother, href, by rw [Nat.add_right_comm, Nat.add_assoc]⟩

variable {value : String → Option Data} {type : IdentityType}

/-- What each field's references name are its entries. -/
def NamesEntries (value : String → Option Data) (references : IdentityType → References) : Prop :=
  ∀ type ∈ fundedIdentityTypes, ∀ reference id, (references type).lookup reference = some id →
    ∃ entries place entry, value type.field = some (.array entries) ∧
      entries[place]? = some entry ∧ entry.property "ref" = .string reference ∧
      id = numbered type.kind (place + 1)

variable {referencesOf : IdentityType → References}

theorem resolveCreationLineItem_eq_ok (hreferences : NamesEntries value referencesOf)
    {lineItem identified : Data}
    (h : resolveCreationLineItem referencesOf lineItem = .ok identified) :
    LineItemIdentified value lineItem identified := by
  unfold resolveCreationLineItem at h
  split at h
  · next type htype =>
    unfold replaceCandidateReference at h
    split at h
    · next reference hreference =>
      split at h
      · next id hid =>
        have hmem := List.mem_of_find?_eq_some htype
        obtain ⟨entries, place, entry, hentries, hentry, href, rfl⟩ :=
          hreferences type hmem reference id hid
        exact ⟨type, hmem, entries, place, entry, reference, hentries, hentry, href, hreference,
          (Except.ok.inj h).symm⟩
      · cases h
    · cases h
  · cases h

theorem mapTarget_eq_ok {name : String} {target : Data} {items : List Data}
    (h : mapTarget name target = .ok items) : target = .array items := by
  unfold mapTarget at h
  split at h
  · rw [Except.ok.inj h]
  all_goals cases h

theorem materialiseInstalments_eq_ok (hreferences : NamesEntries value referencesOf)
    {instalments instalments' : List Data} {nextOrdinal : Nat}
    (h : materialiseInstalments referencesOf instalments nextOrdinal = .ok instalments') :
    instalments'.length = instalments.length ∧
      ∀ place instalment identified, instalments[place]? = some instalment →
        instalments'[place]? = some identified →
          InstalmentIdentified value (nextOrdinal + place) instalment identified := by
  induction instalments generalizing nextOrdinal instalments' with
  | nil =>
    obtain rfl := Except.ok.inj h
    exact ⟨rfl, fun _ _ _ hplace ↦ by simp at hplace⟩
  | cons first instalments ih =>
    obtain ⟨lineItems, hlineItems, h⟩ := bind_eq_ok.mp h
    obtain ⟨lineItems', hidentified, h⟩ := bind_eq_ok.mp h
    obtain ⟨rest, hrest, h⟩ := bind_eq_ok.mp h
    obtain rfl := Except.ok.inj h
    obtain ⟨hlength, hplaces⟩ := ih hrest
    refine ⟨by simp [hlength], fun place instalment identified hplace hplace' ↦ ?_⟩
    cases place with
    | zero =>
      obtain rfl := Option.some.inj hplace
      obtain rfl := Option.some.inj hplace'
      exact ⟨lineItems, lineItems', mapTarget_eq_ok hlineItems,
        (mapM_eq_ok.mp hidentified).imp fun _ _ h ↦ resolveCreationLineItem_eq_ok hreferences h,
        rfl⟩
    | succ place =>
      have hinstalment := hplaces place instalment identified hplace hplace'
      rwa [Nat.add_assoc, Nat.add_comm 1] at hinstalment

end

section
variable {candidate candidate' values : List (String × Data)}

/-- The entries of one field. -/
theorem materialiseCreationEntries_eq_ok {type : IdentityType} {entries : List Data}
    {references : References}
    (h : materialiseCreationEntries candidate type = .ok (entries, references)) :
    ∃ before, candidate.lookup type.field = some (.array before) ∧
      entries = identifiedEntries type before ∧
      ∀ reference id, references.lookup reference = some id →
        ∃ place entry, before[place]? = some entry ∧ entry.property "ref" = .string reference ∧
          id = numbered type.kind (place + 1) := by
  obtain ⟨before, hbefore, h⟩ := bind_eq_ok.mp h
  have harray := mapTarget_eq_ok hbefore
  obtain ⟨rfl, hreferences⟩ := materialiseEntries_eq_ok h
  refine ⟨before, ?_, ?_, fun reference id hid ↦ ?_⟩
  · cases hlookup : candidate.lookup type.field with
    | none => rw [hlookup] at harray; cases harray
    | some value => rw [hlookup] at harray; exact congrArg some harray
  · simp only [identifiedEntries, Nat.add_comm]
  · obtain ⟨place, entry, hentry, href, rfl⟩ :=
      (hreferences reference id hid).resolve_left (by simp)
    exact ⟨place, entry, hentry, href, by rw [Nat.add_comm]⟩

/-- Both fields are materialised, and the schedule with the references of their entries. -/
theorem exists_materialised (h : materialiseCreationIdentities candidate = .ok values) :
    ∃ materialised : IdentityType → List Data × References, ∃ paymentSchedule,
      (∀ type ∈ fundedIdentityTypes,
        materialiseCreationEntries candidate type = .ok (materialised type)) ∧
      materialisePaymentSchedule (fun type ↦ (materialised type).2)
        ((candidate.lookup "paymentSchedule").getD .undefined) = .ok paymentSchedule ∧
      values = setEntry "paymentSchedule" paymentSchedule
        (assign candidate (fundedIdentityTypes.map fun type ↦
          (type.field, .array (materialised type).1))) := by
  obtain ⟨materialised, hmaterialised, h⟩ := bind_eq_ok.mp h
  obtain ⟨paymentSchedule, hschedule, h⟩ := bind_eq_ok.mp h
  obtain rfl := Except.ok.inj h
  refine ⟨_, paymentSchedule, fun type htype ↦ ?_, hschedule, rfl⟩
  -- there are two fields
  rcases mapM_eq_ok.mp hmaterialised with _ | ⟨hfirst, _ | ⟨hsecond, _ | _⟩⟩
  obtain ⟨actions, hactions, heq⟩ := bind_eq_ok.mp hfirst
  obtain rfl := Except.ok.inj heq
  obtain ⟨items, hitems, heq⟩ := bind_eq_ok.mp hsecond
  obtain rfl := Except.ok.inj heq
  rcases List.mem_pair.mp htype with rfl | rfl
  · exact hactions
  · exact hitems

theorem materialisePaymentSchedule_eq_ok {value : String → Option Data}
    {referencesOf : IdentityType → References} (hreferences : NamesEntries value referencesOf)
    {schedule identified : Data}
    (h : materialisePaymentSchedule referencesOf schedule = .ok identified) :
    (schedule.isTruthy = true → ∃ instalments instalments',
      schedule.property "instalments" = .array instalments ∧
      instalments'.length = instalments.length ∧
      (∀ place instalment identified, instalments[place]? = some instalment →
        instalments'[place]? = some identified →
          InstalmentIdentified value (place + 1) instalment identified) ∧
      identified = .object (setEntry "instalments" (.array instalments') schedule.entries)) ∧
    (schedule.isTruthy = false → identified = .undefined) := by
  unfold materialisePaymentSchedule at h
  split at h
  · next htruthy =>
    obtain ⟨instalments, hinstalments, h⟩ := bind_eq_ok.mp h
    obtain ⟨instalments', hidentified, h⟩ := bind_eq_ok.mp h
    obtain ⟨hlength, hplaces⟩ := materialiseInstalments_eq_ok hreferences hidentified
    refine ⟨fun _ ↦ ⟨instalments, instalments', mapTarget_eq_ok hinstalments, hlength, ?_,
      (Except.ok.inj h).symm⟩, fun hfalsy ↦ ?_⟩
    · intro place instalment identified hplace hplace'
      rw [Nat.add_comm]
      exact hplaces place instalment identified hplace hplace'
    · rw [htruthy] at hfalsy
      cases hfalsy
  · next hfalsy => exact ⟨fun htruthy ↦ absurd htruthy hfalsy, fun _ ↦ (Except.ok.inj h).symm⟩

/-- What is materialised are the values there were, with their identities. -/
theorem materialiseCreationIdentities_eq_ok
    (h : materialiseCreationIdentities candidate = .ok values) :
    Identified (candidate.lookup ·) (values.lookup ·) := by
  obtain ⟨materialised, paymentSchedule, hentries, hschedule, rfl⟩ := exists_materialised h
  have hreferences : NamesEntries (candidate.lookup ·) (fun type ↦ (materialised type).2) := by
    intro type htype reference id hid
    obtain ⟨before, hbefore, -, hnamed⟩ := materialiseCreationEntries_eq_ok (hentries type htype)
    obtain ⟨place, entry, hentry, href, rfl⟩ := hnamed reference id hid
    exact ⟨before, place, entry, hbefore, hentry, href, rfl⟩
  obtain ⟨hscheduled, hunscheduled⟩ := materialisePaymentSchedule_eq_ok hreferences hschedule
  refine ⟨fun name hname ↦ ?_, fun type htype ↦ ?_, fun schedule hpresent htruthy ↦ ?_,
    fun hfalsy ↦ ?_⟩
  · have hnone : name ≠ "paymentSchedule" ∧ name ≠ "actions" ∧ name ≠ "items" := by
      simpa [identifiedValues, and_comm, and_assoc] using hname
    simp [lookup_setEntry, lookup_assign, fundedIdentityTypes, lookup_cons_eq, hnone]
  · obtain ⟨before, hbefore, hafter, -⟩ := materialiseCreationEntries_eq_ok (hentries type htype)
    refine ⟨before, hbefore, ?_⟩
    rw [← hafter]
    rcases List.mem_pair.mp htype with rfl | rfl <;>
      simp [lookup_setEntry, lookup_assign, fundedIdentityTypes, lookup_cons_eq]
  · rw [hpresent, Option.getD_some] at hscheduled
    obtain ⟨instalments, instalments', hinstalments, hlength, hplaces, rfl⟩ :=
      hscheduled htruthy
    exact ⟨instalments, instalments', hinstalments, hlength, hplaces, by simp [lookup_setEntry]⟩
  · simp [lookup_setEntry, hunscheduled hfalsy]

/-- What is materialised is told by what is looked up. -/
theorem materialiseCreationIdentities_congr
    (hlookup : ∀ name, candidate.lookup name = candidate'.lookup name)
    (h : materialiseCreationIdentities candidate = .ok values) :
    ∃ values', materialiseCreationIdentities candidate' = .ok values' ∧
      ∀ name, values'.lookup name = values.lookup name := by
  have hentries : materialiseCreationEntries candidate = materialiseCreationEntries candidate' := by
    funext type
    rw [materialiseCreationEntries, materialiseCreationEntries, hlookup]
  obtain ⟨materialised, hmaterialised, h⟩ := bind_eq_ok.mp h
  obtain ⟨paymentSchedule, hschedule, h⟩ := bind_eq_ok.mp h
  obtain rfl := Except.ok.inj h
  rw [hentries] at hmaterialised
  rw [hlookup] at hschedule
  refine ⟨_, bind_eq_ok.mpr ⟨materialised, hmaterialised,
    bind_eq_ok.mpr ⟨paymentSchedule, hschedule, rfl⟩⟩, fun name ↦ ?_⟩
  rw [lookup_setEntry, lookup_setEntry, lookup_assign, lookup_assign, hlookup]

end

end FgGas.Processes
