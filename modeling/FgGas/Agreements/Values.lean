import Mathlib.Algebra.Order.Ring.Unbundled.Rat
import Mathlib.Algebra.Ring.Int.Defs
import Mathlib.Data.Rat.Defs
import FgGas.Machine.Guards
import FgGas.Machine.Numbering

/-!
# The values of an agreement

The value fields of an agreement and the schema they are held to
(`src/agreements/schemas/agreement-value.schema.js`), with the rules that tie fields together.
A number of the schema is a rational here, a date the string it is. What the schema asks of
the applicant alone is in the applicant's type, and the messages Joi words are left out.
-/

namespace FgGas.Agreements

open Machine

/-- `parcelAreaSchema`. -/
structure ParcelArea where
  quantity : ℚ
  unit : String
  deriving DecidableEq, Repr

/-- A parcel. -/
structure Parcel where
  id : String
  sheetId : String
  parcelId : String
  area : Option ParcelArea
  deriving DecidableEq, Repr

/-- What an action or an item carries besides its identity; the last two are an action's. -/
structure EntryValues where
  code : String
  description : Option String
  version : Option String
  startDate : Option String
  endDate : Option String
  parcel : Option String
  quantity : Option ℚ
  unit : Option String
  ratePence : Option Int
  totalAmountPence : Option Int
  durationYears : Option ℚ
  annualAmountPence : Option Int
  deriving DecidableEq, Repr

/-- A revenue action or a capital item. -/
structure FundedEntry extends EntryValues where
  id : String
  deriving DecidableEq, Repr

/-- What a line item carries besides the entry it refers to. -/
structure LineItemValues where
  amountPence : Int
  description : Option String
  deriving DecidableEq, Repr

/-- A line item of an instalment. -/
structure LineItem extends LineItemValues where
  actionId : Option String
  itemId : Option String
  deriving DecidableEq, Repr

/-- What an instalment carries besides its identity and its line items. -/
structure InstalmentValues where
  dueDate : String
  totalAmountPence : Int
  correlationId : Option String
  deriving DecidableEq, Repr

/-- An instalment of a payment schedule. -/
structure Instalment extends InstalmentValues where
  id : String
  lineItems : List LineItem
  deriving DecidableEq, Repr

/-- A payment schedule. -/
structure PaymentSchedule where
  frequency : Option String
  instalments : List Instalment
  deriving DecidableEq, Repr

/-- The value fields of an agreement, with its applicant and its application. -/
structure AgreementValues (A P : Type) where
  schemeCode : Option String
  name : Option String
  applicant : Option A
  application : P
  startDate : Option String
  endDate : Option String
  parcels : Option (List Parcel)
  actions : List FundedEntry
  items : List FundedEntry
  annualAmountPence : Option Int
  totalAmountPence : Option Int
  paymentSchedule : Option PaymentSchedule
  deriving DecidableEq, Repr

/-! ### What the schema asks of each field -/

/-- `Joi.string().optional()`: an empty string is refused. -/
def filled (value : Option String) : Bool := value.all (· ≠ "")

/-- `Number.MAX_SAFE_INTEGER`. -/
def maxSafeInteger : Nat := 9007199254740991

/-- A number Joi takes for safe. -/
def isSafeNumber (n : ℚ) : Bool := -(maxSafeInteger : ℚ) ≤ n && n ≤ (maxSafeInteger : ℚ)

/-- `penceSchema`. -/
def isPence (n : Int) : Bool := -(maxSafeInteger : Int) ≤ n && n ≤ (maxSafeInteger : Int)

/-- The days of a month, in a year of the Gregorian calendar. -/
def daysInMonth (year month : Nat) : Nat :=
  if month = 2 then
    if year % 4 = 0 && (year % 100 ≠ 0 || year % 400 = 0) then 29 else 28
  else if month = 4 || month = 6 || month = 9 || month = 11 then 30
  else 31

/-- `agreementDateSchema`: four, two and two digits, and `isCalendarDate`. -/
def isCalendarDate (value : String) : Bool :=
  match value.toList with
  | [y₁, y₂, y₃, y₄, '-', m₁, m₂, '-', d₁, d₂] =>
      let year := Nat.ofDigitChars 10 [y₁, y₂, y₃, y₄] 0
      let month := Nat.ofDigitChars 10 [m₁, m₂] 0
      let day := Nat.ofDigitChars 10 [d₁, d₂] 0
      [y₁, y₂, y₃, y₄, m₁, m₂, d₁, d₂].all Char.isDigit &&
        (1 ≤ month && month ≤ 12) && (1 ≤ day && day ≤ daysInMonth year month)
  | _ => false

/-- `parcelSchema`. -/
def Parcel.matchesSchema (p : Parcel) : Bool :=
  p.id = p.sheetId ++ "-" ++ p.parcelId && p.sheetId ≠ "" && p.parcelId ≠ "" &&
    p.area.all fun area ↦ isSafeNumber area.quantity && area.unit ≠ ""

/-- `fundedEntryFields` but the identity, and the two of an action: a quantity needs its unit
and a unit its quantity. -/
def EntryValues.matchesSchema (e : EntryValues) : Bool :=
  e.code ≠ "" && filled e.description && filled e.version &&
    e.startDate.all isCalendarDate && e.endDate.all isCalendarDate && filled e.parcel &&
    e.quantity.all isSafeNumber && filled e.unit && e.ratePence.all isPence &&
    e.totalAmountPence.all isPence && e.durationYears.all isSafeNumber &&
    e.annualAmountPence.all isPence && e.quantity.isSome = e.unit.isSome

/-- An entry without the fields of an action. -/
def EntryValues.isItem (e : EntryValues) : Bool :=
  e.durationYears.isNone && e.annualAmountPence.isNone

/-- `revenueActionSchema`. -/
def FundedEntry.matchesActionSchema (e : FundedEntry) : Bool :=
  isNumbered "action" e.id && e.toEntryValues.matchesSchema

/-- `capitalItemSchema`. -/
def FundedEntry.matchesItemSchema (e : FundedEntry) : Bool :=
  isNumbered "item" e.id && e.toEntryValues.matchesSchema && e.isItem

/-- What a line item has to satisfy besides referring to an entry. -/
def LineItemValues.matchesSchema (i : LineItemValues) : Bool :=
  isPence i.amountPence && filled i.description

/-- `paymentScheduleLineItemSchema`: exactly one of the two references. -/
def LineItem.matchesSchema (i : LineItem) : Bool :=
  i.toLineItemValues.matchesSchema && filled i.actionId && filled i.itemId &&
    (i.actionId.isSome ^^ i.itemId.isSome)

/-- What an instalment has to satisfy on its own. -/
def InstalmentValues.matchesSchema (i : InstalmentValues) : Bool :=
  isCalendarDate i.dueDate && isPence i.totalAmountPence && filled i.correlationId

/-- `validateInstalmentTotal`. -/
def Instalment.validateInstalmentTotal (i : Instalment) : Bool :=
  i.totalAmountPence = (i.lineItems.map (·.amountPence)).sum

/-- `paymentScheduleInstalmentSchema`. -/
def Instalment.matchesSchema (i : Instalment) : Bool :=
  i.id ≠ "" && i.toInstalmentValues.matchesSchema && i.lineItems.all LineItem.matchesSchema &&
    i.validateInstalmentTotal

/-- `paymentScheduleSchema`. -/
def PaymentSchedule.matchesSchema (s : PaymentSchedule) : Bool :=
  filled s.frequency && s.instalments.all Instalment.matchesSchema &&
    (s.instalments.map (·.id)).Nodup

/-! ### The rules that tie fields together -/

/-- The dates in their written order, which is that of the calendar. -/
def isBefore (a b : String) : Bool := a.toList < b.toList

/-- What breaks a rule, and where. -/
inductive Violation
  | agreementDateRange
  | entryDateRange (path : String)
  | entryDateBounds (path field : String)
  | entryParcelReference (path parcel : String)
  | entryParcelArea (path : String) (parcel : Option String)
  | lineItemReference (path field reference : String)
  deriving DecidableEq, Repr

/-- The entries of a field, each with its path. -/
def entriesAt (field : String) (entries : List FundedEntry) : List (FundedEntry × String) :=
  entries.zipIdx.map fun e ↦ (e.1, field ++ "[" ++ toString e.2 ++ "]")

/-- `hasInvertedRange`. -/
def hasInvertedRange (startDate endDate : Option String) : Bool :=
  startDate.any fun start ↦ endDate.any fun end' ↦ isBefore end' start

/-- The dates of an entry, by field. -/
def EntryValues.datesByField (e : EntryValues) : List (String × Option String) :=
  [("startDate", e.startDate), ("endDate", e.endDate)]

/-- `findOutOfBoundsEntryDate`: the path and field of the first date out of bounds. -/
def findOutOfBoundsEntryDate (entries : List (FundedEntry × String))
    (startDate endDate : Option String) : Option (String × String) :=
  entries.findSome? fun e ↦ e.1.datesByField.findSome? fun d ↦
    if d.2.any fun date ↦ startDate.any (isBefore date) || endDate.any (isBefore · date) then
      some (e.2, d.1)
    else none

section
variable {A P : Type} (v : AgreementValues A P)

/-- `toFundedEntries`. -/
def AgreementValues.toFundedEntries : List (FundedEntry × String) :=
  entriesAt "actions" v.actions ++ entriesAt "items" v.items

/-- `findDateViolation`. -/
def AgreementValues.findDateViolation : Option Violation :=
  if hasInvertedRange v.startDate v.endDate then some .agreementDateRange
  else match v.toFundedEntries.find? fun e ↦ hasInvertedRange e.1.startDate e.1.endDate with
    | some invertedEntry => some (.entryDateRange invertedEntry.2)
    | none =>
        (findOutOfBoundsEntryDate v.toFundedEntries v.startDate v.endDate).map fun outOfBounds ↦
          .entryDateBounds outOfBounds.1 outOfBounds.2

/-- The parcel of an id in `parcelsById`: a later one takes the earlier's place. -/
def AgreementValues.parcelById (id : String) : Option Parcel :=
  (v.parcels.getD []).reverse.find? (·.id = id)

/-- `areaQuantityValidators`, of which there is one, for hectares. -/
def exceedsArea (e : EntryValues) (parcel : Option Parcel) : Bool :=
  e.unit = some "ha" && (parcel.bind (·.area)).any fun area ↦
    area.unit = "ha" && e.quantity.any (area.quantity < ·)

/-- `findParcelViolation`. -/
def AgreementValues.findParcelViolation : Option Violation :=
  match v.toFundedEntries.findSome? fun e ↦ (e.1.parcel.filter fun parcel ↦
      parcel ≠ "" && (v.parcelById parcel).isNone).map fun parcel ↦ (e.2, parcel) with
  | some danglingReference => some (.entryParcelReference danglingReference.1 danglingReference.2)
  | none =>
      (v.toFundedEntries.find? fun e ↦ exceedsArea e.1.toEntryValues
        (e.1.parcel.bind v.parcelById)).map fun overArea ↦
          .entryParcelArea overArea.2 overArea.1.parcel

/-- The references of a line item, by field. -/
def LineItem.references (i : LineItem) : List (String × Option String) :=
  [("actionId", i.actionId), ("itemId", i.itemId)]

/-- The ids a field of a line item may refer to. -/
def AgreementValues.referencedIds (field : String) : List String :=
  if field = "actionId" then v.actions.map (·.id) else v.items.map (·.id)

/-- The instalments there are. -/
def AgreementValues.instalments : List Instalment := v.paymentSchedule.elim [] (·.instalments)

/-- `findLineItemReferenceViolation`. -/
def AgreementValues.findLineItemReferenceViolation : Option Violation :=
  v.instalments.zipIdx.findSome? fun instalment ↦
    instalment.1.lineItems.zipIdx.findSome? fun lineItem ↦
      lineItem.1.references.findSome? fun r ↦
        (r.2.filter fun reference ↦ reference ≠ "" && reference ∉ v.referencedIds r.1).map
          fun reference ↦ .lineItemReference ("paymentSchedule.instalments[" ++
            toString instalment.2 ++ "].lineItems[" ++ toString lineItem.2 ++ "]") r.1 reference

/-- `validateAgreementInvariants`. -/
def AgreementValues.findViolation : Option Violation :=
  v.findDateViolation.orElse fun _ ↦ v.findParcelViolation.orElse fun _ ↦
    v.findLineItemReferenceViolation

/-- What the schema asks of the fields one by one. -/
def AgreementValues.wellFormed : Bool :=
  filled v.schemeCode && filled v.name && v.startDate.all isCalendarDate &&
    v.endDate.all isCalendarDate &&
    v.parcels.all (fun parcels ↦ parcels.all Parcel.matchesSchema && (parcels.map (·.id)).Nodup) &&
    v.actions.all FundedEntry.matchesActionSchema && (v.actions.map (·.id)).Nodup &&
    v.items.all FundedEntry.matchesItemSchema && (v.items.map (·.id)).Nodup &&
    v.annualAmountPence.all isPence && v.totalAmountPence.all isPence &&
    v.paymentSchedule.all PaymentSchedule.matchesSchema

/-- `agreementValueSchema`. -/
def AgreementValues.matchesSchema : Bool := v.wellFormed && v.findViolation.isNone

end

/-! ### What the rules come to -/

/-- The dates of an entry. -/
def EntryValues.dates (e : EntryValues) : List String := e.startDate.toList ++ e.endDate.toList

section
variable {A P : Type} {v : AgreementValues A P}

/-- The actions and the items. -/
def AgreementValues.entries (v : AgreementValues A P) : List FundedEntry := v.actions ++ v.items

/-- The line items of all instalments. -/
def AgreementValues.lineItems (v : AgreementValues A P) : List LineItem :=
  v.instalments.flatMap (·.lineItems)

/-- The values keep the rules that tie fields together: the agreement starts on or before it
ends, and so does every entry; the dates of entries are within the agreement's; an entry's
parcel is known, and its hectares are not exceeded; and a line item refers to an entry. -/
structure AgreementValues.Consistent (v : AgreementValues A P) : Prop where
  range : ∀ start ∈ v.startDate, ∀ end' ∈ v.endDate, isBefore end' start = false
  entryRange : ∀ e ∈ v.entries, ∀ start ∈ e.startDate, ∀ end' ∈ e.endDate,
    isBefore end' start = false
  notBefore : ∀ e ∈ v.entries, ∀ date ∈ e.dates, ∀ start ∈ v.startDate, isBefore date start = false
  notAfter : ∀ e ∈ v.entries, ∀ date ∈ e.dates, ∀ end' ∈ v.endDate, isBefore end' date = false
  parcel : ∀ e ∈ v.entries, ∀ id ∈ e.parcel, ∃ parcel ∈ v.parcels.getD [], parcel.id = id
  area : ∀ e ∈ v.entries, ∀ parcel ∈ v.parcels.getD [], e.parcel = some parcel.id →
    e.unit = some "ha" → ∀ area ∈ parcel.area, area.unit = "ha" →
      ∀ quantity ∈ e.quantity, quantity ≤ area.quantity
  actionId : ∀ i ∈ v.lineItems, ∀ id ∈ i.actionId, id ∈ v.actions.map (·.id)
  itemId : ∀ i ∈ v.lineItems, ∀ id ∈ i.itemId, id ∈ v.items.map (·.id)

theorem map_fst_entriesAt (field : String) (entries : List FundedEntry) :
    (entriesAt field entries).map Prod.fst = entries := by
  simp [entriesAt, Function.comp_def, List.zipIdx_map_fst]

/-- What holds of the entries with their paths holds of the entries. -/
theorem forall_toFundedEntries {p : FundedEntry → Prop} :
    (∀ x ∈ v.toFundedEntries, p x.1) ↔ ∀ e ∈ v.entries, p e := by
  have hfst : v.toFundedEntries.map Prod.fst = v.entries := by
    rw [AgreementValues.toFundedEntries, List.map_append, map_fst_entriesAt, map_fst_entriesAt,
      AgreementValues.entries]
  rw [← hfst, List.forall_mem_map]

theorem hasInvertedRange_eq_false {startDate endDate : Option String} :
    hasInvertedRange startDate endDate = false ↔
      ∀ start ∈ startDate, ∀ end' ∈ endDate, isBefore end' start = false := by
  simp [hasInvertedRange, Option.any_eq_false]

theorem findOutOfBoundsEntryDate_eq_none {entries : List (FundedEntry × String)}
    {startDate endDate : Option String} :
    findOutOfBoundsEntryDate entries startDate endDate = none ↔
      ∀ x ∈ entries, ∀ date ∈ x.1.dates, (∀ start ∈ startDate, isBefore date start = false) ∧
        ∀ end' ∈ endDate, isBefore end' date = false := by
  unfold findOutOfBoundsEntryDate
  rw [List.findSome?_eq_none_iff]
  refine forall_congr' fun x ↦ imp_congr_right fun _ ↦ ?_
  cases hstart : x.1.startDate <;> cases hend : x.1.endDate <;>
    simp [EntryValues.datesByField, EntryValues.dates, hstart, hend, Option.any_eq_false]

/-- No date is out of order. -/
theorem findDateViolation_eq_none : v.findDateViolation = none ↔
    hasInvertedRange v.startDate v.endDate = false ∧
    (∀ e ∈ v.entries, hasInvertedRange e.startDate e.endDate = false) ∧
    ∀ e ∈ v.entries, ∀ date ∈ e.dates, (∀ start ∈ v.startDate, isBefore date start = false) ∧
      ∀ end' ∈ v.endDate, isBefore end' date = false := by
  have hentries : (v.toFundedEntries.find? fun e ↦ hasInvertedRange e.1.startDate e.1.endDate) =
      none ↔ ∀ e ∈ v.entries, hasInvertedRange e.startDate e.endDate = false := by
    rw [List.find?_eq_none, ← forall_toFundedEntries]
    simp
  have hbounds := @findOutOfBoundsEntryDate_eq_none v.toFundedEntries v.startDate v.endDate
  rw [forall_toFundedEntries (p := fun e ↦ ∀ date ∈ e.dates,
    (∀ start ∈ v.startDate, isBefore date start = false) ∧
      ∀ end' ∈ v.endDate, isBefore end' date = false)] at hbounds
  unfold AgreementValues.findDateViolation
  cases hrange : hasInvertedRange v.startDate v.endDate with
  | true => simp
  | false =>
    rw [← hbounds, ← hentries]
    cases v.toFundedEntries.find? fun e ↦ hasInvertedRange e.1.startDate e.1.endDate with
    | some invertedEntry => simp
    | none => simp

/-- With ids that do not repeat, the parcel of an id is the one that has it. -/
theorem parcelById_eq_some (hnodup : ((v.parcels.getD []).map (·.id)).Nodup) {id : String}
    {parcel : Parcel} :
    v.parcelById id = some parcel ↔ parcel ∈ v.parcels.getD [] ∧ parcel.id = id := by
  constructor
  · intro h
    exact ⟨List.mem_reverse.mp (List.mem_of_find?_eq_some h), by simpa using List.find?_some h⟩
  · rintro ⟨hm, rfl⟩
    have hreverse : ((v.parcels.getD []).reverse.map (·.id)).Nodup := by
      rw [List.map_reverse, List.nodup_reverse]
      exact hnodup
    exact find?_of_nodup hreverse (List.mem_reverse.mpr hm)

theorem parcelById_eq_none {id : String} :
    v.parcelById id = none ↔ ¬ ∃ parcel ∈ v.parcels.getD [], parcel.id = id := by
  simp [AgreementValues.parcelById, List.find?_eq_none]

theorem exceedsArea_eq_false {e : EntryValues} {parcel : Option Parcel} :
    exceedsArea e parcel = false ↔ ∀ p ∈ parcel, e.unit = some "ha" → ∀ area ∈ p.area,
      area.unit = "ha" → ∀ quantity ∈ e.quantity, quantity ≤ area.quantity := by
  cases parcel with
  | none => simp [exceedsArea]
  | some p => simp [exceedsArea, Option.any_eq_false]

/-- No parcel is unknown or exceeded. -/
theorem findParcelViolation_eq_none (hnodup : ((v.parcels.getD []).map (·.id)).Nodup)
    (hfilled : ∀ e ∈ v.entries, e.parcel ≠ some "") : v.findParcelViolation = none ↔
    (∀ e ∈ v.entries, ∀ id ∈ e.parcel, ∃ parcel ∈ v.parcels.getD [], parcel.id = id) ∧
    ∀ e ∈ v.entries, ∀ parcel ∈ v.parcels.getD [], e.parcel = some parcel.id →
      e.unit = some "ha" → ∀ area ∈ parcel.area, area.unit = "ha" →
        ∀ quantity ∈ e.quantity, quantity ≤ area.quantity := by
  have hknown : (v.toFundedEntries.findSome? fun e ↦ (e.1.parcel.filter fun parcel ↦
      parcel ≠ "" && (v.parcelById parcel).isNone).map fun parcel ↦ (e.2, parcel)) = none ↔
      ∀ e ∈ v.entries, ∀ id ∈ e.parcel, ∃ parcel ∈ v.parcels.getD [], parcel.id = id := by
    rw [List.findSome?_eq_none_iff, ← forall_toFundedEntries]
    refine forall_congr' fun x ↦ imp_congr_right fun hx ↦ ?_
    have hne := forall_toFundedEntries.mpr hfilled x hx
    cases hparcel : x.1.parcel with
    | none => simp
    | some id =>
      have hid : id ≠ "" := fun he ↦ hne (by rw [hparcel, he])
      have hnone : v.parcelById id = none ↔ ¬ ∃ parcel ∈ v.parcels.getD [], parcel.id = id :=
        parcelById_eq_none
      cases hfound : v.parcelById id with
      | none => simp [hid, hfound, hnone.mp hfound, Option.filter]
      | some parcel =>
        have hm := (parcelById_eq_some hnodup).mp hfound
        simp only [Option.filter, hfound, Option.isNone_some, Bool.and_false, Option.mem_some_iff,
          forall_eq', Bool.false_eq_true, if_false, Option.map_none, true_iff]
        exact ⟨parcel, hm⟩
  have harea : (v.toFundedEntries.find? fun e ↦ exceedsArea e.1.toEntryValues
      (e.1.parcel.bind v.parcelById)) = none ↔
      ∀ e ∈ v.entries, ∀ parcel ∈ v.parcels.getD [], e.parcel = some parcel.id →
        e.unit = some "ha" → ∀ area ∈ parcel.area, area.unit = "ha" →
          ∀ quantity ∈ e.quantity, quantity ≤ area.quantity := by
    rw [List.find?_eq_none, ← forall_toFundedEntries]
    refine forall_congr' fun x ↦ imp_congr_right fun _ ↦ ?_
    rw [Bool.not_eq_true, exceedsArea_eq_false]
    constructor
    · intro h parcel hm hparcel
      exact h parcel (by rw [hparcel]; exact (parcelById_eq_some hnodup).mpr ⟨hm, rfl⟩)
    · intro h parcel hparcel
      obtain ⟨id, hid, hfound⟩ := Option.bind_eq_some_iff.mp hparcel
      obtain ⟨hm, rfl⟩ := (parcelById_eq_some hnodup).mp hfound
      exact h parcel hm hid
  unfold AgreementValues.findParcelViolation
  rw [← hknown, ← harea]
  cases v.toFundedEntries.findSome? fun e ↦ (e.1.parcel.filter fun parcel ↦
      parcel ≠ "" && (v.parcelById parcel).isNone).map fun parcel ↦ (e.2, parcel) with
  | some danglingReference => simp
  | none => simp

/-- The line item refers to entries that are there. -/
def AgreementValues.Refers (v : AgreementValues A P) (i : LineItem) : Prop :=
  (∀ id ∈ i.actionId, id ∈ v.actions.map (·.id)) ∧ ∀ id ∈ i.itemId, id ∈ v.items.map (·.id)

theorem references_findSome?_eq_none {i : LineItem} (haction : i.actionId ≠ some "")
    (hitem : i.itemId ≠ some "") {α : Type} (f : String → String → α) :
    (i.references.findSome? fun r ↦
      (r.2.filter fun reference ↦ reference ≠ "" && reference ∉ v.referencedIds r.1).map
        (f r.1)) = none ↔ v.Refers i := by
  have hreference : ∀ {reference : Option String} {ids : List String} (g : String → α),
      reference ≠ some "" → ((reference.filter fun r ↦ r ≠ "" && r ∉ ids).map g = none ↔
        ∀ id ∈ reference, id ∈ ids) := by
    intro reference ids g hne
    cases reference with
    | none => simp
    | some id =>
      have hid : id ≠ "" := fun he ↦ hne (by rw [he])
      by_cases hm : id ∈ ids <;> simp [Option.filter, hid, hm]
  rw [List.findSome?_eq_none_iff]
  simp only [LineItem.references, List.forall_mem_cons, List.not_mem_nil, false_implies,
    implies_true, and_true, hreference _ haction, hreference _ hitem, AgreementValues.referencedIds,
    if_true, if_neg (show ¬ "itemId" = "actionId" by decide), AgreementValues.Refers]

/-- What holds of the entries of a list with their places holds of the entries. -/
theorem forall_mem_zipIdx {α : Type} {l : List α} {p : α → Prop} :
    (∀ x ∈ l.zipIdx, p x.1) ↔ ∀ x ∈ l, p x := by
  rw [← List.forall_mem_map (f := Prod.fst), List.zipIdx_map_fst]

/-- No line item refers to an entry that is not there. -/
theorem findLineItemReferenceViolation_eq_none
    (hfilled : ∀ i ∈ v.lineItems, i.actionId ≠ some "" ∧ i.itemId ≠ some "") :
    v.findLineItemReferenceViolation = none ↔ ∀ i ∈ v.lineItems, v.Refers i := by
  unfold AgreementValues.findLineItemReferenceViolation
  rw [List.findSome?_eq_none_iff, AgreementValues.lineItems, List.forall_mem_flatMap]
  refine Iff.trans ?_ (forall_mem_zipIdx (p := fun instalment : Instalment ↦
    ∀ i ∈ instalment.lineItems, v.Refers i))
  refine forall_congr' fun instalment ↦ imp_congr_right fun hinstalment ↦ ?_
  rw [List.findSome?_eq_none_iff, ← forall_mem_zipIdx (p := v.Refers)]
  refine forall_congr' fun lineItem ↦ imp_congr_right fun hlineItem ↦ ?_
  have hm : lineItem.1 ∈ v.lineItems := by
    rw [AgreementValues.lineItems, List.mem_flatMap]
    exact ⟨instalment.1, List.fst_mem_of_mem_zipIdx hinstalment,
      List.fst_mem_of_mem_zipIdx hlineItem⟩
  obtain ⟨haction, hitem⟩ := hfilled _ hm
  exact references_findSome?_eq_none haction hitem _

/-- What of the fields being in order is used. -/
structure AgreementValues.WellFormed (v : AgreementValues A P) : Prop where
  parcelIds : ((v.parcels.getD []).map (·.id)).Nodup
  actions : ∀ e ∈ v.actions, e.matchesActionSchema = true
  actionIds : (v.actions.map (·.id)).Nodup
  items : ∀ e ∈ v.items, e.matchesItemSchema = true
  itemIds : (v.items.map (·.id)).Nodup
  instalmentIds : (v.instalments.map (·.id)).Nodup
  lineItems : ∀ i ∈ v.lineItems, i.matchesSchema = true

theorem AgreementValues.wellFormed_eq_true (h : v.wellFormed = true) : v.WellFormed := by
  simp only [AgreementValues.wellFormed, Bool.and_eq_true, decide_eq_true_eq,
    List.all_eq_true] at h
  obtain ⟨⟨⟨⟨⟨⟨⟨⟨_, hparcels⟩, hactions⟩, hactionIds⟩, hitems⟩, hitemIds⟩, _⟩, _⟩, hschedule⟩ := h
  have hinstalments : (v.instalments.map (·.id)).Nodup ∧
      ∀ instalment ∈ v.instalments, instalment.matchesSchema = true := by
    unfold AgreementValues.instalments
    cases hs : v.paymentSchedule with
    | none => simp
    | some schedule =>
      rw [hs, Option.all_some] at hschedule
      simp only [PaymentSchedule.matchesSchema, Bool.and_eq_true, decide_eq_true_eq,
        List.all_eq_true] at hschedule
      exact ⟨hschedule.2, hschedule.1.2⟩
  constructor
  case parcelIds =>
    cases hp : v.parcels with
    | none => simp
    | some parcels =>
      rw [hp, Option.all_some] at hparcels
      simp only [Bool.and_eq_true, decide_eq_true_eq] at hparcels
      exact hparcels.2
  case lineItems =>
    intro i hi
    obtain ⟨instalment, hm, hi⟩ := List.mem_flatMap.mp hi
    have hinstalment := hinstalments.2 instalment hm
    simp only [Instalment.matchesSchema, Bool.and_eq_true, List.all_eq_true] at hinstalment
    exact hinstalment.1.2 i hi
  case instalmentIds => exact hinstalments.1
  case actions => exact hactions
  case actionIds => exact hactionIds
  case items => exact hitems
  case itemIds => exact hitemIds

theorem ne_empty_of_filled {value : Option String} (h : filled value = true) : value ≠ some "" := by
  rintro rfl
  simp [filled] at h

theorem parcel_filled {e : EntryValues} (h : e.matchesSchema = true) : e.parcel ≠ some "" := by
  simp only [EntryValues.matchesSchema, Bool.and_eq_true] at h
  exact ne_empty_of_filled h.1.1.1.1.1.1.1.2

/-- Fields that are in order one by one keep the rules that tie them together just when the
schema finds no violation. -/
theorem AgreementValues.WellFormed.findViolation_eq_none (h : v.WellFormed) :
    v.findViolation = none ↔ v.Consistent := by
  have hparcel : ∀ e ∈ v.entries, e.parcel ≠ some "" := by
    intro e he
    rcases List.mem_append.mp he with he | he
    · have haction := h.actions e he
      simp only [FundedEntry.matchesActionSchema, Bool.and_eq_true] at haction
      exact parcel_filled haction.2
    · have hitem := h.items e he
      simp only [FundedEntry.matchesItemSchema, Bool.and_eq_true] at hitem
      exact parcel_filled hitem.1.2
  have hreference : ∀ i ∈ v.lineItems, i.actionId ≠ some "" ∧ i.itemId ≠ some "" := by
    intro i hi
    have hm := h.lineItems i hi
    simp only [LineItem.matchesSchema, Bool.and_eq_true] at hm
    exact ⟨ne_empty_of_filled hm.1.1.2, ne_empty_of_filled hm.1.2⟩
  have hnone : v.findViolation = none ↔ v.findDateViolation = none ∧
      v.findParcelViolation = none ∧ v.findLineItemReferenceViolation = none := by
    unfold AgreementValues.findViolation
    cases v.findDateViolation <;> cases v.findParcelViolation <;> simp
  rw [hnone, findDateViolation_eq_none, findParcelViolation_eq_none h.parcelIds hparcel,
    findLineItemReferenceViolation_eq_none hreference]
  simp only [hasInvertedRange_eq_false]
  constructor
  · rintro ⟨⟨hrange, hentryRange, hdates⟩, ⟨hknown, harea⟩, hrefers⟩
    exact
      { range := hrange
        entryRange := hentryRange
        notBefore := fun e he date hdate ↦ (hdates e he date hdate).1
        notAfter := fun e he date hdate ↦ (hdates e he date hdate).2
        parcel := hknown
        area := harea
        actionId := fun i hi ↦ (hrefers i hi).1
        itemId := fun i hi ↦ (hrefers i hi).2 }
  · intro hc
    exact ⟨⟨hc.range, hc.entryRange, fun e he date hdate ↦
        ⟨hc.notBefore e he date hdate, hc.notAfter e he date hdate⟩⟩,
      ⟨hc.parcel, hc.area⟩, fun i hi ↦ ⟨hc.actionId i hi, hc.itemId i hi⟩⟩

/-- The values the schema accepts. -/
theorem AgreementValues.matchesSchema_eq_true (h : v.matchesSchema = true) :
    v.WellFormed ∧ v.Consistent := by
  simp only [AgreementValues.matchesSchema, Bool.and_eq_true, Option.isNone_iff_eq_none] at h
  have hwell := v.wellFormed_eq_true h.1
  exact ⟨hwell, hwell.findViolation_eq_none.mp h.2⟩

end

end FgGas.Agreements
