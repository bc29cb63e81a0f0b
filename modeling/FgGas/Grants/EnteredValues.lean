import FgGas.Grants.EnteredText

/-!
# Values a case officer enters

A field of an entitlement is checked in the units it is entered in
(`src/grants/models/entitlement-template.js`), stored as entered
(`src/grants/models/entitlement.js`, `src/grants/services/entitlement.service.js`), and shown and
audited as if it were stored as a scaled integer
(`src/grants/services/map-claimable-entitlement.js`,
`src/grants/services/entitlement-audit-values.js`).
-/

namespace FgGas.Grants

open Machine

/-- A value of a field. A number is a double that is finite. -/
inductive FieldValue
  | text (value : String)
  | number (value : ℚ)
  | boolean (value : Bool)
  deriving DecidableEq

/-- The unit type of a field, with the constraints that belong to it. -/
inductive UnitType
  | decimal (decimalPlaces : ℕ) (unit : String) (minValue maxValue : Option ℚ)
  | string (minLength maxLength : Option ℕ)

/-- A field of a template: collected as input, or fixed to a value. -/
structure DataField where
  input : Bool
  unitType : UnitType
  value : Option FieldValue

/-- Values by the name of their field. -/
abbrev FieldValues := List (String × FieldValue)

/-- The fields of a template, the keys of an object. -/
structure DataFields where
  entries : List (String × DataField)
  nodup : (entries.map Prod.fst).Nodup

/-- `value.length`. -/
def utf16Length (value : String) : ℕ :=
  (value.toList.map fun c ↦ if c.toNat < 0x10000 then 1 else 2).sum

/-- `#withinRange`. -/
def withinRange {α : Type} [LE α] [DecidableLE α] (value : α) (minimum maximum : Option α) : Bool :=
  minimum.all (· ≤ value) && maximum.all (value ≤ ·)

section
variable (digits : ℚ → Digits)

/-- `#submittedValueMatches`. -/
def submittedValueMatches (field : DataField) (value : FieldValue) : Bool :=
  match field.unitType, value with
  | .decimal decimalPlaces _ minValue maxValue, .number value =>
    withinRange value minValue maxValue && decimalPlacesOf (numberText digits value) ≤ decimalPlaces
  | .string minLength maxLength, .text value =>
    withinRange (utf16Length value) minLength maxLength
  | _, _ => false

/-- `hasValidInputData`. -/
def DataFields.hasValidInputData (fields : DataFields) (submitted : FieldValues) : Bool :=
  let expected := fields.entries.filter (·.2.input)
  expected.length = submitted.length && expected.all fun entry ↦
    (submitted.lookup entry.1).any (submittedValueMatches digits entry.2)

/-- What the schema of `Entitlement` says of a value of its data. -/
def FieldValue.storable : FieldValue → Bool
  | .text value => value ≠ ""
  | .number value => -(2 ^ 53 - 1) ≤ value && value ≤ 2 ^ 53 - 1
  | .boolean _ => true

/-- The schema of `Entitlement`, as far as its data goes. -/
def storableData (data : FieldValues) : Bool := data ≠ [] && data.all (·.2.storable)

/-- An object spread with another over it. -/
def spread (data more : FieldValues) : FieldValues :=
  data.filter (fun entry ↦ more.all (·.1 ≠ entry.1)) ++ more

/-- `resolveFixedData`, with what its references resolve to. -/
def DataFields.resolveFixedData (fields : DataFields) (resolve : String → FieldValue) :
    FieldValues :=
  (fields.entries.filter (!·.2.input)).map fun entry ↦ (entry.1, resolve entry.1)

/-- The data of an entitlement created. -/
def DataFields.createdData (fields : DataFields) (resolve : String → FieldValue)
    (submitted : FieldValues) : Option FieldValues :=
  let data := spread submitted (fields.resolveFixedData resolve)
  if fields.hasValidInputData digits submitted && storableData data then some data else none

/-- `withInputData`. -/
def DataFields.withInputData (fields : DataFields) (data submitted : FieldValues) :
    Option FieldValues :=
  if fields.hasValidInputData digits submitted && storableData (spread data submitted) then
    some (spread data submitted)
  else none

/-- A value as it is shown: one that is missing, a number that is not finite, or a value. -/
inductive Shown
  | missing
  | notFinite
  | value (value : FieldValue)
  deriving DecidableEq

/-- `unscaled`. -/
def unscaled (value : FieldValue) (decimalPlaces : ℕ) : Shown :=
  match value with
  | .number value => match unscaleDecimalAsText digits value decimalPlaces with
    | some result => .value (.number result)
    | none => .notFinite
  | value => .value value

/-- `toEnteredValue`. -/
def toEnteredValue (field : DataField) (stored : Option FieldValue) : Shown :=
  match stored, field.unitType with
  | none, _ => .missing
  | some stored, .decimal decimalPlaces _ _ _ => unscaled digits stored decimalPlaces
  | some stored, .string _ _ => .value stored

/-- `claimData`: what `toClaimableDto` shows of each field. -/
def DataFields.claimData (fields : DataFields) (data : FieldValues) : List (String × Shown) :=
  fields.entries.map fun entry ↦
    (entry.1, toEnteredValue digits entry.2 ((data.lookup entry.1).or entry.2.value))

/-- An entry of the audited values. -/
structure AuditedValue where
  field : String
  before : Option Shown
  after : Shown
  unit : Option String
  deriving DecidableEq

/-- `withUnit`. -/
def unitOf (field : DataField) : Option String :=
  match field.unitType with
  | .decimal _ unit _ _ => some unit
  | .string _ _ => none

/-- `toCreatedValues`. -/
def DataFields.toCreatedValues (fields : DataFields) (data : FieldValues) : List AuditedValue :=
  (fields.entries.filter (·.2.input)).map fun entry ↦
    ⟨entry.1, none, toEnteredValue digits entry.2 (data.lookup entry.1), unitOf entry.2⟩

/-- `toChangedValues`. -/
def DataFields.toChangedValues (fields : DataFields) (before after : FieldValues) :
    List AuditedValue :=
  ((fields.entries.filter (·.2.input)).filter fun entry ↦
      before.lookup entry.1 ≠ after.lookup entry.1).map fun entry ↦
    ⟨entry.1, some (toEnteredValue digits entry.2 (before.lookup entry.1)),
      toEnteredValue digits entry.2 (after.lookup entry.1), unitOf entry.2⟩

/-- The data that a creation or an update with some submitted values stores. -/
inductive Stores (fields : DataFields) (submitted : FieldValues) : FieldValues → Prop
  | create {resolve : String → FieldValue} {data : FieldValues}
      (h : fields.createdData digits resolve submitted = some data) : Stores fields submitted data
  | update {before data : FieldValues}
      (h : fields.withInputData digits before submitted = some data) : Stores fields submitted data

/-- A stored value is shown as it was entered, and so it is in the audit of the change that stored
it and of the next. -/
structure KeptAsEntered (fields : DataFields) (data : FieldValues) (name : String)
    (field : DataField) (value : ℚ) : Prop where
  shown : (name, .value (.number value)) ∈ fields.claimData digits data
  created : ⟨name, none, .value (.number value), unitOf field⟩ ∈ fields.toCreatedValues digits data
  changedTo : ∀ before, before.lookup name ≠ data.lookup name →
    ⟨name, some (toEnteredValue digits field (before.lookup name)), .value (.number value),
      unitOf field⟩ ∈ fields.toChangedValues digits before data
  changedFrom : ∀ after, data.lookup name ≠ after.lookup name →
    ⟨name, some (.value (.number value)), toEnteredValue digits field (after.lookup name),
      unitOf field⟩ ∈ fields.toChangedValues digits data after

end

/-! ### What is stored -/

section
variable {digits : ℚ → Digits} {fields : DataFields} {submitted data more : FieldValues}
  {name : String} {field : DataField}

theorem lookup_eq_none_of_all {entries : FieldValues} (h : ∀ entry ∈ entries, entry.1 ≠ name) :
    entries.lookup name = none := by
  rw [List.lookup_eq_none_iff]
  exact fun entry hentry ↦ bne_iff_ne.mpr (h entry hentry).symm

theorem mem_of_lookup {entries : FieldValues} {value : FieldValue}
    (h : entries.lookup name = some value) : (name, value) ∈ entries := by
  obtain ⟨l, r, rfl, _⟩ := List.lookup_eq_some_iff.mp h
  exact List.mem_append_right l List.mem_cons_self

theorem lookup_filter {keep : String × FieldValue → Bool} (h : ∀ value, keep (name, value) = true) :
    (data.filter keep).lookup name = data.lookup name := by
  induction data with
  | nil => rfl
  | cons entry data ih =>
    obtain ⟨key, value⟩ := entry
    by_cases heq : name = key
    · rw [← heq, List.filter_cons_of_pos (h value), List.lookup_cons_self, List.lookup_cons_self]
    · have hne : (name == key) = false := beq_eq_false_iff_ne.mpr heq
      rw [List.lookup_cons, hne, ← ih, List.filter_cons]
      split
      · rw [List.lookup_cons, hne]
      · rfl

theorem lookup_spread : (spread data more).lookup name =
    (more.lookup name).or (data.lookup name) := by
  rw [spread, List.lookup_append]
  cases hmore : more.lookup name with
  | none =>
    have hkeep : ∀ value : FieldValue, (more.all (·.1 ≠ (name, value).1)) = true := by
      intro value
      rw [List.lookup_eq_none_iff] at hmore
      refine List.all_eq_true.mpr fun entry hentry ↦ decide_eq_true ?_
      exact (bne_iff_ne.mp (hmore entry hentry)).symm
    rw [lookup_filter hkeep, Option.or_none, Option.none_or]
  | some value =>
    have hdropped : (data.filter fun entry ↦ more.all (·.1 ≠ entry.1)).lookup name = none := by
      apply lookup_eq_none_of_all
      rintro entry hentry rfl
      have hall := (List.mem_filter.mp hentry).2
      have hne := List.all_eq_true.mp hall _ (mem_of_lookup hmore)
      simp at hne
    rw [hdropped, Option.none_or, Option.some_or]

/-- An entry's field is the one of its name. -/
theorem DataFields.eq_of_mem {other : DataField} (h : (name, field) ∈ fields.entries)
    (h' : (name, other) ∈ fields.entries) : field = other :=
  congrArg Prod.snd (List.inj_on_of_nodup_map fields.nodup h h' rfl)

/-- What is stored of a submitted value of an input field is the value. -/
theorem Stores.lookup (h : Stores digits fields submitted data) (hfield : (name, field) ∈
    fields.entries) (hinput : field.input = true) {value : FieldValue}
    (hsubmitted : submitted.lookup name = some value) : data.lookup name = some value := by
  cases h with
  | create h =>
    rename_i resolve
    unfold DataFields.createdData at h
    dsimp only at h
    split at h
    · obtain rfl := Option.some.inj h
      have hfixed : (fields.resolveFixedData resolve).lookup name = none := by
        apply lookup_eq_none_of_all
        intro entry hentry heq
        obtain ⟨⟨fixed, other⟩, hfixed, rfl⟩ := List.mem_map.mp hentry
        obtain ⟨hmem, hnot⟩ := List.mem_filter.mp hfixed
        obtain rfl : fixed = name := heq
        rw [← DataFields.eq_of_mem hfield hmem, hinput] at hnot
        cases hnot
      rw [lookup_spread, hfixed, hsubmitted]
      rfl
    · cases h
  | update h =>
    unfold DataFields.withInputData at h
    split at h
    · obtain rfl := Option.some.inj h
      rw [lookup_spread, hsubmitted]
      rfl
    · cases h

/-- What is stored has been accepted, and fits the schema of an entitlement. -/
theorem Stores.accepted (h : Stores digits fields submitted data) :
    fields.hasValidInputData digits submitted = true ∧ storableData data = true := by
  cases h with
  | create h =>
    unfold DataFields.createdData at h
    dsimp only at h
    split at h
    · next haccepted =>
      obtain rfl := Option.some.inj h
      exact Bool.and_eq_true_iff.mp haccepted
    · cases h
  | update h =>
    unfold DataFields.withInputData at h
    split at h
    · next haccepted =>
      obtain rfl := Option.some.inj h
      exact Bool.and_eq_true_iff.mp haccepted
    · cases h

theorem Stores.matches (h : Stores digits fields submitted data) (hfield : (name, field) ∈
    fields.entries) (hinput : field.input = true) {value : FieldValue}
    (hsubmitted : submitted.lookup name = some value) :
    submittedValueMatches digits field value = true := by
  have hvalid := h.accepted.1
  unfold DataFields.hasValidInputData at hvalid
  dsimp only at hvalid
  rw [Bool.and_eq_true, List.all_eq_true] at hvalid
  have hmatches := hvalid.2 _ (List.mem_filter.mpr ⟨hfield, hinput⟩)
  rwa [hsubmitted, Option.any_some] at hmatches

theorem Stores.storable (h : Stores digits fields submitted data) {value : FieldValue}
    (hlookup : data.lookup name = some value) : value.storable = true := by
  have hall := h.accepted.2
  rw [storableData, Bool.and_eq_true, List.all_eq_true] at hall
  exact hall.2 _ (mem_of_lookup hlookup)

/-! ### What is shown -/

/-- A stored number is shown as entered exactly when its text is read back as it. -/
theorem toEnteredValue_eq_iff {decimalPlaces : ℕ} {unit : String} {minValue maxValue : Option ℚ}
    (hunit : field.unitType = .decimal decimalPlaces unit minValue maxValue) {value : ℚ} :
    toEnteredValue digits field (some (.number value)) = .value (.number value) ↔
      unscaleDecimalAsText digits value decimalPlaces = some value := by
  unfold toEnteredValue
  rw [hunit]
  dsimp only [unscaled]
  cases unscaleDecimalAsText digits value decimalPlaces <;> simp

theorem keptAsEntered_iff (hfield : (name, field) ∈ fields.entries) (hinput : field.input = true)
    {value : ℚ} (hlookup : data.lookup name = some (.number value)) :
    KeptAsEntered digits fields data name field value ↔
      toEnteredValue digits field (some (.number value)) = .value (.number value) := by
  have hentry : (name, field) ∈ fields.entries.filter (·.2.input) :=
    List.mem_filter.mpr ⟨hfield, hinput⟩
  constructor
  · intro h
    obtain ⟨⟨key, other⟩, hmem, heq⟩ := List.mem_map.mp h.shown
    obtain rfl : key = name := (Prod.mk.inj heq).1
    rw [← DataFields.eq_of_mem hfield hmem, hlookup, Option.some_or] at heq
    exact (Prod.mk.inj heq).2
  · intro h
    refine ⟨List.mem_map.mpr ⟨_, hfield, ?_⟩, List.mem_map.mpr ⟨_, hentry, ?_⟩, ?_, ?_⟩
    · rw [hlookup, Option.some_or, h]
    · rw [hlookup, h]
    · intro before hne
      refine List.mem_map.mpr ⟨_, List.mem_filter.mpr ⟨hentry, decide_eq_true hne⟩, ?_⟩
      rw [hlookup, h]
    · intro after hne
      refine List.mem_map.mpr ⟨_, List.mem_filter.mpr ⟨hentry, decide_eq_true hne⟩, ?_⟩
      rw [hlookup, h]

end

/-- A decimal value that is accepted and stored is shown and audited as it was entered exactly when
it is 0 or its field has no decimal places. -/
theorem kept_as_entered_iff {digits : ℚ → Digits} (hdigits : ReadBack digits) {fields : DataFields}
    {name : String} {field : DataField} (hfield : (name, field) ∈ fields.entries)
    (hinput : field.input = true) {decimalPlaces : ℕ} {unit : String}
    {minValue maxValue : Option ℚ}
    (hunit : field.unitType = .decimal decimalPlaces unit minValue maxValue)
    {submitted data : FieldValues} {value : ℚ} (hvalue : IsDouble value)
    (hsubmitted : submitted.lookup name = some (.number value))
    (hstores : Stores digits fields submitted data) :
    KeptAsEntered digits fields data name field value ↔ value = 0 ∨ decimalPlaces = 0 := by
  have hlookup := hstores.lookup hfield hinput hsubmitted
  have hmatches := hstores.matches hfield hinput hsubmitted
  have hstorable := hstores.storable hlookup
  unfold submittedValueMatches at hmatches
  rw [hunit, Bool.and_eq_true, decide_eq_true_eq] at hmatches
  rw [FieldValue.storable, Bool.and_eq_true, decide_eq_true_eq, decide_eq_true_eq, ← abs_le]
    at hstorable
  rw [keptAsEntered_iff hfield hinput hlookup, toEnteredValue_eq_iff hunit,
    unscaleDecimalAsText_eq_iff hdigits hvalue hstorable hmatches.2]

/-- Hectares to some decimal places. -/
def hectareFields (decimalPlaces : ℕ) : DataFields where
  entries := [("totalHectares", ⟨true, .decimal decimalPlaces "HA" (some 0) none, none⟩)]
  nodup := List.nodup_singleton _

/-- Twelve hectares, of a field without decimal places. -/
theorem kept_as_entered_whole :
    (hectareFields 0).createdData exactDigits (fun _ ↦ .text "") [("totalHectares", .number 12)] =
      some [("totalHectares", .number 12)] ∧
    KeptAsEntered exactDigits (hectareFields 0) [("totalHectares", .number 12)] "totalHectares"
      ⟨true, .decimal 0 "HA" (some 0) none, none⟩ 12 := by
  have hstored : (hectareFields 0).createdData exactDigits (fun _ ↦ .text "")
      [("totalHectares", .number 12)] = some [("totalHectares", .number 12)] := by decide +kernel
  have hdouble : IsDouble 12 := ⟨12, 0, by norm_num, by norm_num, by norm_num, by norm_num⟩
  exact ⟨hstored, (kept_as_entered_iff readBack_exactDigits List.mem_cons_self rfl rfl hdouble rfl
    (.create hstored)).mpr (.inr rfl)⟩

/-- Twelve and a half hectares, of a field with four decimal places, are shown as no number. -/
theorem entered_lost :
    (hectareFields 4).createdData exactDigits (fun _ ↦ .text "")
      [("totalHectares", .number (25 / 2))] = some [("totalHectares", .number (25 / 2))] ∧
    (hectareFields 4).claimData exactDigits [("totalHectares", .number (25 / 2))] =
      [("totalHectares", .notFinite)] ∧
    ¬ KeptAsEntered exactDigits (hectareFields 4) [("totalHectares", .number (25 / 2))]
      "totalHectares" ⟨true, .decimal 4 "HA" (some 0) none, none⟩ (25 / 2) := by
  have hshown : (hectareFields 4).claimData exactDigits [("totalHectares", .number (25 / 2))] =
      [("totalHectares", .notFinite)] := by decide +kernel
  refine ⟨by decide +kernel, hshown, fun hkept ↦ ?_⟩
  have hmem := hkept.shown
  rw [hshown, List.mem_singleton] at hmem
  cases hmem

end FgGas.Grants
