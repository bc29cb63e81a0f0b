import FgGas.Agreements.Definition

/-!
# Loading an agreement definition

`loadAgreementDefinition` (`src/agreements/use-cases/load-agreement-definition.js`) with the
statuses it records in the catalogue, which decide what the next lookup returns. The catalogue
has no other writer, and the process has compiled no definition yet: one that is compiled is
returned. Beside its status, what a failed load records of a file (the error, the times and the
count of attempts) is left out.
-/

namespace FgGas.Agreements.Recorded

open Machine

variable {A P O : Type}

/-- What a load meets outside the catalogue: the definitions stored, the files in S3, and the
database, which fails with errors of its own. -/
structure LoadWorld (A P O : Type) where
  findStoredDefinition : DefinitionTarget → Except String (Option (RawDefinition A P O))
  fetchConfigFile : DefinitionTarget → Except LoadFailure (RawDefinition A P O)
  insertAgreementDefinition : DefinitionTarget → Except String Unit
  updateOne : DefinitionTarget → FetchStatus → Except String Unit

/-- The key of a version. -/
def keyOf (v : ConfigVersion) : String × String := (v.grantCode, v.version)

/-- The key of a target. -/
def keyOfTarget (target : DefinitionTarget) : String × String :=
  (target.grantCode, target.version)

/-- A version with another status of its file. -/
def withStatus (status : FetchStatus) (v : ConfigVersion) : ConfigVersion :=
  { v with definition := v.definition.map fun file ↦ { file with fetchStatus := status } }

/-- `updateDefinitionFetchStatus`. The key of a version is unique. -/
def updateDefinitionFetchStatus (catalogue : List ConfigVersion) (target : DefinitionTarget)
    (status : FetchStatus) : List ConfigVersion :=
  catalogue.map fun v ↦ if keyOf v = keyOfTarget target then withStatus status v else v

/-- `updateStatus`. -/
def updateStatus (world : LoadWorld A P O) (catalogue : List ConfigVersion)
    (target : DefinitionTarget) (status : FetchStatus) :
    Except LoadFailure (List ConfigVersion) := do
  (world.updateOne target status).mapError LoadFailure.other
  pure (updateDefinitionFetchStatus catalogue target status)

/-- `classifyFailure`, for whether the status is recorded. -/
def record : LoadFailure → Bool
  | .endpointServiceUrl _ => false
  | _ => true

/-- The definition as its producer wrote it, from the store or else from S3. -/
def rawDefinition (world : LoadWorld A P O) (target : DefinitionTarget) :
    Option (RawDefinition A P O) → Except LoadFailure (RawDefinition A P O)
  | some stored => .ok stored
  | none => world.fetchConfigFile target

/-- The definition is stored, unless it is already. -/
def storeDefinition (world : LoadWorld A P O) (target : DefinitionTarget) :
    Option (RawDefinition A P O) → Except LoadFailure Unit
  | some _ => .ok ()
  | none => (world.insertAgreementDefinition target).mapError LoadFailure.other

/-- What `compileAndCache` compiles and stores. -/
def compileAndStore (world : LoadWorld A P O) (target : DefinitionTarget)
    (stored : Option (RawDefinition A P O)) : Except LoadFailure (CompiledDefinition A P O) := do
  let raw ← rawDefinition world target stored
  match h : compileAgreementDefinition raw target.grantCode target.version with
  | .error failure => throw failure
  | .ok definition =>
    storeDefinition world target stored
    pure ⟨target.grantCode, target.version, definition, exists_compiled h⟩

/-- `compileAndCache`. -/
def compileAndCache (world : LoadWorld A P O) (catalogue : List ConfigVersion)
    (target : DefinitionTarget) (stored : Option (RawDefinition A P O)) :
    Except LoadFailure (List ConfigVersion × CompiledDefinition A P O) := do
  let compiled ← compileAndStore world target stored
  if target.fetchStatus = .fetched then pure (catalogue, compiled)
  else
    let loaded ← updateStatus world catalogue target .fetched
    pure (loaded, compiled)

/-- What a load that failed records and throws. -/
def recordFailure (world : LoadWorld A P O) (catalogue : List ConfigVersion)
    (target : DefinitionTarget) (failure : LoadFailure) :
    List ConfigVersion × Except LoadFailure (CompiledDefinition A P O) :=
  if record failure then
    match updateStatus world catalogue target failure.status with
    | .ok recorded => (recorded, .error failure)
    | .error broken => (catalogue, .error broken)
  else (catalogue, .error failure)

/-- `load`. -/
def load (world : LoadWorld A P O) (catalogue : List ConfigVersion) (target : DefinitionTarget) :
    List ConfigVersion × Except LoadFailure (CompiledDefinition A P O) :=
  if target.fetchStatus = .permanentError then
    (catalogue, .error (unavailable target.grantCode target.version))
  else
    match world.findStoredDefinition target with
    | .error text => (catalogue, .error (.other text))
    | .ok stored =>
      match compileAndCache world catalogue target stored with
      | .ok (loaded, c) => (loaded, .ok c)
      | .error failure => recordFailure world catalogue target failure

/-- `loadAgreementDefinition`, for as many attempts as there is fuel, with the keys attempted so
far. -/
def loadAgreementDefinition (world : LoadWorld A P O) (o : LoadOptions) :
    Nat → List (String × String) → List ConfigVersion →
    Option (List ConfigVersion × Except LoadFailure (CompiledDefinition A P O))
  | 0, _, _ => none
  | fuel + 1, attempted, catalogue =>
    match resolveTarget catalogue o with
    | .error failure => some (catalogue, .error failure)
    | .ok target =>
      if attempted.contains (keyOfTarget target) then
        some (catalogue, .error (unavailable o.code o.configVersion))
      else
        match load world catalogue target with
        | (loaded, .ok c) => some (loaded, .ok c)
        | (recorded, .error failure) =>
          if o.resolution.canFallBack && failure.status = .permanentError then
            loadAgreementDefinition world o fuel (keyOfTarget target :: attempted) recorded
          else some (recorded, .error failure)

/-! ### What a load comes to -/

/-- What loading a version comes to, whatever the rest of the catalogue. -/
def outcome (world : LoadWorld A P O) (target : DefinitionTarget) :
    Except LoadFailure (CompiledDefinition A P O) :=
  (load world [] target).2

section
variable {world : LoadWorld A P O} {catalogue loaded : List ConfigVersion}
  {target : DefinitionTarget} {failure : LoadFailure} {c : CompiledDefinition A P O}

theorem updateStatus_eq (status : FetchStatus) :
    updateStatus world catalogue target status =
      match world.updateOne target status with
      | .ok _ => .ok (updateDefinitionFetchStatus catalogue target status)
      | .error text => .error (.other text) := by
  unfold updateStatus
  cases world.updateOne target status <;> rfl

theorem compileAndCache_eq (stored : Option (RawDefinition A P O)) :
    compileAndCache world catalogue target stored =
      match compileAndStore world target stored with
      | .error failure => .error failure
      | .ok c =>
        if target.fetchStatus = .fetched then .ok (catalogue, c)
        else match world.updateOne target .fetched with
          | .ok _ => .ok (updateDefinitionFetchStatus catalogue target .fetched, c)
          | .error text => .error (.other text) := by
  unfold compileAndCache
  cases compileAndStore world target stored with
  | error failure => rfl
  | ok c =>
    by_cases hfetched : target.fetchStatus = .fetched
    · simp [hfetched, bind, Except.bind, pure, Except.pure]
    · simp only [hfetched, if_false, bind, Except.bind, updateStatus_eq]
      cases world.updateOne target .fetched <;> rfl

/-- What comes of a load in a catalogue: the outcome that needs no catalogue, with one status
written at most; a permanent failure is recorded as such. -/
structure Loads (catalogue : List ConfigVersion) (target : DefinitionTarget)
    (result : Except LoadFailure (CompiledDefinition A P O))
    (x : List ConfigVersion × Except LoadFailure (CompiledDefinition A P O)) : Prop where
  outcome : x.2 = result
  writes : x.1 = catalogue ∨ ∃ status, x.1 = updateDefinitionFetchStatus catalogue target status
  permanent : ∀ failure, x.2 = .error failure → failure.status = .permanentError →
    x.1 = updateDefinitionFetchStatus catalogue target .permanentError

/-- A failure is recorded as what it is. -/
theorem recordFailure_loads (failure : LoadFailure) :
    Loads catalogue target (recordFailure world [] target failure).2
      (recordFailure world catalogue target failure : _ × Except _ (CompiledDefinition A P O)) := by
  unfold recordFailure
  cases hrecord : record failure with
  | false =>
    refine ⟨rfl, .inl rfl, fun e he hpermanent ↦ ?_⟩
    obtain rfl := Except.error.inj he
    cases failure with
    | endpointServiceUrl text => cases hpermanent
    | boom text => cases hrecord
    | s3Fetch isPermanent isParseError text => cases hrecord
    | other text => cases hrecord
  | true =>
    simp only [if_true, updateStatus_eq]
    cases world.updateOne target failure.status with
    | ok _ =>
      refine ⟨rfl, .inr ⟨_, rfl⟩, fun e he hpermanent ↦ ?_⟩
      obtain rfl := Except.error.inj he
      simp only [hpermanent]
    | error text =>
      refine ⟨rfl, .inl rfl, fun e he hpermanent ↦ ?_⟩
      obtain rfl := Except.error.inj he
      cases hpermanent

/-- What comes of a load of a version that is not known to fail. -/
theorem load_loads (hstatus : target.fetchStatus ≠ .permanentError) :
    Loads catalogue target (outcome world target) (load world catalogue target) := by
  unfold outcome load
  simp only [if_neg hstatus]
  cases world.findStoredDefinition target with
  | error text =>
    refine ⟨rfl, .inl rfl, fun e he hpermanent ↦ ?_⟩
    obtain rfl := Except.error.inj he
    cases hpermanent
  | ok stored =>
    simp only [compileAndCache_eq]
    cases compileAndStore world target stored with
    | error failure => exact recordFailure_loads failure
    | ok c =>
      by_cases hfetched : target.fetchStatus = .fetched
      · simp only [if_pos hfetched]
        exact ⟨rfl, .inl rfl, fun e he ↦ nomatch he⟩
      · simp only [if_neg hfetched]
        cases world.updateOne target .fetched with
        | ok _ => exact ⟨rfl, .inr ⟨_, rfl⟩, fun e he ↦ nomatch he⟩
        | error text => exact recordFailure_loads _

end

/-! ### Candidates -/

/-- A version a load may try: for `exact` and, first of all, for `creation` the version itself,
and for `creation` and `same-major` the usable versions of its major, up to it for `creation`. -/
def Candidate (catalogue : List ConfigVersion) (o : LoadOptions) (v : ConfigVersion) : Prop :=
  v ∈ catalogue ∧ v.grantCode = o.code ∧
    match o.resolution with
    | .exact => v.version = o.configVersion ∧
        v.definition.any (·.fetchStatus ≠ .permanentError) = true
    | .creation => v.active = true ∧ v.version = o.configVersion ∧
        v.definition.any (·.fetchStatus ≠ .permanentError) = true ∨
      v.usable = true ∧ ∃ parsed, parseSemver o.configVersion = some parsed ∧
        v.major = parsed.1 ∧ toLex (v.minor, v.patch) ≤ toLex parsed.2
    | .sameMajor => v.usable = true ∧
        ∃ parsed, parseSemver o.configVersion = some parsed ∧ v.major = parsed.1

/-- A candidate that is tried before another: the version itself for `creation`, and else the
greater version. -/
def Before (o : LoadOptions) (w v : ConfigVersion) : Prop :=
  match o.resolution with
  | .exact => False
  | .creation => v.version ≠ o.configVersion ∧
      (w.version = o.configVersion ∨ toLex (v.minor, v.patch) < toLex (w.minor, w.patch))
  | .sameMajor => toLex (v.minor, v.patch) < toLex (w.minor, w.patch)

/-- A catalogue: one entry a version, with the numbers of the version. -/
structure WellFormed (catalogue : List ConfigVersion) : Prop where
  keys : (catalogue.map keyOf).Nodup
  semver : ∀ v ∈ catalogue, parseSemver v.version = some (v.major, v.minor, v.patch)

/-- The catalogue after some versions have been recorded as unusable. -/
def marked (attempted : List (String × String)) (catalogue : List ConfigVersion) :
    List ConfigVersion :=
  catalogue.map fun v ↦
    if attempted.contains (keyOf v) then withStatus .permanentError v else v

section
variable {catalogue : List ConfigVersion} {attempted : List (String × String)}
  {v w : ConfigVersion} {o : LoadOptions} {target : DefinitionTarget} {failure : LoadFailure}

@[simp] theorem keyOf_withStatus (status : FetchStatus) :
    keyOf (withStatus status v) = keyOf v := rfl

theorem marked_eq : marked attempted catalogue =
    catalogue.map fun v ↦ if keyOf v ∈ attempted then withStatus .permanentError v else v := by
  simp only [marked, List.contains_iff_mem]

theorem mem_marked : v ∈ marked attempted catalogue ↔ ∃ u ∈ catalogue,
    (if keyOf u ∈ attempted then withStatus .permanentError u else u) = v := by
  rw [marked_eq, List.mem_map]

theorem marked_nil : marked [] catalogue = catalogue := by
  simp [marked]

/-- Recording a version of the catalogue as unusable marks it. -/
theorem updateDefinitionFetchStatus_marked :
    updateDefinitionFetchStatus (marked attempted catalogue) target .permanentError =
      marked (keyOfTarget target :: attempted) catalogue := by
  rw [updateDefinitionFetchStatus, marked_eq, marked_eq, List.map_map]
  refine List.map_congr_left fun v _ ↦ ?_
  by_cases hmem : keyOf v ∈ attempted
  · have htwice : withStatus .permanentError (withStatus .permanentError v) =
        withStatus .permanentError v := by
      simp [withStatus, Function.comp_def]
    by_cases hkey : keyOf v = keyOfTarget target
    · simp only [Function.comp_apply, if_pos hmem, keyOf_withStatus, if_pos hkey, htwice,
        if_pos (List.mem_cons_of_mem _ hmem)]
    · simp only [Function.comp_apply, if_pos hmem, keyOf_withStatus, if_neg hkey,
        if_pos (List.mem_cons_of_mem _ hmem)]
  · by_cases hkey : keyOf v = keyOfTarget target
    · rw [Function.comp_apply, if_neg hmem, if_pos hkey, if_pos (hkey ▸ List.mem_cons_self)]
    · rw [Function.comp_apply, if_neg hmem, if_neg hkey,
        if_neg (by simp only [List.mem_cons, hkey, hmem, or_self, not_false_eq_true])]

/-- A version that has been marked is not usable. -/
theorem usable_of_mem_marked (h : v ∈ marked attempted catalogue) (husable : v.usable = true) :
    v ∈ catalogue ∧ keyOf v ∉ attempted := by
  obtain ⟨u, hu, rfl⟩ := mem_marked.mp h
  by_cases hmem : keyOf u ∈ attempted
  · rw [if_pos hmem] at husable
    cases hdefinition : u.definition <;>
      simp [ConfigVersion.usable, withStatus, hdefinition] at husable
  · rw [if_neg hmem]
    exact ⟨hu, hmem⟩

theorem mem_marked_of_not_mem (h : v ∈ catalogue) (hkey : keyOf v ∉ attempted) :
    v ∈ marked attempted catalogue :=
  mem_marked.mpr ⟨v, h, if_neg hkey⟩

/-- The entry of a version, of which there is one, in a catalogue that has been marked. -/
theorem findConfigDefinition_marked (hkeys : (catalogue.map keyOf).Nodup) (hv : v ∈ catalogue) :
    findConfigDefinition (marked attempted catalogue) v.grantCode v.version =
      (if keyOf v ∈ attempted then withStatus .permanentError v else v).toDefinition := by
  have hunique : ∀ u ∈ marked attempted catalogue, keyOf u = keyOf v →
      u = if keyOf v ∈ attempted then withStatus .permanentError v else v := by
    intro u hu heq
    obtain ⟨x, hx, rfl⟩ := mem_marked.mp hu
    have hkey : keyOf x = keyOf v := by
      by_cases hin : keyOf x ∈ attempted
      · rwa [if_pos hin] at heq
      · rwa [if_neg hin] at heq
    rw [List.inj_on_of_nodup_map hkeys hx hv hkey]
  rw [findConfigDefinition]
  cases hfind : (marked attempted catalogue).find? fun u ↦
      u.grantCode = v.grantCode ∧ u.version = v.version with
  | none =>
    have hmem := List.mem_map_of_mem (f := fun u ↦
      if keyOf u ∈ attempted then withStatus .permanentError u else u) hv
    rw [marked_eq] at hfind
    have hnone := List.find?_eq_none.mp hfind _ hmem
    split_ifs at hnone <;> simp [withStatus] at hnone
  | some u =>
    have hfound : u.grantCode = v.grantCode ∧ u.version = v.version := by
      simpa using List.find?_some hfind
    rw [← hunique u (List.mem_of_find?_eq_some hfind) (Prod.ext hfound.1 hfound.2)]
    rfl

/-- What the entry of a version says in a catalogue that has been marked. -/
theorem of_findConfigDefinition_marked {code version : String}
    (h : findConfigDefinition (marked attempted catalogue) code version = some target) :
    ∃ v ∈ catalogue, v.grantCode = code ∧ v.version = version ∧ target.active = v.active ∧
      (keyOf v ∈ attempted ∧ target.fetchStatus = .permanentError ∨
        keyOf v ∉ attempted ∧ v.toDefinition = some target) := by
  obtain ⟨u, hfind, hdefinition⟩ := Option.bind_eq_some_iff.mp h
  have hkey : u.grantCode = code ∧ u.version = version := by
    simpa using List.find?_some hfind
  obtain ⟨v, hv, rfl⟩ := mem_marked.mp (List.mem_of_find?_eq_some hfind)
  obtain ⟨file, hfile, rfl⟩ := Option.map_eq_some_iff.mp hdefinition
  by_cases hin : keyOf v ∈ attempted
  · rw [if_pos hin] at hkey hfile
    obtain ⟨before, _, rfl⟩ := Option.map_eq_some_iff.mp hfile
    refine ⟨v, hv, hkey.1, hkey.2, ?_, .inl ⟨hin, rfl⟩⟩
    rw [if_pos hin]
    rfl
  · rw [if_neg hin] at hkey
    rw [if_neg hin] at hdefinition ⊢
    exact ⟨v, hv, hkey.1, hkey.2, rfl, .inr ⟨hin, hdefinition⟩⟩

/-- What is known of a version that is usable. -/
theorem definition_of_usable (husable : v.usable = true) :
    v.active = true ∧ v.definition.any (·.fetchStatus ≠ .permanentError) = true := by
  obtain ⟨hactive, hfile⟩ := Bool.and_eq_true_iff.mp husable
  obtain ⟨file, hdefinition, hgood⟩ := (Option.any_eq_true _ _).mp hfile
  exact ⟨hactive, (Option.any_eq_true _ _).mpr
    ⟨file, hdefinition, (Bool.and_eq_true_iff.mp hgood).2⟩⟩

/-- What is made of a version with a file that is not known to fail. -/
theorem exists_toDefinition (hfile : v.definition.any (·.fetchStatus ≠ .permanentError) = true) :
    ∃ target, v.toDefinition = some target ∧ target.fetchStatus ≠ .permanentError := by
  obtain ⟨file, hdefinition, hstatus⟩ := (Option.any_eq_true _ _).mp hfile
  refine ⟨⟨v.grantCode, v.version, v.active, file.fetchStatus, file.s3Key⟩, ?_,
    of_decide_eq_true hstatus⟩
  rw [ConfigVersion.toDefinition, hdefinition, Option.map_some]

/-- A version is selected by the query of a major, up to a minor and a patch version if they
are given. -/
structure Selected (code : String) (major : Nat) (bound : Option (Nat × Nat))
    (v : ConfigVersion) : Prop where
  grantCode : v.grantCode = code
  usable : v.usable = true
  major : v.major = major
  bound : ∀ b ∈ bound, toLex (v.minor, v.patch) ≤ toLex b

/-- The filter of `findLatestUsableDefinition`. -/
theorem selected_iff {code : String} {major : Nat} {bound : Option (Nat × Nat)} :
    (v.grantCode = code && v.major = major && v.usable &&
      bound.all fun b ↦ v.minor < b.1 || v.minor = b.1 && v.patch ≤ b.2) = true ↔
    Selected code major bound v := by
  simp only [Bool.and_eq_true, decide_eq_true_eq, Option.all_eq_true, Bool.or_eq_true]
  constructor
  · rintro ⟨⟨⟨hcode, hmajor⟩, husable⟩, hbound⟩
    exact ⟨hcode, husable, hmajor, fun b hb ↦ Prod.Lex.toLex_le_toLex.mpr (hbound b hb)⟩
  · intro h
    exact ⟨⟨⟨h.grantCode, h.major⟩, h.usable⟩,
      fun b hb ↦ Prod.Lex.toLex_le_toLex.mp (h.bound b hb)⟩

/-- The latest usable version that has not been marked. -/
theorem findLatestUsableDefinition_marked {code : String} {major : Nat}
    {bound : Option (Nat × Nat)} :
    match findLatestUsableDefinition (marked attempted catalogue) code major bound with
    | some target => ∃ v ∈ catalogue, keyOf v ∉ attempted ∧ v.toDefinition = some target ∧
        target.fetchStatus ≠ .permanentError ∧ Selected code major bound v ∧
        ∀ w ∈ catalogue, keyOf w ∉ attempted → Selected code major bound w →
          toLex (w.minor, w.patch) ≤ toLex (v.minor, v.patch)
    | none => ∀ w ∈ catalogue, Selected code major bound w → keyOf w ∈ attempted := by
  rw [findLatestUsableDefinition]
  generalize hlist : (marked attempted catalogue).filter _ = list
  have hmem : ∀ v, v ∈ list ↔ v ∈ marked attempted catalogue ∧ Selected code major bound v := by
    intro v
    rw [← hlist, List.mem_filter, selected_iff]
  cases hmax : list.argmax fun v ↦ toLex (v.minor, v.patch) with
  | none =>
    intro w hw hselected
    by_contra hnot
    have hin := (hmem w).mpr ⟨mem_marked_of_not_mem hw hnot, hselected⟩
    rw [List.argmax_eq_none.mp hmax] at hin
    cases hin
  | some v =>
    obtain ⟨hin, hselected⟩ := (hmem v).mp (List.argmax_mem hmax)
    obtain ⟨hv, hnot⟩ := usable_of_mem_marked hin hselected.usable
    obtain ⟨target, htarget, hstatus⟩ :=
      exists_toDefinition (definition_of_usable hselected.usable).2
    rw [Option.bind_some, htarget]
    refine ⟨v, hv, hnot, htarget, hstatus, hselected, fun w hw hfree hselected ↦ ?_⟩
    have hlisted := (hmem w).mpr ⟨mem_marked_of_not_mem hw hfree, hselected⟩
    exact List.le_of_mem_argmax (f := fun v ↦ toLex (v.minor, v.patch)) hlisted hmax

/-- A version with a file that is not found as it is has been marked. -/
theorem mem_attempted_of_find (hwf : WellFormed catalogue) (hw : w ∈ catalogue)
    (hfile : w.definition.any (·.fetchStatus ≠ .permanentError) = true)
    (hfind : ∀ target, findConfigDefinition (marked attempted catalogue) w.grantCode w.version =
      some target → target.active = w.active → target.fetchStatus = .permanentError) :
    keyOf w ∈ attempted := by
  by_contra hnot
  obtain ⟨target, htarget, hstatus⟩ := exists_toDefinition hfile
  obtain ⟨file, _, rfl⟩ := Option.map_eq_some_iff.mp htarget
  have hentry := @findConfigDefinition_marked catalogue attempted w hwf.keys hw
  rw [if_neg hnot, htarget] at hentry
  exact hstatus (hfind _ hentry rfl)

/-- A version that is found with another status than `PermanentError` has not been marked. -/
theorem exists_of_find {code version : String}
    (hfind : findConfigDefinition (marked attempted catalogue) code version = some target)
    (hstatus : target.fetchStatus ≠ .permanentError) :
    ∃ v ∈ catalogue, v.grantCode = code ∧ v.version = version ∧ target.active = v.active ∧
      v.definition.any (·.fetchStatus ≠ .permanentError) = true ∧
      keyOf v ∉ attempted ∧ v.toDefinition = some target := by
  obtain ⟨v, hv, hcode, hversion, hactive, hmarked⟩ := of_findConfigDefinition_marked hfind
  rcases hmarked with ⟨_, hpermanent⟩ | ⟨hnot, hdefinition⟩
  · exact absurd hpermanent hstatus
  · obtain ⟨file, hfile, rfl⟩ := Option.map_eq_some_iff.mp hdefinition
    refine ⟨v, hv, hcode, hversion, hactive, ?_, hnot, hdefinition⟩
    rw [hfile]
    exact decide_eq_true hstatus

/-- What is resolved once some versions have been marked: the first candidate that has not. -/
def Resolves (catalogue : List ConfigVersion) (o : LoadOptions)
    (attempted : List (String × String)) : Except LoadFailure DefinitionTarget → Prop
  | .error failure => (∃ code version, failure = unavailable code version) ∧
      ∀ w, Candidate catalogue o w → keyOf w ∈ attempted
  | .ok target =>
      (∃ v, Candidate catalogue o v ∧ keyOf v ∉ attempted ∧ v.toDefinition = some target ∧
        target.fetchStatus ≠ .permanentError ∧
        ∀ w, Candidate catalogue o w → Before o w v → keyOf w ∈ attempted) ∨
      o.resolution = .exact ∧ target.fetchStatus = .permanentError ∧
        ∀ w, Candidate catalogue o w → keyOf w ∈ attempted

/-- `exact` resolves to the version itself. -/
theorem resolveTarget_exact (hwf : WellFormed catalogue) (hresolution : o.resolution = .exact) :
    Resolves catalogue o attempted (resolveTarget (marked attempted catalogue) o) := by
  have hresolve : resolveTarget (marked attempted catalogue) o =
      match findConfigDefinition (marked attempted catalogue) o.code o.configVersion with
      | some target => .ok target
      | none => .error (unavailable o.code o.configVersion) := by
    simp only [resolveTarget, findTarget, hresolution, resolveExact, bind, Except.bind]
    cases findConfigDefinition (marked attempted catalogue) o.code o.configVersion <;> rfl
  rw [hresolve]
  cases hfind : findConfigDefinition (marked attempted catalogue) o.code o.configVersion with
  | none =>
    refine ⟨⟨_, _, rfl⟩, fun w hw ↦ ?_⟩
    obtain ⟨hmem, hcode, hrest⟩ := hw
    rw [hresolution] at hrest
    refine mem_attempted_of_find hwf hmem hrest.2 fun target htarget ↦ ?_
    rw [hcode, hrest.1, hfind] at htarget
    cases htarget
  | some target =>
    by_cases hstatus : target.fetchStatus = .permanentError
    · refine .inr ⟨hresolution, hstatus, fun w hw ↦ ?_⟩
      obtain ⟨hmem, hcode, hrest⟩ := hw
      rw [hresolution] at hrest
      refine mem_attempted_of_find hwf hmem hrest.2 fun found htarget _ ↦ ?_
      rw [hcode, hrest.1, hfind] at htarget
      rwa [← Option.some.inj htarget]
    · obtain ⟨v, hv, hcode, hversion, _, hfile, hnot, hdefinition⟩ :=
        exists_of_find hfind hstatus
      refine .inl ⟨v, ⟨hv, hcode, ?_⟩, hnot, hdefinition, hstatus, fun w _ hbefore ↦ ?_⟩
      · rw [hresolution]
        exact ⟨hversion, hfile⟩
      · rw [Before, hresolution] at hbefore
        cases hbefore

/-- `same-major` resolves to the latest version of the major. -/
theorem resolveTarget_sameMajor (hresolution : o.resolution = .sameMajor) :
    Resolves catalogue o attempted (resolveTarget (marked attempted catalogue) o) := by
  cases hparse : parseSemver o.configVersion with
  | none =>
    have hresolve : resolveTarget (marked attempted catalogue) o =
        .error (unavailable "unknown" o.configVersion) := by
      simp [resolveTarget, findTarget, hresolution, resolveSameMajor, parseVersion, hparse, bind,
        Except.bind]
    rw [hresolve]
    refine ⟨⟨_, _, rfl⟩, fun w hw ↦ ?_⟩
    obtain ⟨_, _, hrest⟩ := hw
    rw [hresolution, hparse] at hrest
    obtain ⟨_, _, hsome, _⟩ := hrest
    cases hsome
  | some parsed =>
    have hresolve : resolveTarget (marked attempted catalogue) o =
        match findLatestUsableDefinition (marked attempted catalogue) o.code parsed.1 none with
        | some target => .ok target
        | none => .error (unavailable o.code o.configVersion) := by
      simp only [resolveTarget, findTarget, hresolution, resolveSameMajor, parseVersion, hparse,
        Option.elim, bind, Except.bind, pure, Except.pure]
      cases findLatestUsableDefinition (marked attempted catalogue) o.code parsed.1 none <;> rfl
    have hselected : ∀ w, Candidate catalogue o w → w ∈ catalogue ∧
        Selected o.code parsed.1 none w := by
      rintro w ⟨hmem, hcode, hrest⟩
      rw [hresolution, hparse] at hrest
      obtain ⟨husable, _, hsome, hmajor⟩ := hrest
      obtain rfl := Option.some.inj hsome
      exact ⟨hmem, hcode, husable, hmajor, fun b hb ↦ by cases hb⟩
    have hlatest := @findLatestUsableDefinition_marked catalogue attempted o.code parsed.1 none
    rw [hresolve]
    cases hfind : findLatestUsableDefinition (marked attempted catalogue) o.code parsed.1 none with
    | none =>
      rw [hfind] at hlatest
      exact ⟨⟨_, _, rfl⟩, fun w hw ↦ hlatest w (hselected w hw).1 (hselected w hw).2⟩
    | some target =>
      rw [hfind] at hlatest
      obtain ⟨v, hv, hnot, htarget, hstatus, hchosen, hgreatest⟩ := hlatest
      have hcandidate : Candidate catalogue o v := by
        refine ⟨hv, hchosen.grantCode, ?_⟩
        rw [hresolution]
        exact ⟨hchosen.usable, parsed, hparse, hchosen.major⟩
      refine .inl ⟨v, hcandidate, hnot, htarget, hstatus, fun w hw hbefore ↦ ?_⟩
      by_contra hfree
      rw [Before, hresolution] at hbefore
      exact absurd hbefore (hgreatest w (hselected w hw).1 hfree (hselected w hw).2).not_gt

/-- The version `creation` looks for first. -/
def findExact (catalogue : List ConfigVersion) (o : LoadOptions) : Option DefinitionTarget :=
  (findConfigDefinition catalogue o.code o.configVersion).filter fun target ↦
    target.active && target.fetchStatus ≠ .permanentError

/-- A version `creation` looks for first and does not find has been marked. -/
theorem mem_attempted_of_findExact (hwf : WellFormed catalogue)
    (hexact : findExact (marked attempted catalogue) o = none) (hw : w ∈ catalogue)
    (hcode : w.grantCode = o.code) (hactive : w.active = true)
    (hversion : w.version = o.configVersion)
    (hfile : w.definition.any (·.fetchStatus ≠ .permanentError) = true) :
    keyOf w ∈ attempted := by
  refine mem_attempted_of_find hwf hw hfile fun target hfind hsame ↦ ?_
  rw [hcode, hversion] at hfind
  have hbad := Option.filter_eq_none_iff.mp hexact target hfind
  rw [hsame, hactive, Bool.true_and] at hbad
  simpa using hbad

/-- Without the version itself, a candidate of `creation` is selected by the query. -/
theorem Candidate.selected (hwf : WellFormed catalogue) (hresolution : o.resolution = .creation)
    {parsed : Nat × Nat × Nat} (hparse : parseSemver o.configVersion = some parsed)
    (hexact : findExact (marked attempted catalogue) o = none) (hw : Candidate catalogue o w)
    (hfree : keyOf w ∉ attempted) :
    w ∈ catalogue ∧ Selected o.code parsed.1 (some parsed.2) w := by
  obtain ⟨hmem, hcode, hrest⟩ := hw
  rw [hresolution] at hrest
  rcases hrest with ⟨hactive, hversion, hfile⟩ | ⟨husable, _, hsome, hmajor, hbound⟩
  · exact absurd (mem_attempted_of_findExact hwf hexact hmem hcode hactive hversion hfile) hfree
  · obtain rfl := Option.some.inj (hparse.symm.trans hsome)
    exact ⟨hmem, hcode, husable, hmajor, fun b hb ↦ Option.some.inj hb ▸ hbound⟩

/-- `creation` resolves to the version itself if it can be tried, and else to the latest version
of the major up to it. -/
theorem resolveTarget_creation_eq {parsed : Nat × Nat × Nat}
    (hresolution : o.resolution = .creation)
    (hparse : parseSemver o.configVersion = some parsed) :
    resolveTarget catalogue o =
      match findExact catalogue o with
      | some target => .ok target
      | none =>
        match findLatestUsableDefinition catalogue o.code parsed.1 (some parsed.2) with
        | some target => .ok target
        | none => .error (unavailable o.code o.configVersion) := by
  simp only [resolveTarget, findTarget, hresolution, resolveCreation, parseVersion, hparse,
    Option.elim, bind, Except.bind, pure, Except.pure, findExact]
  cases (findConfigDefinition catalogue o.code o.configVersion).filter _ with
  | some target => rfl
  | none =>
    cases findLatestUsableDefinition catalogue o.code parsed.1 (some parsed.2) <;> rfl

/-- What `creation` resolves to when it finds the version itself. -/
theorem resolves_findExact (hresolution : o.resolution = .creation)
    (hexact : findExact (marked attempted catalogue) o = some target) :
    Resolves catalogue o attempted (.ok target) := by
  obtain ⟨hfind, hgood⟩ := Option.filter_eq_some_iff.mp hexact
  obtain ⟨hactive, hstatus⟩ := Bool.and_eq_true_iff.mp hgood
  obtain ⟨v, hv, hcode, hversion, hsame, hfile, hnot, hdefinition⟩ :=
    exists_of_find hfind (of_decide_eq_true hstatus)
  refine .inl ⟨v, ⟨hv, hcode, ?_⟩, hnot, hdefinition, of_decide_eq_true hstatus,
    fun w _ hbefore ↦ ?_⟩
  · rw [hresolution]
    exact .inl ⟨hsame ▸ hactive, hversion, hfile⟩
  · rw [Before, hresolution] at hbefore
    exact absurd hversion hbefore.1

/-- What `creation` resolves to. -/
theorem resolveTarget_creation (hwf : WellFormed catalogue)
    (hresolution : o.resolution = .creation) :
    Resolves catalogue o attempted (resolveTarget (marked attempted catalogue) o) := by
  cases hparse : parseSemver o.configVersion with
  | none =>
    have hresolve : resolveTarget (marked attempted catalogue) o =
        .error (unavailable "unknown" o.configVersion) := by
      simp [resolveTarget, findTarget, hresolution, resolveCreation, parseVersion, hparse, bind,
        Except.bind]
    rw [hresolve]
    refine ⟨⟨_, _, rfl⟩, fun w hw ↦ ?_⟩
    obtain ⟨hmem, _, hrest⟩ := hw
    rw [hresolution] at hrest
    rcases hrest with ⟨_, hversion, _⟩ | ⟨_, parsed, hsome, _⟩
    · have hsemver := hwf.semver w hmem
      rw [hversion, hparse] at hsemver
      cases hsemver
    · rw [hparse] at hsome
      cases hsome
  | some parsed =>
    rw [resolveTarget_creation_eq hresolution hparse]
    cases hexact : findExact (marked attempted catalogue) o with
    | some target => exact resolves_findExact hresolution hexact
    | none =>
      have hselected : ∀ w, Candidate catalogue o w → keyOf w ∉ attempted → w ∈ catalogue ∧
          Selected o.code parsed.1 (some parsed.2) w :=
        fun w hw hfree ↦ hw.selected hwf hresolution hparse hexact hfree
      have hlatest := @findLatestUsableDefinition_marked catalogue attempted o.code parsed.1
        (some parsed.2)
      cases hfind : findLatestUsableDefinition (marked attempted catalogue) o.code parsed.1
          (some parsed.2) with
      | none =>
        rw [hfind] at hlatest
        refine ⟨⟨_, _, rfl⟩, fun w hw ↦ ?_⟩
        by_contra hfree
        exact hfree (hlatest w (hselected w hw hfree).1 (hselected w hw hfree).2)
      | some target =>
        rw [hfind] at hlatest
        obtain ⟨v, hv, hnot, htarget, hstatus, hchosen, hgreatest⟩ := hlatest
        have hcandidate : Candidate catalogue o v := by
          refine ⟨hv, hchosen.grantCode, ?_⟩
          rw [hresolution]
          exact .inr ⟨hchosen.usable, parsed, hparse, hchosen.major, hchosen.bound _ rfl⟩
        refine .inl ⟨v, hcandidate, hnot, htarget, hstatus, fun w hw hbefore ↦ ?_⟩
        by_contra hfree
        obtain ⟨hmem, hselected⟩ := hselected w hw hfree
        rw [Before, hresolution] at hbefore
        rcases hbefore.2 with hversion | hgreater
        · obtain ⟨hactive, hfile⟩ := definition_of_usable hselected.usable
          exact hfree (mem_attempted_of_findExact hwf hexact hmem hselected.grantCode hactive
            hversion hfile)
        · exact absurd hgreater (hgreatest w hmem hfree hselected).not_gt

/-- The version that is resolved once some have been marked: the first candidate that has not. -/
theorem resolveTarget_marked (hwf : WellFormed catalogue) :
    Resolves catalogue o attempted (resolveTarget (marked attempted catalogue) o) := by
  cases hresolution : o.resolution with
  | creation => exact resolveTarget_creation hwf hresolution
  | sameMajor => exact resolveTarget_sameMajor hresolution
  | exact => exact resolveTarget_exact hwf hresolution

end

/-! ### The attempts of a load -/

/-- What loading a version comes to, if it has a file. -/
def loading (world : LoadWorld A P O) (v : ConfigVersion) :
    Option (Except LoadFailure (CompiledDefinition A P O)) :=
  v.toDefinition.map (outcome world)

/-- A version that fails permanently, and is recorded so. -/
def FailsForGood (world : LoadWorld A P O) (after : List ConfigVersion) (v : ConfigVersion) :
    Prop :=
  (∃ failure, loading world v = some (.error failure) ∧ failure.status = .permanentError) ∧
    (findConfigDefinition after v.grantCode v.version).map (·.fetchStatus) = some .permanentError

/-- What loading a definition comes to: the first candidate that loads, with every candidate
before it failing for good; the first failure that is not permanent, with no candidate after it
tried; or unavailable, with no candidate left. -/
def Settles (world : LoadWorld A P O) (catalogue : List ConfigVersion) (o : LoadOptions)
    (after : List ConfigVersion) : Except LoadFailure (CompiledDefinition A P O) → Prop
  | .ok c => ∃ v, Candidate catalogue o v ∧ loading world v = some (.ok c) ∧
      c.code = v.grantCode ∧ c.version = v.version ∧
      ∀ w, Candidate catalogue o w → Before o w v → FailsForGood world after w
  | .error failure =>
      ((∃ code version, failure = unavailable code version) ∧
        ∀ w, Candidate catalogue o w → FailsForGood world after w) ∨
      ∃ v, Candidate catalogue o v ∧ loading world v = some (.error failure) ∧
        (o.resolution.canFallBack = true → failure.status ≠ .permanentError) ∧
        (∀ w, Candidate catalogue o w → Before o w v → FailsForGood world after w) ∧
        ∀ w, Candidate catalogue o w → Before o v w →
          findConfigDefinition after w.grantCode w.version = w.toDefinition

/-- The versions attempted so far: candidates that fail permanently, with every candidate
before them. -/
structure Attempted (world : LoadWorld A P O) (catalogue : List ConfigVersion) (o : LoadOptions)
    (attempted : List (String × String)) : Prop where
  nodup : attempted.Nodup
  fails : ∀ key ∈ attempted, ∃ v, Candidate catalogue o v ∧ keyOf v = key ∧
    ∃ failure, loading world v = some (.error failure) ∧ failure.status = .permanentError
  before : ∀ v, Candidate catalogue o v → keyOf v ∈ attempted → ∀ w, Candidate catalogue o w →
    Before o w v → keyOf w ∈ attempted

section
variable {world : LoadWorld A P O} {catalogue after : List ConfigVersion} {o : LoadOptions}
  {attempted : List (String × String)} {target : DefinitionTarget} {v w : ConfigVersion}
  {failure : LoadFailure} {c : CompiledDefinition A P O}

theorem compileAndStore_ok {stored : Option (RawDefinition A P O)}
    (h : compileAndStore world target stored = .ok c) :
    c.code = target.grantCode ∧ c.version = target.version := by
  unfold compileAndStore at h
  obtain ⟨raw, _, h⟩ := bind_eq_ok.mp h
  split at h
  · cases h
  · obtain ⟨_, _, h⟩ := bind_eq_ok.mp h
    obtain rfl := Except.ok.inj h
    exact ⟨rfl, rfl⟩

/-- A definition that is loaded is compiled under the version it is loaded for. -/
theorem outcome_ok (h : outcome world target = .ok c) :
    c.code = target.grantCode ∧ c.version = target.version := by
  unfold outcome load at h
  by_cases hstatus : target.fetchStatus = .permanentError
  · rw [if_pos hstatus] at h
    cases h
  · rw [if_neg hstatus] at h
    cases hfind : world.findStoredDefinition target with
    | error text =>
      rw [hfind] at h
      cases h
    | ok stored =>
      simp only [hfind] at h
      cases hcompile : compileAndCache world [] target stored with
      | error failure =>
        rw [hcompile] at h
        unfold recordFailure at h
        simp only [updateStatus_eq] at h
        split_ifs at h
        cases hupdate : world.updateOne target failure.status <;> rw [hupdate] at h <;> cases h
      | ok loaded =>
        rw [hcompile] at h
        obtain rfl := Except.ok.inj h
        obtain ⟨compiled, hstored, hrest⟩ := bind_eq_ok.mp hcompile
        split_ifs at hrest
        · obtain rfl := Except.ok.inj hrest
          exact compileAndStore_ok hstored
        · obtain ⟨after, _, hrest⟩ := bind_eq_ok.mp hrest
          obtain rfl := Except.ok.inj hrest
          exact compileAndStore_ok hstored

/-- Writing one status leaves what is found under another key. -/
theorem findConfigDefinition_update {status : FetchStatus} (hkey : keyOf w ≠ keyOfTarget target) :
    findConfigDefinition (updateDefinitionFetchStatus catalogue target status) w.grantCode
        w.version =
      findConfigDefinition catalogue w.grantCode w.version := by
  rw [findConfigDefinition, findConfigDefinition, updateDefinitionFetchStatus, List.find?_map]
  have hsame : ((fun u : ConfigVersion ↦
        decide (u.grantCode = w.grantCode ∧ u.version = w.version)) ∘
      fun u ↦ if keyOf u = keyOfTarget target then withStatus status u else u) =
      fun u ↦ decide (u.grantCode = w.grantCode ∧ u.version = w.version) := by
    funext u
    rw [Function.comp_apply]
    split_ifs <;> rfl
  rw [hsame]
  cases hfind : catalogue.find? fun u ↦
      decide (u.grantCode = w.grantCode ∧ u.version = w.version) with
  | none => rfl
  | some u =>
    have hfound : u.grantCode = w.grantCode ∧ u.version = w.version := by
      simpa using List.find?_some hfind
    have hother : keyOf u ≠ keyOfTarget target := by
      rwa [show keyOf u = keyOf w from Prod.ext hfound.1 hfound.2]
    rw [Option.map_some, if_neg hother]

/-- A version that was attempted fails for good. -/
theorem Attempted.failsForGood (hwf : WellFormed catalogue)
    (h : Attempted world catalogue o attempted) (hw : Candidate catalogue o w)
    (hmem : keyOf w ∈ attempted) : FailsForGood world (marked attempted catalogue) w := by
  obtain ⟨v, hv, hkey, failure, hloading, hpermanent⟩ := h.fails _ hmem
  obtain rfl := List.inj_on_of_nodup_map hwf.keys hv.1 hw.1 hkey
  refine ⟨⟨failure, hloading, hpermanent⟩, ?_⟩
  obtain ⟨target, hdefinition, _⟩ := Option.map_eq_some_iff.mp hloading
  obtain ⟨file, hfile, _⟩ := Option.map_eq_some_iff.mp hdefinition
  rw [findConfigDefinition_marked hwf.keys hw.1, if_pos hmem, ConfigVersion.toDefinition,
    withStatus, hfile]
  rfl

/-- A write under another key keeps a version failed for good. -/
theorem FailsForGood.of_find (h : FailsForGood world catalogue w)
    (hfind : findConfigDefinition after w.grantCode w.version =
      findConfigDefinition catalogue w.grantCode w.version) : FailsForGood world after w :=
  ⟨h.1, by rw [hfind]; exact h.2⟩

/-- No version is tried before itself. -/
theorem not_before_self : ¬ Before o v v := by
  intro h
  unfold Before at h
  cases hresolution : o.resolution with
  | exact => rw [hresolution] at h; exact h
  | creation =>
    rw [hresolution] at h
    rcases h.2 with hversion | hless
    · exact h.1 hversion
    · exact lt_irrefl _ hless
  | sameMajor => rw [hresolution] at h; exact lt_irrefl _ h

/-- There are no more attempts than versions. -/
theorem Attempted.length_le (h : Attempted world catalogue o attempted) :
    attempted.length ≤ catalogue.length := by
  have hsubset : attempted ⊆ catalogue.map keyOf := by
    intro key hkey
    obtain ⟨v, hv, rfl, _⟩ := h.fails key hkey
    exact List.mem_map_of_mem hv.1
  have hlength := List.Nodup.length_le_of_subset h.nodup hsubset
  rwa [List.length_map] at hlength

/-- A candidate that fails for good joins those attempted. -/
theorem Attempted.cons (h : Attempted world catalogue o attempted) (hv : Candidate catalogue o v)
    (hwf : WellFormed catalogue)
    (hnot : keyOf v ∉ attempted) (hloading : loading world v = some (.error failure))
    (hpermanent : failure.status = .permanentError)
    (hbefore : ∀ w, Candidate catalogue o w → Before o w v → keyOf w ∈ attempted) :
    Attempted world catalogue o (keyOf v :: attempted) where
  nodup := List.nodup_cons.mpr ⟨hnot, h.nodup⟩
  fails := by
    intro key hkey
    rcases List.mem_cons.mp hkey with rfl | hkey
    · exact ⟨v, hv, rfl, failure, hloading, hpermanent⟩
    · exact h.fails key hkey
  before := by
    intro u hu hkey w hw hless
    rcases List.mem_cons.mp hkey with hsame | hkey
    · obtain rfl := List.inj_on_of_nodup_map hwf.keys hu.1 hv.1 hsame
      exact List.mem_cons_of_mem _ (hbefore w hw hless)
    · exact List.mem_cons_of_mem _ (h.before u hu hkey w hw hless)

/-- What a load of the first candidate left comes to, when it is not tried again. -/
theorem settles_of_loads (hwf : WellFormed catalogue)
    (h : Attempted world catalogue o attempted) (hv : Candidate catalogue o v)
    (hnot : keyOf v ∉ attempted) (htarget : v.toDefinition = some target)
    (hbefore : ∀ w, Candidate catalogue o w → Before o w v → keyOf w ∈ attempted)
    {x : List ConfigVersion × Except LoadFailure (CompiledDefinition A P O)}
    (hloads : Loads (marked attempted catalogue) target (outcome world target) x)
    (hlast : ∀ failure, x.2 = .error failure →
      o.resolution.canFallBack = true → failure.status ≠ .permanentError) :
    Settles world catalogue o x.1 x.2 := by
  have hloading : loading world v = some x.2 := by
    rw [loading, htarget, hloads.outcome, Option.map_some]
  obtain ⟨file, _, rfl⟩ := Option.map_eq_some_iff.mp htarget
  have hkept : ∀ w, keyOf w ≠ keyOf v →
      findConfigDefinition x.1 w.grantCode w.version =
        findConfigDefinition (marked attempted catalogue) w.grantCode w.version := by
    intro w hkey
    rcases hloads.writes with hsame | ⟨status, hwritten⟩
    · rw [hsame]
    · rw [hwritten]
      exact findConfigDefinition_update hkey
  have hgood : ∀ w, Candidate catalogue o w → Before o w v → FailsForGood world x.1 w := by
    intro w hw hless
    have hmem := hbefore w hw hless
    exact (h.failsForGood hwf hw hmem).of_find (hkept w fun heq ↦ hnot (heq ▸ hmem))
  cases hresult : x.2 with
  | ok c =>
    rw [hresult] at hloading
    obtain ⟨hcode, hversion⟩ := outcome_ok (hloads.outcome.symm.trans hresult)
    exact ⟨v, hv, hloading, hcode, hversion, hgood⟩
  | error failure =>
    rw [hresult] at hloading
    refine .inr ⟨v, hv, hloading, hlast failure hresult, hgood, fun w hw hless ↦ ?_⟩
    have hother : keyOf w ≠ keyOf v := by
      intro heq
      obtain rfl := List.inj_on_of_nodup_map hwf.keys hw.1 hv.1 heq
      exact not_before_self hless
    have hfree : keyOf w ∉ attempted := fun hmem ↦ hnot (h.before w hw hmem v hv hless)
    rw [hkept w hother, findConfigDefinition_marked hwf.keys hw.1, if_neg hfree]

/-- What the attempts come to from any point on. -/
theorem settles_of_attempted (hwf : WellFormed catalogue) (fuel : Nat)
    (attempted : List (String × String)) (h : Attempted world catalogue o attempted)
    (hfuel : catalogue.length < attempted.length + fuel) :
    ∃ after result, loadAgreementDefinition world o fuel attempted (marked attempted catalogue) =
      some (after, result) ∧ Settles world catalogue o after result := by
  induction fuel generalizing attempted with
  | zero => exact absurd h.length_le (by omega)
  | succ fuel ih =>
    have hresolves := @resolveTarget_marked catalogue attempted o hwf
    rw [loadAgreementDefinition]
    cases hresolve : resolveTarget (marked attempted catalogue) o with
    | error failure =>
      rw [hresolve] at hresolves
      obtain ⟨hunavailable, hall⟩ := hresolves
      exact ⟨_, _, rfl, .inl ⟨hunavailable, fun w hw ↦ h.failsForGood hwf hw (hall w hw)⟩⟩
    | ok target =>
      rw [hresolve] at hresolves
      rcases hresolves with ⟨v, hv, hnot, htarget, hstatus, hbefore⟩ | ⟨hexact, hstatus, hall⟩
      · have hkey : keyOfTarget target = keyOf v := by
          obtain ⟨file, _, rfl⟩ := Option.map_eq_some_iff.mp htarget
          rfl
        have hloads := @load_loads A P O world (marked attempted catalogue) target hstatus
        have hsettles := settles_of_loads hwf h hv hnot htarget hbefore hloads
        simp only [hkey, List.contains_iff_mem, if_neg hnot]
        generalize hload : load world (marked attempted catalogue) target = x at hloads hsettles
        obtain ⟨loaded, result⟩ := x
        cases result with
        | ok c => exact ⟨_, _, rfl, hsettles fun _ hnever ↦ nomatch hnever⟩
        | error failure =>
          by_cases hagain : (o.resolution.canFallBack && failure.status = .permanentError) = true
          · obtain ⟨_, hpermanent⟩ := Bool.and_eq_true_iff.mp hagain
            have hpermanent := of_decide_eq_true hpermanent
            have hloading : loading world v = some (.error failure) := by
              rw [loading, htarget, Option.map_some, ← hloads.outcome]
            have hnext := h.cons hv hwf hnot hloading hpermanent hbefore
            have hrecorded := hloads.permanent failure rfl hpermanent
            rw [updateDefinitionFetchStatus_marked, hkey] at hrecorded
            simp only [if_pos hagain]
            rw [show loaded = _ from hrecorded]
            exact ih _ hnext (by rw [List.length_cons]; omega)
          · simp only [if_neg hagain]
            refine ⟨_, _, rfl, hsettles fun e he hfall ↦ ?_⟩
            obtain rfl := Except.error.inj he
            rw [hfall, Bool.true_and] at hagain
            simpa using hagain
      · have hunavailable : ∀ code version, Settles world catalogue o (marked attempted catalogue)
            (.error (unavailable code version)) :=
          fun code version ↦ .inl ⟨⟨code, version, rfl⟩,
            fun w hw ↦ h.failsForGood hwf hw (hall w hw)⟩
        by_cases hmem : keyOfTarget target ∈ attempted
        · simp only [List.contains_iff_mem, if_pos hmem]
          exact ⟨_, _, rfl, hunavailable _ _⟩
        · simp only [List.contains_iff_mem, if_neg hmem, load, if_pos hstatus, hexact,
            Resolution.canFallBack, Bool.false_and]
          exact ⟨_, _, rfl, hunavailable _ _⟩

/-- The first candidate that loads is the one returned. -/
theorem Settles.eq_ok {result : Except LoadFailure (CompiledDefinition A P O)}
    (h : Settles world catalogue o after result) (hv : Candidate catalogue o v)
    (hloading : loading world v = some (.ok c))
    (hfirst : ∀ w, Candidate catalogue o w → w ≠ v → Before o v w ∨ Before o w v ∧
      ∃ failure, loading world w = some (.error failure) ∧ failure.status = .permanentError) :
    result = .ok c := by
  have hnever : ¬ FailsForGood world after v := by
    rintro ⟨⟨failure, hfails, _⟩, _⟩
    rw [hloading] at hfails
    cases hfails
  cases result with
  | ok found =>
    obtain ⟨w, hw, hfound, _, _, hbefore⟩ := h
    by_cases hsame : w = v
    · rw [hsame, hloading] at hfound
      exact (Option.some.inj hfound).symm
    · rcases hfirst w hw hsame with hless | ⟨_, failure, hfails, _⟩
      · exact absurd (hbefore v hv hless) hnever
      · rw [hfound] at hfails
        cases hfails
  | error failure =>
    rcases h with ⟨_, hall⟩ | ⟨w, hw, hfound, hlast, hbefore, _⟩
    · exact absurd (hall v hv) hnever
    · have hother : w ≠ v := by
        rintro rfl
        rw [hloading] at hfound
        cases hfound
      rcases hfirst w hw hother with hless | ⟨hless, failure', hfails, hpermanent⟩
      · exact absurd (hbefore v hv hless) hnever
      · obtain rfl := Except.error.inj (Option.some.inj (hfound.symm.trans hfails))
        have hpinned : o.resolution.canFallBack = false := by
          by_contra hfall
          exact hlast (by simpa using hfall) hpermanent
        cases hresolution : o.resolution with
        | exact => simp [Before, hresolution] at hless
        | creation => rw [hresolution] at hpinned; cases hpinned
        | sameMajor => rw [hresolution] at hpinned; cases hpinned

/-- More attempts than a load needs change nothing. -/
theorem loadAgreementDefinition_fuel {x : List ConfigVersion ×
      Except LoadFailure (CompiledDefinition A P O)} (fuel more : Nat)
    (h : loadAgreementDefinition world o fuel attempted catalogue = some x) :
    loadAgreementDefinition world o (fuel + more) attempted catalogue = some x := by
  induction fuel generalizing attempted catalogue with
  | zero => cases h
  | succ fuel ih =>
    rw [Nat.succ_add, loadAgreementDefinition]
    rw [loadAgreementDefinition] at h
    cases hresolve : resolveTarget catalogue o with
    | error failure => simpa only [hresolve] using h
    | ok target =>
      simp only [hresolve, List.contains_iff_mem] at h ⊢
      by_cases hmem : keyOfTarget target ∈ attempted
      · simpa only [if_pos hmem] using h
      · simp only [if_neg hmem] at h ⊢
        generalize load world catalogue target = y at h ⊢
        obtain ⟨loaded, result⟩ := y
        cases result with
        | ok c => exact h
        | error failure =>
          by_cases hagain : (o.resolution.canFallBack && failure.status = .permanentError) = true
          · simp only [if_pos hagain] at h ⊢
            exact ih h
          · simpa only [if_neg hagain] using h

end

/-- A newer version whose file is missing, and an older one that loads. -/
def catalogueMissing : List ConfigVersion :=
  [⟨"woodland", "1.0.0", true, 1, 0, 0, some ⟨some "woodland/1.0.0.json", .fetched⟩⟩,
    ⟨"woodland", "1.1.0", true, 1, 1, 0, some ⟨some "woodland/1.1.0.json", .pending⟩⟩]

/-- What is stored, and what is in S3, with that catalogue. -/
def worldMissing : LoadWorld Unit Unit Unit where
  findStoredDefinition target :=
    .ok (if target.version = "1.0.0" then some ⟨"woodland", none, [], .ok ()⟩ else none)
  fetchConfigFile _ := .error (.s3Fetch true false "NoSuchKey")
  insertAgreementDefinition _ := .ok ()
  updateOne _ _ := .ok ()

end FgGas.Agreements.Recorded
