import FgGas.Processes.CreationIdentities
import FgGas.Processes.EarlierOutputs

/-!
# Values of a created agreement

How the values of an agreement that is created come together: from its application, the values
mapped at creation (`src/agreements/models/agreement-definitions/compile-creation-mappings.js`) and
what the processes of its creation put out
(`src/agreements/models/agreement-definitions/compile-agreement-creation.js`). For an accepted
definition each of them comes from one place, and stands among the values of the agreement as it is,
but for the identities of its entries.
-/

namespace FgGas.Processes

open Machine

/-- A computation whose evaluations are logged. -/
abbrev Resolving := Logged Evaluation String

section
variable (outside : Outside) (d : Definition)

/-- `isApplication`. -/
def isApplication : Data → Bool
  | .object _ => true
  | _ => false

/-- `resolveApplication`. -/
def resolveApplication (input : Data) : Resolving Data := do
  let application ←
    (resolveMapping outside.jsonata d.create.application
      ⟨.object [("input", input)], .undefined, false⟩).mapError fun _ ↦
        "Agreement definition " ++ quoted d.code ++ " could not resolve Application"
  Logged.lift <| require (isApplication application)
    ("Agreement definition " ++ quoted d.code ++ " resolved an invalid Application")
  return application

/-- `validateCreationValue`. Actions and items are required. -/
def validateCreationValue (field : String) (value : Data) : Except String Data := do
  let message := "Agreement definition " ++ quoted d.code ++ " produced invalid creation value " ++
    quoted field
  require (field ∉ requiredCreationValues || !value.isUndefined) (message ++ " at: value")
  match findAgreementProcessOutputSchema outside field with
  | none => .error "Cannot read properties of undefined (reading 'validate')"
  | some schema => validateMappedValue schema value message

/-- One entry of `resolveCreationValues`. -/
def resolveCreationValue (input application : Data) (entry : String × Data) :
    Resolving (String × Data) := do
  let value ←
    (resolveMapping outside.jsonata entry.2
      ⟨.object [("input", input), ("application", application)], .undefined, true⟩).mapError fun _ ↦
        "Agreement definition " ++ quoted d.code ++ " could not resolve creation values"
  let value ← Logged.lift (validateCreationValue outside d entry.1 value)
  return (entry.1, value)

/-- `resolveCreationValues`. -/
def resolveCreationValues (input application : Data) : Resolving (List (String × Data)) := do
  let entries ← Logged.all <| d.create.values.map <|
    resolveCreationValue outside d input application
  return entries.filter fun (_, value) ↦ !value.isUndefined

/-- The values that `assembleAgreementValues` puts together, of several outputs in their order,
before they are materialised. -/
def assembledValues (application : Data) (mappedValues : List (String × Data))
    (outputs : List (List (String × Data))) : List (String × Data) :=
  assign (assign [("application", application)] mappedValues) (assignAll [] outputs)

/-- `validateAgreementValues`. -/
def validateAgreementValues (values : List (String × Data)) :
    Except String (List (String × Data)) := do
  require (outside.agreementValues values) "Agreement creation produced invalid Agreement values"
  return values

/-- `assembleAgreementValues`. -/
def assembleAgreementValues (application : Data) (mappedValues : List (String × Data))
    (outputs : List (List (String × Data))) : Except String (List (String × Data)) := do
  let values ← materialiseCreationIdentities (assembledValues application mappedValues outputs)
  validateAgreementValues outside values

/-- `${input?.code}`, which is a text where there is one. -/
def codeText : Data → String
  | .string code => code
  | _ => "undefined"

/-- `assertDefinitionMatchesInput`. -/
def assertDefinitionMatchesInput (input : Data) : Except String Unit :=
  require ((input.property "code").isText d.code)
    ("Agreement Creation Input code " ++ quoted (codeText (input.property "code")) ++
      " does not match Agreement Definition " ++ quoted d.code)

/-- `assertCorrelationId`. -/
def assertCorrelationId (execution : List (String × Data)) : Except String Unit :=
  require ((Data.object execution).property "correlationId").isTruthy
    "Agreement creation requires an Agreement Correlation ID"

/-- The values of the agreement that `compileAgreementCreation` creates. -/
def createValues (input : Data) (execution : List (String × Data)) :
    Except String (List (String × Data)) := do
  assertDefinitionMatchesInput d input
  assertCorrelationId execution
  let application ← (resolveApplication outside d input).result
  let mappedValues ← (resolveCreationValues outside d input application).result
  let result ← (runLocation outside d .create ⟨application, [], .undefined, execution⟩).result
  require result.commitOperations.isEmpty
    "Agreement creation Processes produced unsupported commit operations"
  assembleAgreementValues outside application mappedValues (result.outputs.map Prod.snd)

end

/-! ### Names of values -/

section
variable {outside : Outside} {d : Definition}

theorem mem_processOutputs {field : String} {schema : Schema}
    (h : findAgreementProcessOutputSchema outside field = some schema) :
    field ∈ processOutputs := by
  unfold findAgreementProcessOutputSchema at h
  split at h
  · assumption
  · cases h

/-- The values mapped at a creation are ones the platform knows. -/
theorem Accepted.mappedValues (h : Accepted outside d) {entry : String × Data}
    (hentry : entry ∈ d.create.values) : entry.1 ∈ processOutputs := by
  obtain ⟨-, hcreation⟩ := andThen_eq_ok.mp h.creation
  obtain ⟨-, hfields⟩ := andThen_eq_ok.mp hcreation
  have hfield := forM_eq_ok.mp hfields entry hentry
  change (match findAgreementProcessOutputSchema outside entry.1 with
    | none => _
    | some schema => _) = _ at hfield
  split at hfield
  · cases hfield
  · next schema hschema => exact mem_processOutputs hschema

theorem assertKnownOutputMappings_eq_ok {processKey : String} {output : List (String × Data)}
    (h : assertKnownOutputMappings outside processKey output = .ok ()) {name : String}
    (hname : name ∈ output.map Prod.fst) : name ∈ processOutputs := by
  obtain ⟨entry, hentry, rfl⟩ := List.mem_map.mp hname
  have hknown := forM_eq_ok.mp h entry hentry
  change (match findAgreementProcessOutputSchema outside entry.1 with
    | none => _
    | some schema => _) = _ at hknown
  split at hknown
  · cases hknown
  · next schema hschema => exact mem_processOutputs hschema

theorem compileProcess_eq_ok {processKey : String} {definition : ProcessDefinition}
    (h : compileProcess outside processKey definition = .ok ()) {name : String}
    (hname : name ∈ definition.output.map Prod.fst) : name ∈ processOutputs := by
  cases definition with
  | endpoint endpoint body output =>
    obtain ⟨hendpoint, -⟩ := andThen_eq_ok.mp h
    obtain ⟨-, hendpoint⟩ := andThen_eq_ok.mp hendpoint
    obtain ⟨-, hendpoint⟩ := andThen_eq_ok.mp hendpoint
    exact assertKnownOutputMappings_eq_ok hendpoint hname
  | handler input => cases hname

/-- What a process puts out are values the platform knows. -/
theorem Accepted.outputs (h : Accepted outside d) {processKey name : String}
    (hname : name ∈ declaredOutputs d.processDefinitions processKey) : name ∈ processOutputs := by
  obtain ⟨-, hprocesses⟩ := andThen_eq_ok.mp h.processes
  obtain ⟨hdefinitions, -⟩ := andThen_eq_ok.mp hprocesses
  unfold declaredOutputs at hname
  cases hlookup : d.processDefinitions.lookup processKey with
  | none => rw [hlookup] at hname; cases hname
  | some definition =>
    rw [hlookup] at hname
    exact compileProcess_eq_ok (forM_eq_ok.mp hdefinitions _ (mem_of_lookup hlookup)) hname

/-- The values mapped at a creation are under names of its mapping, in their order. -/
theorem resolveCreationValues_sublist {input application : Data} {mapped : List (String × Data)}
    (h : (resolveCreationValues outside d input application).result = .ok mapped) :
    (mapped.map Prod.fst).Sublist (d.create.values.map Prod.fst) := by
  have hensures : (resolveCreationValues outside d input application).Ensures (fun _ ↦ True)
      fun mapped ↦ (mapped.map Prod.fst).Sublist (d.create.values.map Prod.fst) := by
    refine (Logged.ensures_all (Q := fun entry result ↦ result.1 = entry.1) fun entry _ ↦ ?_).bind
      fun entries hentries ↦ ?_
    · refine Logged.Ensures.bind (Q := fun _ ↦ True) ⟨fun _ _ ↦ trivial, fun _ _ ↦ trivial⟩
        fun value _ ↦ ?_
      refine (Logged.ensures_lift (Q := fun _ ↦ True) fun _ _ ↦ trivial).bind fun value _ ↦ ?_
      exact Logged.ensures_pure rfl
    · rw [← map_fst_of_forall₂ hentries]
      exact Logged.ensures_pure (List.filter_sublist.map Prod.fst)
  exact hensures.result mapped h

/-- The outputs of processes have the names they declare, in the order of the processes. -/
theorem OutputsOf.names_flatten {before : List String} {outputs : Outputs}
    (h : OutputsOf d.processDefinitions before outputs) :
    ((outputs.map Prod.snd).flatten).map Prod.fst =
      before.flatMap (declaredOutputs d.processDefinitions) := by
  rw [← h.keys, List.map_flatten, List.map_map, List.flatMap_map, List.flatMap_def]
  congr 1
  exact List.map_congr_left fun p hp ↦ h.names p hp

/-- The parts of the values of an agreement that is created share no name. -/
theorem Accepted.nodup_values (h : Accepted outside d) {input application : Data}
    {mapped : List (String × Data)} {outputs : Outputs}
    (hmapped : (resolveCreationValues outside d input application).result = .ok mapped)
    (houtputs : OutputsOf d.processDefinitions d.create.processes outputs) :
    ((("application", application) :: mapped ++ (outputs.map Prod.snd).flatten).map
      Prod.fst).Nodup := by
  have hsequence := h.sequence List.mem_cons_self
  have hsublist := resolveCreationValues_sublist hmapped
  have hnodup := hsequence.nodup d.create.distinct
  have happlication : "application" ∉ processOutputs := by decide
  rw [List.cons_append, List.map_cons, List.map_append, houtputs.names_flatten, List.nodup_cons]
  refine ⟨fun hmem ↦ happlication ?_, hnodup.sublist (hsublist.append_right _)⟩
  rcases List.mem_append.mp hmem with hmem | hmem
  · obtain ⟨entry, hentry, heq⟩ := List.mem_map.mp (hsublist.subset hmem)
    have hknown := h.mappedValues hentry
    rwa [heq] at hknown
  · obtain ⟨processKey, _, hname⟩ := List.mem_flatMap.mp hmem
    exact h.outputs hname

/-- What is looked up in values put together from parts that share no name. -/
theorem lookup_assembledValues {application : Data} {mapped : List (String × Data)}
    {sources sources' : List (List (String × Data))} (hperm : sources'.Perm sources)
    (hnodup : ((("application", application) :: mapped ++ sources.flatten).map Prod.fst).Nodup)
    (name : String) : (assembledValues application mapped sources').lookup name =
      (("application", application) :: mapped ++ sources.flatten).lookup name := by
  have hparts : (("application", application) :: mapped ++ sources.flatten).Perm
      (sources.flatten ++ (mapped ++ [("application", application)])) :=
    List.perm_append_comm.trans ((List.perm_append_singleton _ _).symm.append_left _)
  have hnodup' := (hparts.map Prod.fst).nodup_iff.mp hnodup
  rw [List.map_append, List.map_append] at hnodup'
  have hmapped : (mapped.map Prod.fst).Nodup :=
    (List.nodup_append.mp (List.nodup_append.mp hnodup').2.1).1
  have hsources : (sources.flatten.map Prod.fst).Nodup := (List.nodup_append.mp hnodup').1
  have hwritten : ((assignAll [] sources').map Prod.fst).Nodup := by
    rw [assignAll_eq_assign]
    exact nodup_assign List.nodup_nil
  rw [assembledValues, lookup_assign_of_nodup hwritten, lookup_assignAll_of_perm hperm hsources,
    lookup_assign_of_nodup hmapped, lookup_perm hparts hnodup, List.lookup_append,
    List.lookup_append, List.lookup_nil, Option.or_none]

/-- What an agreement that is created is put together from. -/
theorem createValues_eq_ok {input : Data} {execution values : List (String × Data)}
    (h : createValues outside d input execution = .ok values) : ∃ application mapped result,
      (resolveApplication outside d input).result = .ok application ∧
      (resolveCreationValues outside d input application).result = .ok mapped ∧
      (runLocation outside d .create ⟨application, [], .undefined, execution⟩).result =
        .ok result ∧
      materialiseCreationIdentities
        (assembledValues application mapped (result.outputs.map Prod.snd)) = .ok values := by
  obtain ⟨-, h⟩ := andThen_eq_ok.mp h
  obtain ⟨-, h⟩ := andThen_eq_ok.mp h
  obtain ⟨application, happlication, h⟩ := bind_eq_ok.mp h
  obtain ⟨mapped, hmapped, h⟩ := bind_eq_ok.mp h
  obtain ⟨result, hresult, h⟩ := bind_eq_ok.mp h
  obtain ⟨-, h⟩ := andThen_eq_ok.mp h
  obtain ⟨materialised, hmaterialised, h⟩ := bind_eq_ok.mp h
  obtain ⟨-, h⟩ := andThen_eq_ok.mp h
  obtain rfl := Except.ok.inj h
  exact ⟨application, mapped, result, happlication, hmapped, hresult, hmaterialised⟩

/-- The parts of the values of an agreement that is created share no name, and in whichever order
its outputs are assigned, the values are those of its parts. -/
theorem Accepted.assembled (h : Accepted outside d) {input application : Data}
    {execution mapped : List (String × Data)} {result : SequenceResult}
    (hmapped : (resolveCreationValues outside d input application).result = .ok mapped)
    (hresult : (runLocation outside d .create
      ⟨application, [], .undefined, execution⟩).result = .ok result) :
    let parts := ("application", application) :: mapped ++ (result.outputs.map Prod.snd).flatten
    (parts.map Prod.fst).Nodup ∧
      ∀ outputs : List (List (String × Data)), outputs.Perm (result.outputs.map Prod.snd) →
        ∀ name, (assembledValues application mapped outputs).lookup name = parts.lookup name := by
  obtain ⟨location, hlocation, houtputs⟩ := (runLocation_ensures h .create).result result hresult
  obtain rfl := Except.ok.inj hlocation
  have hnodup := h.nodup_values hmapped houtputs
  exact ⟨hnodup, fun outputs hperm ↦ lookup_assembledValues hperm hnodup⟩

/-- The application, the values mapped at the creation and the outputs of its processes all come
into the values of an agreement as they are, but for the identities of its entries; and the order in
which the outputs are put together makes no difference. -/
theorem creation_values_kept (h : Accepted outside d) {input : Data}
    {execution values : List (String × Data)}
    (hvalues : createValues outside d input execution = .ok values) :
    ∃ application mapped result,
      (resolveApplication outside d input).result = .ok application ∧
      (resolveCreationValues outside d input application).result = .ok mapped ∧
      (runLocation outside d .create ⟨application, [], .undefined, execution⟩).result =
        .ok result ∧
      let parts := ("application", application) :: mapped ++ (result.outputs.map Prod.snd).flatten
      (parts.map Prod.fst).Nodup ∧ Identified (parts.lookup ·) (values.lookup ·) ∧
      ∀ outputs : List (List (String × Data)), outputs.Perm (result.outputs.map Prod.snd) →
        ∃ values', materialiseCreationIdentities (assembledValues application mapped outputs) =
            .ok values' ∧
          ∀ name, values'.lookup name = values.lookup name := by
  obtain ⟨application, mapped, result, happlication, hmapped, hresult, hmaterialised⟩ :=
    createValues_eq_ok hvalues
  obtain ⟨hnodup, hassembled⟩ := h.assembled hmapped hresult
  refine ⟨application, mapped, result, happlication, hmapped, hresult, hnodup, ?_,
    fun outputs hperm ↦ ?_⟩
  · have hidentified := materialiseCreationIdentities_eq_ok hmaterialised
    simpa only [hassembled _ (List.Perm.refl _)] using hidentified
  · refine materialiseCreationIdentities_congr (fun name ↦ ?_) hmaterialised
    rw [hassembled _ (List.Perm.refl _), hassembled _ hperm]

end

/-- An input for the agreement. -/
def woodlandInput : Data := .object [("code", .string "woodland")]

/-- The values it is created with. -/
def woodlandValues : List (String × Data) :=
  [("application", .object []), ("actions", .array []), ("items", .array []),
    ("totalAmountPence", .number 500), ("annualAmountPence", .number 100),
    ("paymentSchedule", .undefined)]

theorem woodland_values :
    createValues woodlandOutside woodland woodlandInput woodlandExecution = .ok woodlandValues := by
  have happlication : (resolveApplication woodlandOutside woodland woodlandInput).result =
      .ok (.object []) := by
    simp [resolveApplication, woodland, resolveMapping, isCollectionMapping]
    rfl
  have hmapped : (resolveCreationValues woodlandOutside woodland woodlandInput
      (.object [])).result = .ok [("actions", .array []), ("items", .array [])] := by
    simp [resolveCreationValues, woodland, resolveCreationValue, resolveMapping]
    rfl
  have hrun : (runLocation woodlandOutside woodland .create
      ⟨.object [], [], .undefined, woodlandExecution⟩).result = _ :=
    congrArg Logged.result woodland_run
  simp only [createValues, happlication, hmapped, hrun, bind, Except.bind]
  rfl

theorem creation_values_woodland : ∃ application mapped result,
    (resolveApplication woodlandOutside woodland woodlandInput).result = .ok application ∧
    (resolveCreationValues woodlandOutside woodland woodlandInput application).result =
      .ok mapped ∧
    (runLocation woodlandOutside woodland .create
      ⟨application, [], .undefined, woodlandExecution⟩).result = .ok result ∧
    let parts := ("application", application) :: mapped ++ (result.outputs.map Prod.snd).flatten
    (parts.map Prod.fst).Nodup ∧ Identified (parts.lookup ·) (woodlandValues.lookup ·) ∧
    ∀ outputs : List (List (String × Data)), outputs.Perm (result.outputs.map Prod.snd) →
      ∃ values', materialiseCreationIdentities (assembledValues application mapped outputs) =
          .ok values' ∧
        ∀ name, values'.lookup name = woodlandValues.lookup name :=
  creation_values_kept woodland_accepted woodland_values

end FgGas.Processes
