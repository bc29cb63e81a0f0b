import Mathlib.Data.List.Nodup
import Mathlib.Data.List.Perm.Subperm

/-!
# Grant definitions

What a grant definition decides about an application: the transitions it accepts and the
processes they run, the position an external status leads to, the templates entitlements are
created and claimed under, and the move that follows a final claim
(`src/grants/models/grant.js`, `src/grants/models/valid-from.js`,
`src/grants/models/external-status-mapping.js`, `src/grants/models/entitlement-template.js`,
`src/grants/models/claimable-entitlement.js`).
-/

namespace FgGas.Grants

/-- A position by its parts. -/
structure Position where
  phase : String
  stage : String
  status : String
  deriving DecidableEq, Repr

/-- The parts joined, as `getFullyQualifiedStatus` joins them. -/
def Position.fullyQualified (p : Position) : String := p.phase ++ ":" ++ p.stage ++ ":" ++ p.status

/-- A status an application may come from, and the processes that then run. -/
structure ValidFrom where
  code : String
  processes : List String
  deriving DecidableEq, Repr

/-- `position.split(":").pop()`. -/
def lastSegment (position : String) : String :=
  String.ofList (position.toList.reverse.takeWhile (· ≠ ':')).reverse

/-- `ValidFrom.matches`. -/
def ValidFrom.matchesPosition (v : ValidFrom) (position : String) : Bool :=
  if v.code.toList.contains ':' then v.code = position else v.code = lastSegment position

/-- A status of a stage. No `validFrom` is an empty one. -/
structure StatusDefinition where
  code : String
  validFrom : List ValidFrom
  processes : List String
  deriving DecidableEq, Repr

/-- A stage of a phase. -/
structure Stage where
  code : String
  statuses : List StatusDefinition
  deriving DecidableEq, Repr

/-- A phase of a grant. -/
structure Phase where
  code : String
  stages : List Stage
  deriving DecidableEq, Repr

/-- An entry of the external status map. -/
structure ExternalStatus where
  code : String
  source : String
  mappedTo : String
  deriving DecidableEq, Repr

/-- A stage of the external status map. -/
structure ExternalStage where
  code : String
  statuses : List ExternalStatus
  deriving DecidableEq, Repr

/-- A phase of the external status map. -/
structure ExternalPhase where
  code : String
  stages : List ExternalStage
  deriving DecidableEq, Repr

/-- A position of a template; a part left out matches anything. -/
structure TemplatePosition where
  phase : String
  stage : Option String
  status : Option String
  deriving DecidableEq, Repr

/-- `#positionMatches`. -/
def TemplatePosition.matchesPosition (declared : TemplatePosition) (position : Position) : Bool :=
  declared.phase = position.phase && declared.stage.all (· = position.stage) &&
    declared.status.all (· = position.status)

/-- The `claim` block of a template; `maximumClaims` is the one of its limits. -/
structure ClaimRules where
  claimableAt : List TemplatePosition
  maximumClaims : Option Nat
  requiresApproval : Bool
  deriving DecidableEq, Repr

/-- The data an operator submits for an entitlement, by field name. -/
abbrev EntitlementData := List (String × String)

/-- A field of a template: whoever creates the entitlement supplies it, or the definition
fixes it. The last is `#submittedValueMatches`, the rules of the field's unit type. -/
structure TemplateField where
  name : String
  input : Bool
  submittedValueMatches : String → Bool

/-- An entitlement template; its fields are the keys of an object. What `invalidDataMessage`
says of data it refuses is the template's own. -/
structure EntitlementTemplate where
  claimCode : String
  name : String
  materialised : Bool
  fields : List TemplateField
  maxEntitlements : Nat
  availableAt : List TemplatePosition
  claim : Option ClaimRules
  invalidDataMessage : EntitlementData → String
  fields_nodup : (fields.map (·.name)).Nodup

/-- The move that follows a final claim. -/
structure OnClaimApproval where
  currentPosition : Position
  targetPosition : Position
  deriving DecidableEq, Repr

/-- A grant definition. -/
structure Grant where
  code : String
  phases : List Phase
  externalStatusMap : List ExternalPhase
  entitlementTemplates : List EntitlementTemplate
  onClaimApproval : Option OnClaimApproval

/-- `inputFieldNames`. -/
def EntitlementTemplate.inputFieldNames (t : EntitlementTemplate) : List String :=
  (t.fields.filter (·.input)).map (·.name)

/-- `invalidInputFieldNames`. -/
def EntitlementTemplate.invalidInputFieldNames (t : EntitlementTemplate)
    (submittedData : EntitlementData) : List String :=
  ((t.fields.filter (·.input)).filter fun field ↦ submittedData.any fun submitted ↦
    submitted.1 = field.name && !field.submittedValueMatches submitted.2).map (·.name)

/-- `hasValidInputData`. -/
def EntitlementTemplate.hasValidInputData (t : EntitlementTemplate)
    (submittedData : EntitlementData) : Bool :=
  t.inputFieldNames.length = submittedData.length &&
    t.inputFieldNames.all (fun name ↦ submittedData.any (·.1 = name)) &&
    (t.invalidInputFieldNames submittedData).isEmpty

/-- `findEntitlementTemplate`. -/
def Grant.findEntitlementTemplate (g : Grant) (claimCode : String) : Option EntitlementTemplate :=
  g.entitlementTemplates.find? (·.claimCode = claimCode)

/-- `claimApprovalTransitionFor`. -/
def Grant.claimApprovalTransitionFor (g : Grant) (position : Position) : Option Position :=
  g.onClaimApproval.bind fun o ↦
    if o.currentPosition = position then some o.targetPosition else none

/-- `findStatusDefinition`. -/
def Grant.findStatusDefinition (g : Grant) (target : Position) : Option StatusDefinition := do
  let phase ← g.phases.find? (·.code = target.phase)
  let stage ← phase.stages.find? (·.code = target.stage)
  stage.statuses.find? (·.code = target.status)

/-- `isValidTransition`: the processes of a valid transition. -/
def Grant.isValidTransition (g : Grant) (target : Position) (current : String) :
    Option (List String) :=
  (g.findStatusDefinition target).bind fun d ↦
    if d.validFrom.isEmpty then some d.processes
    else (d.validFrom.find? (·.matchesPosition current)).map (·.processes)

/-- `#findExternalStatusMapping`; an empty `mappedTo` maps to nothing. -/
def Grant.findExternalStatusMapping (g : Grant) (position : Position)
    (externalRequestedState source : String) : Option String := do
  let phase ← g.externalStatusMap.find? (·.code = position.phase)
  let stage ← phase.stages.find? (·.code = position.stage)
  let status ← stage.statuses.find? fun s ↦ s.code = externalRequestedState ∧ s.source = source
  if status.mappedTo = "" then none else some status.mappedTo

/-- `Position.parse`: three parts, or nothing. -/
def Position.parse (value : String) : Option Position :=
  match (value.toList.splitOn ':').map String.ofList with
  | [phase, stage, status] => some ⟨phase, stage, status⟩
  | _ => none

/-- `ExternalStatusMapping.target`. -/
def mappedTarget (mappedTo : String) (position : Position) : Option Position :=
  if "::".toList.isPrefixOf mappedTo.toList then
    some { position with status := String.ofList (mappedTo.toList.drop 2) }
  else if mappedTo.toList.contains ':' then Position.parse mappedTo
  else some { position with status := mappedTo }

/-- `mapExternalStateToInternalState`: the target of a valid mapping. -/
def Grant.mapExternalStateToInternalState (g : Grant) (position : Position)
    (externalRequestedState source : String) : Option Position :=
  (g.findExternalStatusMapping position externalRequestedState source).bind
    (mappedTarget · position)

/-- `EntitlementTemplate.isAvailableAt`. -/
def EntitlementTemplate.isAvailableAt (t : EntitlementTemplate) (position : Position) : Bool :=
  t.availableAt.any (·.matchesPosition position)

/-- `ClaimableEntitlement.#isClaimableAt`. -/
def EntitlementTemplate.isClaimableAt (t : EntitlementTemplate) (position : Position) : Bool :=
  (t.claim.elim [] (·.claimableAt)).any (·.matchesPosition position)

/-- `ClaimableEntitlement.maximumClaims`. -/
def EntitlementTemplate.maximumClaims (t : EntitlementTemplate) : Nat :=
  (t.claim.bind (·.maximumClaims)).getD 1

/-- `ClaimableEntitlement.hasRemainingCapacity`. -/
def EntitlementTemplate.hasRemainingCapacity (t : EntitlementTemplate) (count : Nat) : Bool :=
  count < t.maximumClaims

/-- Why a claim is not accepted. -/
inductive ClaimRefusal
  | wrongPosition
  | maximumClaimsReached
  deriving DecidableEq, Repr

/-- `ClaimableEntitlement.canAcceptClaim`. -/
def EntitlementTemplate.canAcceptClaim (t : EntitlementTemplate) (position : Position)
    (count : Nat) : Except ClaimRefusal Unit :=
  if !t.isClaimableAt position then .error .wrongPosition
  else if !t.hasRemainingCapacity count then .error .maximumClaimsReached
  else .ok ()

/-- The template's claims need approval. -/
def EntitlementTemplate.requiresApproval (t : EntitlementTemplate) : Bool :=
  t.claim.elim false (·.requiresApproval)

/-- A claim that is accepted has room. -/
theorem canAcceptClaim_eq_ok {t : EntitlementTemplate} {position : Position} {count : Nat}
    (h : t.canAcceptClaim position count = .ok ()) : count < t.maximumClaims := by
  unfold EntitlementTemplate.canAcceptClaim at h
  split at h
  · cases h
  · split at h
    · cases h
    · next hcapacity => simpa [EntitlementTemplate.hasRemainingCapacity] using hcapacity

/-- The move after a final claim starts exactly at the configured position. -/
theorem claimApprovalTransitionFor_eq_some {g : Grant} {position target : Position} :
    g.claimApprovalTransitionFor position = some target ↔
      g.onClaimApproval = some ⟨position, target⟩ := by
  unfold Grant.claimApprovalTransitionFor
  cases g.onClaimApproval with
  | none => simp
  | some o =>
    obtain ⟨current, aim⟩ := o
    by_cases h : current = position <;> simp [h]

/-- Valid data supplies input fields only: as many keys as there are input fields, all of
which are among them. -/
theorem mem_inputFieldNames_of_hasValidInputData {t : EntitlementTemplate}
    {submittedData : EntitlementData} (h : t.hasValidInputData submittedData = true)
    {name : String} (hname : name ∈ submittedData.map (·.1)) : name ∈ t.inputFieldNames := by
  simp only [EntitlementTemplate.hasValidInputData, Bool.and_eq_true, decide_eq_true_eq,
    List.all_eq_true, List.any_eq_true] at h
  obtain ⟨⟨hlength, hall⟩, _⟩ := h
  have hnodup : t.inputFieldNames.Nodup :=
    t.fields_nodup.sublist (List.filter_sublist.map _)
  have hsubset : t.inputFieldNames ⊆ submittedData.map (·.1) := by
    intro expected hexpected
    obtain ⟨submitted, hsubmitted, he⟩ := hall expected hexpected
    exact List.mem_map.mpr ⟨submitted, hsubmitted, he⟩
  have hperm : t.inputFieldNames.Perm (submittedData.map (·.1)) :=
    (hnodup.subperm hsubset).perm_of_length_le (by simp [hlength])
  exact hperm.mem_iff.mpr hname

end FgGas.Grants
