import FgGas.Grants.Lifecycle
import FgGas.Machine.Guards

/-!
# Publishing a grant definition

`Grant.fromDefinition` and the checks it runs: the schema of what is modelled, the `Grant`
constructor's own, and those of `GrantLifecycle`, `Phase`, `Stage`, `Status`,
`ExternalStatusMap` and the amendable positions (`src/grants/models/grant.js`,
`src/grants/models/grant-lifecycle.js`, `src/grants/models/phase.js`,
`src/grants/models/stage.js`, `src/grants/models/status.js`,
`src/grants/models/unique-codes.js`). The messages Joi lists, and what the schema asks of data
no lookup reads, are left out.
-/

namespace FgGas.Grants

open Machine

/-- A phase of a definition, with the questions its answers are held to. -/
structure DefinitionPhase (Q : Type) where
  code : String
  stages : List Stage
  questions : Option Q

/-- A published grant definition. -/
structure GrantDefinition (Q : Type) where
  code : String
  phases : List (DefinitionPhase Q)
  externalStatusMap : List ExternalPhase
  amendablePositions : List String
  entitlementTemplates : List EntitlementTemplate
  onClaimApproval : Option OnClaimApproval

/-- What a definition is checked with. -/
structure Dependencies (Q : Type) where
  isKnownProcess : String → Bool
  compileQuestions : Q → Except String Unit

/-- The grant the constructor builds. -/
def GrantDefinition.grant {Q : Type} (d : GrantDefinition Q) : Grant where
  code := d.code
  phases := d.phases.map fun phase ↦ ⟨phase.code, phase.stages⟩
  externalStatusMap := d.externalStatusMap
  entitlementTemplates := d.entitlementTemplates
  onClaimApproval := d.onClaimApproval

/-- The schema's `templatePosition`: a status needs its stage. -/
def TemplatePosition.wellFormed (p : TemplatePosition) : Bool :=
  p.phase ≠ "" && p.stage.all (· ≠ "") && p.status.all (· ≠ "") &&
    (p.status.isNone || p.stage.isSome)

/-- The schema's `entitlementTemplate`. -/
def EntitlementTemplate.wellFormed (t : EntitlementTemplate) : Bool :=
  t.claimCode ≠ "" && t.name ≠ "" && 1 ≤ t.maxEntitlements && !t.availableAt.isEmpty &&
    t.availableAt.all TemplatePosition.wellFormed &&
    t.claim.all (fun claim ↦ claim.claimableAt.all TemplatePosition.wellFormed &&
      claim.maximumClaims.all (1 ≤ ·)) &&
    (t.materialised || t.fields.any (·.input))

/-- The schema's `claimPosition`. -/
def Position.wellFormed (p : Position) : Bool := p.phase ≠ "" && p.stage ≠ "" && p.status ≠ ""

/-- The schema's pattern `^[a-z0-9-]+$` of a grant code. -/
def validGrantCode (code : String) : Bool :=
  code ≠ "" && code.toList.all fun c ↦ ('a' ≤ c && c ≤ 'z') || ('0' ≤ c && c ≤ '9') || c = '-'

/-- `grantDefinition`. -/
def GrantDefinition.matchesSchema {Q : Type} (d : GrantDefinition Q) : Bool :=
  validGrantCode d.code && d.grant.storedLifecycle && d.amendablePositions.all (· ≠ "") &&
    d.entitlementTemplates.all EntitlementTemplate.wellFormed &&
    (d.entitlementTemplates.map (·.claimCode)).Nodup &&
    d.onClaimApproval.all fun o ↦ o.currentPosition.wellFormed && o.targetPosition.wellFormed

/-! ### The constructor's checks -/

/-- `formatPosition`. -/
def TemplatePosition.format (p : TemplatePosition) : String :=
  p.phase ++ p.stage.elim "" (":" ++ ·) ++ p.status.elim "" (":" ++ ·)

/-- `#positionExists`: the parts the position declares. -/
def Grant.positionExists (g : Grant) (position : TemplatePosition) : Bool :=
  let foundPhase := g.phases.find? (·.code = position.phase)
  let foundStage := foundPhase.bind fun phase ↦ position.stage.bind fun code ↦
    phase.stages.find? (·.code = code)
  let foundStatus := foundStage.bind fun stage ↦ position.status.bind fun code ↦
    stage.statuses.find? (·.code = code)
  if position.status.isSome then foundStatus.isSome
  else if position.stage.isSome then foundStage.isSome
  else foundPhase.isSome

/-- A position with all its parts. -/
def Position.toTemplatePosition (p : Position) : TemplatePosition :=
  ⟨p.phase, some p.stage, some p.status⟩

/-- What JavaScript's `trim` removes. -/
def isTrimmed (c : Char) : Bool :=
  c.toNat ∈ [9, 10, 11, 12, 13, 32, 160, 5760, 8232, 8233, 8239, 8287, 12288, 65279] ||
    (8192 ≤ c.toNat && c.toNat ≤ 8202)

/-- `isNonEmptyString`. -/
def isNonEmptyString (value : String) : Bool := value.toList.any fun c ↦ !isTrimmed c

/-- `#assertEntitlementTemplateClaimCodesUnique`. -/
def Grant.assertClaimCodesUnique (g : Grant) : Except String Unit :=
  match firstRepeated [] (g.entitlementTemplates.map (·.claimCode)) with
  | none => .ok ()
  | some claimCode =>
      .error ("Duplicate entitlement template claim code \"" ++ claimCode ++ "\"")

/-- `#assertPositionsExist`. -/
def Grant.assertPositionsExist (g : Grant) (claimCode relation : String)
    (positions : List TemplatePosition) : Except String Unit :=
  positions.forM fun position ↦ require (g.positionExists position)
    ("Entitlement template \"" ++ claimCode ++ "\" is " ++ relation ++ " position \"" ++
      position.format ++ "\" which does not match any position in \"phases\"")

/-- `#assertTemplatePositionsExist`. -/
def Grant.assertTemplatePositionsExist (g : Grant) (t : EntitlementTemplate) :
    Except String Unit := do
  g.assertPositionsExist t.claimCode "available at" t.availableAt
  g.assertPositionsExist t.claimCode "claimable at" (t.claim.elim [] (·.claimableAt))

/-- `#assertClaimApprovalPositionComplete`, of one part. -/
def Grant.assertPartNonEmpty (g : Grant) (label part value : String) : Except String Unit :=
  require (isNonEmptyString value) ("Grant \"" ++ g.code ++ "\" claims.onClaimApproval." ++
    label ++ "." ++ part ++ " must be a non-empty string")

/-- `#assertClaimApprovalPositionExists`. -/
def Grant.assertClaimApprovalPositionExists (g : Grant) (label : String) (position : Position) :
    Except String Unit := do
  g.assertPartNonEmpty label "phase" position.phase
  g.assertPartNonEmpty label "stage" position.stage
  g.assertPartNonEmpty label "status" position.status
  require (g.positionExists position.toTemplatePosition)
    ("Grant \"" ++ g.code ++ "\" claims.onClaimApproval." ++ label ++ " \"" ++
      position.fullyQualified ++ "\" does not match any position in \"phases\"")

/-- `#assertClaimApprovalTransitionValid`: the positions are compared as written. -/
def Grant.assertClaimApprovalTransitionValid (g : Grant) (o : OnClaimApproval) :
    Except String Unit :=
  let current := o.currentPosition.fullyQualified
  let target := o.targetPosition.fullyQualified
  if current = target then .ok ()
  else require (g.isValidTransition o.targetPosition current).isSome
    ("Grant \"" ++ g.code ++ "\" claims.onClaimApproval target position \"" ++ target ++
      "\" is not a valid transition from \"" ++ current ++ "\"")

/-- `#assertClaimApprovalPositionsExist`. -/
def Grant.assertClaimApprovalPositionsExist (g : Grant) : Except String Unit :=
  match g.onClaimApproval with
  | none => .ok ()
  | some o => do
      g.assertClaimApprovalPositionExists "currentPosition" o.currentPosition
      g.assertClaimApprovalPositionExists "targetPosition" o.targetPosition
      g.assertClaimApprovalTransitionValid o

/-- The checks of the `Grant` constructor. -/
def Grant.assertConstructible (g : Grant) : Except String Unit := do
  g.assertClaimCodesUnique
  g.entitlementTemplates.forM g.assertTemplatePositionsExist
  g.assertClaimApprovalPositionsExist

/-! ### What a published definition is held to besides -/

/-- `assertUniqueCodes`. -/
def assertUniqueCodes (codes : List String) (describe : String → String) : Except String Unit :=
  match firstRepeated [] codes with
  | none => .ok ()
  | some code => .error (describe code ++ " is defined more than once")

/-- `#processesOnEntering`. -/
def StatusDefinition.processesOnEntering (status : StatusDefinition) : List String :=
  if status.validFrom.isEmpty then status.processes
  else status.validFrom.flatMap (·.processes)

section
variable {Q : Type} (deps : Dependencies Q)

/-- The checks of the `Status` constructor. -/
def assertStatus (position : Position) (status : StatusDefinition) : Except String Unit := do
  require (status.validFrom.isEmpty || status.processes.isEmpty)
    ("status \"" ++ position.fullyQualified ++ "\" has its own processes, which would never run " ++
      "because it has validFrom")
  match status.processesOnEntering.find? (!deps.isKnownProcess ·) with
  | none => .ok ()
  | some unknown => .error ("status \"" ++ position.fullyQualified ++
      "\" runs unknown process \"" ++ unknown ++ "\"")

/-- The checks of the `Stage` constructor. -/
def assertStage (phaseCode : String) (stage : Stage) : Except String Unit := do
  assertUniqueCodes (stage.statuses.map (·.code)) fun statusCode ↦
    "status \"" ++ phaseCode ++ ":" ++ stage.code ++ ":" ++ statusCode ++ "\""
  stage.statuses.forM fun status ↦ assertStatus deps ⟨phaseCode, stage.code, status.code⟩ status

/-- `#assertQuestionsCompile`. -/
def assertQuestionsCompile (phase : DefinitionPhase Q) : Except String Unit :=
  match phase.questions with
  | none => .ok ()
  | some questions => (deps.compileQuestions questions).mapError fun message ↦
      "phase \"" ++ phase.code ++ "\" questions cannot be compiled: " ++ message

/-- The checks of the `Phase` constructor. -/
def assertPhase (phase : DefinitionPhase Q) : Except String Unit := do
  assertUniqueCodes (phase.stages.map (·.code)) fun stageCode ↦
    "stage \"" ++ phase.code ++ ":" ++ stageCode ++ "\""
  phase.stages.forM (assertStage deps phase.code)
  assertQuestionsCompile deps phase

/-- `#assertInitialPhaseHasQuestions`. -/
def assertInitialPhaseHasQuestions (phases : List (DefinitionPhase Q)) : Except String Unit :=
  match phases with
  | [] => .error "Cannot read properties of undefined"
  | initialPhase :: _ => require initialPhase.questions.isSome
      ("phase \"" ++ initialPhase.code ++ "\" has no questions to validate answers against")

/-- `assertValidFromResolvesIn`, of every status. -/
def Grant.assertValidFromResolves (g : Grant) : Except String Unit :=
  g.phases.forM fun phase ↦ phase.stages.forM fun stage ↦ stage.statuses.forM fun status ↦
    status.validFrom.forM fun entry ↦
      require (g.positions.any (entry.matchesPosition ·.fullyQualified))
        ("status \"" ++ phase.code ++ ":" ++ stage.code ++ ":" ++ status.code ++
          "\" is valid from \"" ++ entry.code ++
          "\" which does not match any position in \"phases\"")

/-- The checks of the `GrantLifecycle` constructor. -/
def assertLifecycle (d : GrantDefinition Q) : Except String Unit := do
  assertUniqueCodes (d.phases.map (·.code)) fun code ↦ "phase \"" ++ code ++ "\""
  d.phases.forM (assertPhase deps)
  assertInitialPhaseHasQuestions d.phases
  d.grant.assertValidFromResolves

/-- `GrantLifecycle.has`. -/
def Grant.has (g : Grant) (position : Option Position) : Bool :=
  g.positions.any fun candidate ↦ some candidate = position

/-- `ExternalStatusMap.assertTargetsExistIn`. -/
def Grant.assertTargetsExist (g : Grant) : Except String Unit :=
  g.mappings.forM fun m ↦ require (g.has m.target)
    (m.entry.source ++ " status \"" ++ m.entry.code ++ "\" at \"" ++ m.phase ++ ":" ++ m.stage ++
      "\" is mapped to \"" ++ m.entry.mappedTo ++
      "\" which does not match any position in \"phases\"")

/-- `#assertAmendablePositionsExistIn`. -/
def Grant.assertAmendablePositionsExist (g : Grant) (amendablePositions : List String) :
    Except String Unit :=
  amendablePositions.forM fun position ↦ require (g.has (Position.parse position))
    ("amendable position \"" ++ position ++ "\" does not match any position in \"phases\"")

/-- `#assertPublishable`. -/
def assertPublishable (d : GrantDefinition Q) : Except String Unit :=
  Except.mapError (fun message ↦ "Grant \"" ++ d.code ++ "\" " ++ message) do
    assertLifecycle deps d
    d.grant.assertTargetsExist
    d.grant.assertAmendablePositionsExist d.amendablePositions

/-- `Grant.fromDefinition`. -/
def fromDefinition (d : GrantDefinition Q) : Except String Grant := do
  require d.matchesSchema ("Invalid grant definition \"" ++ d.code ++ "\"")
  d.grant.assertConstructible
  assertPublishable deps d
  pure d.grant

end

end FgGas.Grants
