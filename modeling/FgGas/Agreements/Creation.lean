import FgGas.Agreements.Agreement
import FgGas.Store.Returns
import FgGas.Store.Sound

/-!
# Creating an agreement

`createAgreementUseCase` (`src/agreements/use-cases/create-agreement.use-case.js`) over the
agreements, their versions and what the outbox holds of them. The definition is loaded and
run at most once in a call, so what it gives is part of the call; a value the call draws
again for every attempt, and the validators of the event models, are outside answers.
-/

namespace FgGas.Agreements.Creation

open Store

/-- The agreements and the versions in the order of their inserts, the publications and the
audit events. -/
structure CreationStore (V : Type) where
  agreements : List (Agreement V)
  versions : List (AgreementVersion V)
  outbox : List (Publication V)
  audits : List AgreementAudit
  deriving DecidableEq, Repr

/-- The unique index entries of the agreements and the versions. -/
inductive CreationKey
  | agreementNumber (agreementNumber : String)
  | sourceIdentity (code clientRef : String)
  | version (agreementNumber : String) (version : Nat)
  deriving DecidableEq, Repr

/-- The unique indexes: `_id` and `{ code, clientRef }` of the agreements, and
`{ agreementNumber, version }` of the versions. -/
inductive CreationIndex
  | agreementNumber
  | sourceIdentity
  | version
  deriving DecidableEq, Repr

/-- What a creation may throw. -/
inductive CreationFailure
  | badImplementation (text : String)
  | error (text : String)
  | duplicateKey (index : CreationIndex)
  deriving DecidableEq, Repr

/-- The creation input; what else it carries is the definition's to read. -/
structure CreationInput where
  code : String
  clientRef : String
  currentConfigVersion : String
  sbi : String
  deriving DecidableEq, Repr

/-- A loaded definition, with what its mappings and processes make of the input. -/
structure Definition (V : Type) where
  code : String
  configVersion : String
  agreementNumberPrefix : String
  target : String
  values : Except String V

/-- The execution of a creation. -/
structure Execution where
  correlationId : String
  executedAt : String
  deriving DecidableEq, Repr

/-- A call, with what loading and running the definition gives in it. -/
structure CreationRequest (V : Type) where
  input : CreationInput
  definition : Except String (Definition V)
  execution : Execution
  suffix : Nat

/-- What an attempt takes from the world: whether its events are built, whether their rows and the
audit event are valid, and the number drawn after it. -/
structure CreationOutside where
  events : Except String Unit
  publications : Except String Unit
  audit : Except String Unit
  suffix : Nat

variable {V : Type}

/-- The sessions of this module. -/
abbrev CreationSession (V : Type) :=
  Session CreationKey (CreationStore V) CreationOutside CreationFailure

/-- The result of a call: the agreement, or the `null` of a read that found none. -/
abbrev Created (V : Type) := Except CreationFailure (Option (Agreement V))

/-- The use cases of this module. -/
abbrev CreationUseCase (V : Type) :=
  UseCase CreationKey (CreationStore V) CreationOutside CreationFailure Unit (Agreement V)
    (Created V)

/-- `findAgreementBySourceIdentity`. -/
def findAgreementBySourceIdentity (code clientRef : String) (s : CreationStore V) :
    Option (Agreement V) :=
  s.agreements.find? fun a ↦ a.code = code ∧ a.clientRef = clientRef

/-- The unique index of the agreements a new one would violate. -/
def violatedByAgreement (a : Agreement V) (s : CreationStore V) : Option CreationFailure :=
  if s.agreements.any (·.agreementNumber = a.agreementNumber) then
    some (.duplicateKey .agreementNumber)
  else if s.agreements.any fun b ↦ b.code = a.code ∧ b.clientRef = a.clientRef then
    some (.duplicateKey .sourceIdentity)
  else none

/-- `insertCurrentAgreement`. -/
def insertCurrentAgreement (a : Agreement V) : CreationSession V Unit :=
  .insert (violatedByAgreement a) [.agreementNumber a.agreementNumber,
    .sourceIdentity a.code a.clientRef] fun s ↦ { s with agreements := s.agreements ++ [a] }

/-- The unique index of the versions a new one would violate. -/
def violatedByVersion (v : AgreementVersion V) (s : CreationStore V) : Option CreationFailure :=
  if s.versions.any fun w ↦ w.agreementNumber = v.agreementNumber ∧ w.version = v.version then
    some (.duplicateKey .version)
  else none

/-- `insertAgreementVersion`. -/
def insertAgreementVersion (v : AgreementVersion V) : CreationSession V Unit :=
  .insert (violatedByVersion v) [.version v.agreementNumber v.version] fun s ↦
    { s with versions := s.versions ++ [v] }

/-- `saveEvents`, unless building a row threw. -/
def saveEvents (built : Except String Unit) (publications : List (Publication V)) :
    CreationSession V Unit := do
  Session.orThrow (built.mapError .error)
  Session.write [] fun s ↦ { s with outbox := s.outbox ++ publications }

/-- `writeAuditEvent` in a session, unless the event is not valid. -/
def writeAuditEvent (validated : Except String Unit) (audit : AgreementAudit) :
    CreationSession V Unit := do
  Session.orThrow (validated.mapError .error)
  Session.write [] fun s ↦ { s with audits := s.audits ++ [audit] }

/-- The `outboundEvents` of a creation. -/
def creationPublications (a : Agreement V) : List (Publication V) :=
  [createLifecyclePublication a, createAgreementCreatedReportingPublication a,
    createAgreementStatusChangedReportingPublication a]

/-- The transaction of `persistAgreement`; the events are built before it. -/
def persistAgreement (a : Agreement V) : CreationSession V (Agreement V) := do
  insertCurrentAgreement a
  insertAgreementVersion (AgreementVersion.create a a.createdAt)
  let outside ← Session.outside
  saveEvents outside.publications (creationPublications a)
  writeAuditEvent outside.audit (buildAgreementCreationAudit a)
  pure a

/-- `generateAgreementNumber` with the suffix it draws. -/
def generateAgreementNumber (agreementNumberPrefix : String) (suffix : Nat) :
    Except CreationFailure String :=
  if agreementNumberPrefix = "" then .error (.error "Agreement number prefix is required")
  else .ok (agreementNumberPrefix ++ toString suffix)

/-- `AgreementDefinition.createAgreement`, as `compileAgreementCreation` compiles it. -/
def Definition.createAgreement (definition : Definition V) (input : CreationInput)
    (execution : Execution) (suffix : Nat) : Except CreationFailure (Agreement V) :=
  if input.code ≠ definition.code then
    .error (.badImplementation ("Agreement Creation Input code \"" ++ input.code ++
      "\" does not match Agreement Definition \"" ++ definition.code ++ "\""))
  else if execution.correlationId = "" then
    .error (.badImplementation "Agreement creation requires an Agreement Correlation ID")
  else do
    let values ← definition.values.mapError .error
    let agreementNumber ← generateAgreementNumber definition.agreementNumberPrefix suffix
    pure (Agreement.create agreementNumber definition.code input.clientRef
      definition.configVersion execution.correlationId input.sbi values definition.target
      execution.executedAt)

/-- `isAgreementNumberConflict`. -/
def isAgreementNumberConflict : CreationFailure → Bool
  | .duplicateKey .agreementNumber => true
  | _ => false

/-- `isSourceIdentityConflict`. -/
def isSourceIdentityConflict : CreationFailure → Bool
  | .duplicateKey .sourceIdentity => true
  | _ => false

/-- `MAX_AGREEMENT_NUMBER_ATTEMPTS`. -/
def maxAgreementNumberAttempts : Nat := 5

/-- `agreementNumberExhaustedError`. -/
def agreementNumberExhaustedError : CreationFailure :=
  .badImplementation ("Could not generate a unique agreement number after " ++
    toString maxAgreementNumberAttempts ++ " attempts")

/-- The loop of `persistWithAgreementNumberRetry` with the attempts it has left, going on
with `k`. -/
def persistWithAgreementNumberRetry (definition : Definition V)
    (k : Except CreationFailure (Agreement V) → CreationUseCase V) :
    Nat → Agreement V → CreationUseCase V
  | 0, _ => k (.error agreementNumberExhaustedError)
  | attempts + 1, candidate =>
    .ask fun outside ↦
      match outside.events with
      | .error text => k (.error (.error text))
      | .ok () => .withTransaction (.body () (persistAgreement candidate)) fun
        | .ok a => k (.ok a)
        | .error error =>
          if !isAgreementNumberConflict error then k (.error error)
          else .ask fun outside ↦
            match generateAgreementNumber definition.agreementNumberPrefix outside.suffix with
            | .error error => k (.error error)
            | .ok agreementNumber => persistWithAgreementNumberRetry definition k attempts
                (candidate.withAgreementNumber agreementNumber)

/-- The agreement a call builds before it stores anything. -/
def CreationRequest.agreement (request : CreationRequest V) :
    Except CreationFailure (Definition V × Agreement V) := do
  let definition ← request.definition.mapError .error
  let agreement ← definition.createAgreement request.input request.execution request.suffix
  pure (definition, agreement)

/-- `createAgreement`, going on with `k`. -/
def createAgreement (request : CreationRequest V)
    (k : Except CreationFailure (Agreement V) → CreationUseCase V) : CreationUseCase V :=
  .look false fun s ↦
    match findAgreementBySourceIdentity request.input.code request.input.clientRef s with
    | some existing => k (.ok existing)
    | none =>
      match request.agreement with
      | .error error => k (.error error)
      | .ok (definition, agreement) =>
        persistWithAgreementNumberRetry definition k maxAgreementNumberAttempts agreement

/-- The `catch` of `createAgreementUseCase`. -/
def recoverAgreement (input : CreationInput) : Except CreationFailure (Agreement V) →
    CreationUseCase V
  | .ok agreement => .ret (.ok (some agreement))
  | .error error =>
    if !isSourceIdentityConflict error then .ret (.error error)
    else .look false fun s ↦
      .ret (.ok (findAgreementBySourceIdentity input.code input.clientRef s))

/-- `createAgreementUseCase`. -/
def CreationRequest.create (request : CreationRequest V) : CreationUseCase V :=
  createAgreement request (recoverAgreement request.input)

end FgGas.Agreements.Creation
