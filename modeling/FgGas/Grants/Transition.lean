import FgGas.Grants.Application
import FgGas.Store.Sound

/-!
# Moving an application

`transitionApplicationUseCase` and the processes a transition runs
(`src/grants/use-cases/transition-application.use-case.js` and the use cases it names), over
what is stored of one application: its document, its entitlements and claims, and the outbox
rows of its publications and of its audit events. The validators of the event models, the
clock and the ids drawn are outside answers. The failure audits that a refused attempt writes
outside its transaction are left out.
-/

namespace FgGas.Grants

open Store

/-- What is published about an application. Event ids and topics are left out. -/
inductive Publication
  | updateCaseSupplementaryData (caseRef workflowCode gasClaimId clientClaimRef claimCode
      entitlementId sbi : String) (claimAmountPence : Nat) (status submittedAt : String)
  | applicationStatusUpdated (clientRef grantCode : String)
      (currentConfigVersion : Option String) (previousStatus currentStatus : String)
  | updateCaseStatus (caseRef workflowCode newStatus : String)
      (currentConfigVersion : Option String) (phase stage : String)
      (agreement : Option ApplicationAgreement)
  | updateAgreementStatus (clientRef code status agreementNumber : String)
  | createAgreement (clientRef code : String) (currentConfigVersion : Option String)
  | claimPaymentRequested (code clientRef clientClaimRef entitlementId configVersion
      agreementNumber : String) (agreementVersion : Nat) (correlationId executedAt sbi frn : String)
      (totalAmountPence : Nat)
  deriving DecidableEq, Repr

/-- `auditEntities`, those of this module. -/
inductive AuditEntity
  | application
  | agreement
  | claim
  | entitlement
  deriving DecidableEq, Repr

/-- `auditActions`, those of this module. -/
inductive AuditAction
  | submit
  | create
  | update
  | statusTransition
  | withdrawApplication
  | createAgreement
  | addAgreement
  | acceptAgreement
  | cancelAgreement
  | withdrawAgreement
  | requestAgreementCancellation
  | requestAgreementTermination
  | applyAgreementTermination
  deriving DecidableEq, Repr

/-- An audit event of an action that succeeded. -/
structure Audit where
  entity : AuditEntity
  action : AuditAction
  entityid : String
  details : List (String × String)
  deriving DecidableEq, Repr

/-- What is stored of one application. -/
structure GrantStore where
  application : ApplicationDocument
  entitlements : List Entitlement
  claims : List Claim
  outbox : List Publication
  audits : List Audit
  deriving DecidableEq, Repr

/-- The application's document, and the unique index entries of claims and entitlements. -/
inductive GrantKey
  | application
  | claimId (id : String)
  | clientClaimRef (code clientRef clientClaimRef : String)
  | entitlementId (id : String)
  | entitlementSlot (claimCode : String) (instanceNumber : Nat)
  deriving DecidableEq, Repr

/-- The unique indexes. -/
inductive GrantIndex
  | claimId
  | clientClaimRef
  deriving DecidableEq, Repr

/-- Why the creation of an entitlement is tried again. -/
inductive RetryReason
  | slotTaken
  | configChanged
  deriving DecidableEq, Repr

/-- What is thrown: a Boom error of a kind, a plain error, a duplicate key, or one of the two
errors that ask for another attempt. -/
inductive GrantFailure
  | notFound (text : String)
  | badRequest (text : String)
  | conflict (text : String)
  | badData (text : String)
  | badImplementation (text : String)
  | forbidden (text : String)
  | error (text : String)
  | duplicateKey (index : GrantIndex)
  | retryClaimSubmission
  | retryCreation (reason : RetryReason)
  deriving DecidableEq, Repr

/-- The agreement a claim's payment is reported against. -/
structure AgreementReference where
  agreementNumber : String
  version : Nat
  correlationId : String
  deriving DecidableEq, Repr

/-- An answer of the world: the moment of the configuration catalogue a lookup finds, the
clock, what a validator or a service throws, an id, the agreement of the application, and the
data an entitlement's fixed fields resolve to. -/
structure GrantOutside where
  moment : Nat
  now : String
  refused : Option GrantFailure
  id : String
  agreement : Option AgreementReference
  fixedData : EntitlementData

/-- What submitting a claim comes to. -/
structure ClaimResult where
  created : Bool
  claimId : Option String
  deriving DecidableEq, Repr

/-- How a request of this development succeeds. -/
inductive GrantOutcome
  | claim (result : ClaimResult)
  | entitlement (entitlement : Entitlement)
  | applied
  deriving DecidableEq, Repr

/-- The sessions on one application. -/
abbrev GrantSession := Session GrantKey GrantStore GrantOutside GrantFailure

/-- The use cases on one application. The note of a callback is the application it has read
before its session, where it has. -/
abbrev GrantUseCase := UseCase GrantKey GrantStore GrantOutside GrantFailure (Option Application)
  GrantOutcome (Except GrantFailure GrantOutcome)

/-- The callbacks of their transactions. -/
abbrev GrantCallback := Callback GrantKey GrantStore GrantOutside GrantFailure
  (Option Application) GrantOutcome

/-- The configuration catalogue at one moment: the grant an application on a pinned version
currently uses, with the version it resolves to, and the versions with a payment definition. -/
structure Catalogue where
  currentGrant : Option String → Except GrantFailure (Option Grant × Option String)
  paymentDefined : String → Bool

/-- What a service or a validator throws at this point, if anything. -/
def GrantOutside.check (outside : GrantOutside) : Except GrantFailure Unit :=
  match outside.refused with
  | some failure => .error failure
  | none => .ok ()

/-- `findByClientRefAndCode`. -/
def findByClientRefAndCode (clientRef code : String) (s : GrantStore) : Option Application :=
  if s.application.application.clientRef = clientRef ∧ s.application.application.code = code then
    some s.application.application
  else none

/-- What keeps `update` from modifying a document: there is none, or it is stored so already. -/
def unmodified (a : Application) (s : GrantStore) : Option GrantFailure :=
  if findByClientRefAndCode a.clientRef a.code s = none ∨ s.application.application = a then
    some (.notFound ("Failed to update application with clientRef \"" ++ a.clientRef ++
      "\" and code \"" ++ a.code ++ "\""))
  else none

/-- The store with the whole document saved; the lock field is not part of it. -/
def GrantStore.save (s : GrantStore) (a : Application) : GrantStore :=
  { s with application.application := a }

/-- `update`. -/
def update (a : Application) : GrantSession Unit :=
  .insert (unmodified a) [.application] (·.save a)

/-- `lockForUpdate`: the document is counted up, and returned. -/
def lockForUpdate (clientRef code : String) : GrantSession (Option Application) :=
  .op (fun s ↦ if (findByClientRefAndCode clientRef code s).isSome then
      ⟨[.application], fun s ↦ { s with
        application.claimSubmissionLockVersion := s.application.claimSubmissionLockVersion + 1 }⟩
    else .none) fun s ↦ .done (findByClientRefAndCode clientRef code s)

/-- `findExistingEntitlements`. -/
def findExistingEntitlements (clientRef code : String) (s : GrantStore) : List Entitlement :=
  s.entitlements.filter fun e ↦ e.clientRef = clientRef ∧ e.code = code

/-- `countByEntitlement`. -/
def countByEntitlement (code clientRef entitlementId : String) (s : GrantStore) : Nat :=
  s.claims.countP fun c ↦ c.code = code ∧ c.clientRef = clientRef ∧
    c.entitlementId = entitlementId

/-- `existsByClientClaimRef`. -/
def existsByClientClaimRef (code clientRef clientClaimRef : String) (s : GrantStore) : Bool :=
  s.claims.any fun c ↦ c.code = code ∧ c.clientRef = clientRef ∧
    c.clientClaimRef = clientClaimRef

/-- `saveEvents`. -/
def saveEvents (publications : List Publication) : GrantSession Unit := do
  let outside ← Session.outside
  Session.orThrow outside.check
  Session.write [] fun s ↦ { s with outbox := s.outbox ++ publications }

/-- `writeAuditEvent` in a session. -/
def writeAuditEvent (audit : Audit) : GrantSession Unit := do
  let outside ← Session.outside
  Session.orThrow outside.check
  Session.write [] fun s ↦ { s with audits := s.audits ++ [audit] }

/-- The event data of a status message. -/
structure EventData where
  agreementNumber : String
  date : String
  startDate : Option String
  endDate : Option String
  deriving DecidableEq, Repr

/-- What the processes of a transition are given. -/
structure SideEffectContext where
  clientRef : String
  code : String
  eventData : Option EventData
  deriving DecidableEq, Repr

/-- The application a process works on. -/
def applicationOf (c : SideEffectContext) : GrantSession Application := do
  let found ← Session.read (findByClientRefAndCode c.clientRef c.code)
  Session.orThrow (found.elim (.error (.error "Cannot read properties of null")) .ok)

/-- The event data of the context; destructuring `undefined` throws. -/
def eventDataOf (c : SideEffectContext) : GrantSession EventData :=
  Session.orThrow (c.eventData.elim (.error (.error "Cannot destructure undefined")) .ok)

/-- `createAgreementCommandUseCase`. -/
def createAgreementCommand (c : SideEffectContext) : GrantSession Unit := do
  let application ← applicationOf c
  saveEvents [.createAgreement application.clientRef application.code
    application.currentConfigVersion]
  writeAuditEvent ⟨.application, .createAgreement, c.clientRef,
    [("clientRef", c.clientRef), ("code", c.code)]⟩

/-- `withdrawApplicationUseCase`. -/
def withdrawApplication (c : SideEffectContext) : GrantSession Unit := do
  let application ← applicationOf c
  match application.activeAgreement with
  | some agreement =>
    saveEvents [.updateAgreementStatus c.clientRef c.code "withdrawn" agreement.agreementRef]
  | none => do
    let outside ← Session.outside
    let withdrawn := application.withdraw outside.now
    update withdrawn
    saveEvents
      [.updateCaseStatus c.clientRef c.code withdrawn.fullyQualifiedStatus
          withdrawn.currentConfigVersion application.position.phase application.position.stage none,
        .applicationStatusUpdated c.clientRef c.code withdrawn.currentConfigVersion
          application.fullyQualifiedStatus withdrawn.fullyQualifiedStatus]
  writeAuditEvent ⟨.application, .withdrawApplication, c.clientRef,
    [("clientRef", c.clientRef), ("code", c.code)]⟩

/-- What `requestAgreementCancellationUseCase` and `requestAgreementTerminationUseCase`
share: a command for the agreement they find, with an audit event, or nothing. -/
def requestAgreementStatus (c : SideEffectContext) (found : Option ApplicationAgreement)
    (status : String) (action : AuditAction) : GrantSession Unit :=
  match found with
  | none => pure ()
  | some agreement => do
    saveEvents [.updateAgreementStatus c.clientRef c.code status agreement.agreementRef]
    writeAuditEvent ⟨.agreement, action, agreement.agreementRef,
      [("clientRef", c.clientRef), ("code", c.code),
        ("agreementNumber", agreement.agreementRef)]⟩

/-- `requestAgreementCancellationUseCase`. Without the application there is nothing to cancel. -/
def requestAgreementCancellation (c : SideEffectContext) : GrantSession Unit := do
  let application ← Session.read (findByClientRefAndCode c.clientRef c.code)
  requestAgreementStatus c (application.bind Application.activeAgreement) "cancelled"
    .requestAgreementCancellation

/-- `requestAgreementTerminationUseCase`. -/
def requestAgreementTermination (c : SideEffectContext) : GrantSession Unit := do
  let application ← applicationOf c
  requestAgreementStatus c application.acceptedAgreement "terminated" .requestAgreementTermination

/-- What the processes that store a change of an agreement share. -/
def storeAgreement (c : SideEffectContext) (action : AuditAction)
    (change : Application → EventData → String → Except GrantFailure Application) :
    GrantSession Unit := do
  let data ← eventDataOf c
  let application ← applicationOf c
  let outside ← Session.outside
  let changed ← Session.orThrow (change application data outside.now)
  update changed
  saveEvents [.updateCaseStatus c.clientRef c.code changed.fullyQualifiedStatus
    changed.currentConfigVersion changed.position.phase changed.position.stage
    (changed.agreement data.agreementNumber)]
  writeAuditEvent ⟨.agreement, action, data.agreementNumber,
    [("clientRef", c.clientRef), ("code", c.code)]⟩

/-- The change `addAgreementUseCase` makes. -/
def addedAgreement (a : Application) (data : EventData) (now : String) :
    Except GrantFailure Application :=
  (a.addAgreement (.new data.agreementNumber data.date now) now).mapError .conflict

/-- The change `acceptAgreementUseCase` makes. -/
def acceptedAgreement (a : Application) (data : EventData) (now : String) :
    Except GrantFailure Application :=
  (a.changeAgreement data.agreementNumber
    (·.accept data.startDate data.endDate (some data.date) now) now).mapError .badData

/-- The change `cancelAgreementUseCase` makes. -/
def cancelledAgreement (a : Application) (data : EventData) (now : String) :
    Except GrantFailure Application :=
  (a.changeAgreement data.agreementNumber (·.cancel data.date now) now).mapError .badData

/-- The change `withdrawAgreementUseCase` makes: on the agreement itself, so that the
application keeps its `updatedAt`. -/
def withdrawnAgreement (a : Application) (data : EventData) (now : String) :
    Except GrantFailure Application :=
  if (a.agreement data.agreementNumber).isNone then .error (.error "Cannot read properties of null")
  else .ok (a.withAgreement data.agreementNumber (·.withdraw now now))

/-- The change `applyAgreementTerminationUseCase` makes. -/
def terminatedAgreement (a : Application) (data : EventData) (now : String) :
    Except GrantFailure Application :=
  (a.changeAgreement data.agreementNumber (·.terminate data.date now) now).mapError .badData

/-- The processes a transition can run. -/
inductive GrantProcess
  | generateOffer
  | storeAgreementCase
  | acceptAgreement
  | cancelAgreement
  | requestApplicationWithdrawal
  | requestAgreementCancellation
  | withdrawAgreement
  | requestAgreementTermination
  | applyAgreementTermination
  deriving DecidableEq, Repr

/-- The keys of `grantProcesses`. -/
def GrantProcess.named : String → Option GrantProcess
  | "GENERATE_OFFER" => some .generateOffer
  | "STORE_AGREEMENT_CASE" => some .storeAgreementCase
  | "ACCEPT_AGREEMENT" => some .acceptAgreement
  | "CANCEL_AGREEMENT" => some .cancelAgreement
  | "REQUEST_APPLICATION_WITHDRAWAL" => some .requestApplicationWithdrawal
  | "REQUEST_AGREEMENT_CANCELLATION" => some .requestAgreementCancellation
  | "WITHDRAW_AGREEMENT" => some .withdrawAgreement
  | "REQUEST_AGREEMENT_TERMINATION" => some .requestAgreementTermination
  | "APPLY_AGREEMENT_TERMINATION" => some .applyAgreementTermination
  | _ => none

/-- The handlers of `grantProcesses`. -/
def GrantProcess.handle (c : SideEffectContext) : GrantProcess → GrantSession Unit
  | .generateOffer => createAgreementCommand c
  | .storeAgreementCase => storeAgreement c .addAgreement addedAgreement
  | .acceptAgreement => storeAgreement c .acceptAgreement acceptedAgreement
  | .cancelAgreement => storeAgreement c .cancelAgreement cancelledAgreement
  | .requestApplicationWithdrawal => withdrawApplication c
  | .requestAgreementCancellation => FgGas.Grants.requestAgreementCancellation c
  | .withdrawAgreement => storeAgreement c .withdrawAgreement withdrawnAgreement
  | .requestAgreementTermination => FgGas.Grants.requestAgreementTermination c
  | .applyAgreementTermination =>
      storeAgreement c .applyAgreementTermination terminatedAgreement

/-- `runTransitionProcesses`; a process with no handler is skipped. -/
def runTransitionProcesses (c : SideEffectContext) : List GrantProcess → GrantSession Unit
  | [] => pure ()
  | process :: processes => do
    process.handle c
    runTransitionProcesses c processes

/-- `createStatusTransitionUpdateUseCase`. -/
def publishStatusTransition (application : Application) (previous next : String) :
    GrantSession Unit := do
  saveEvents [.applicationStatusUpdated application.clientRef application.code
    application.currentConfigVersion previous next]
  writeAuditEvent ⟨.application, .statusTransition, application.clientRef,
    [("code", application.code), ("fromStatus", previous), ("toStatus", next),
      ("entityIdKey", "clientRef")]⟩

/-- `publishCaseWorkingUpdateIfRequested`. -/
def publishCaseWorkingUpdate (requested : Bool) (application : Application)
    (previousPosition : Position) (newStatus : String) : GrantSession Unit :=
  if requested then
    saveEvents [.updateCaseStatus application.clientRef application.code newStatus
      application.currentConfigVersion previousPosition.phase previousPosition.stage none]
  else pure ()

/-- The options of `transitionApplicationUseCase`. -/
structure Transition where
  application : Application
  grant : Grant
  targetPosition : Position
  sideEffectContext : SideEffectContext
  publishCaseWorkingStatusUpdate : Bool

/-- `transitionApplicationUseCase`. -/
def transitionApplication (t : Transition) : GrantSession Unit := do
  let outside ← Session.outside
  match t.application.moveTo t.targetPosition t.grant outside.now with
  | .refused text => Session.orThrow (.error (.badRequest text))
  | .unchanged => pure ()
  | .changed moved processes => do
    update moved
    publishStatusTransition t.application t.application.fullyQualifiedStatus
      moved.fullyQualifiedStatus
    publishCaseWorkingUpdate t.publishCaseWorkingStatusUpdate moved t.application.position
      moved.fullyQualifiedStatus
    runTransitionProcesses t.sideEffectContext (processes.filterMap GrantProcess.named)

end FgGas.Grants
