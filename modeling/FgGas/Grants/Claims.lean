import Mathlib.Data.List.Sort
import FgGas.Grants.Transition

/-!
# Submitting a claim

`submitClaim` (`src/grants/services/claims.service.js`) with what it reads, checks and stores:
the replay of a claim already made, the application's lock, the entitlement's capacity, the
claim with its audit event and case command, the move after a final claim, and the payment
request.
-/

namespace FgGas.Grants

open Store

/-- The `metadata` of a claim request. -/
structure ClaimMetadata where
  grantCode : String
  clientRef : String
  clientClaimRef : String
  sbi : String
  frn : String
  deriving DecidableEq, Repr

/-- The `claim` of a claim request. -/
structure ClaimDetails where
  entitlementId : String
  totalClaimAmountPence : Nat
  deriving DecidableEq, Repr

/-- A claim request: its path and its payload. -/
structure SubmitCommand where
  code : String
  clientRef : String
  metadata : ClaimMetadata
  claim : ClaimDetails
  deriving DecidableEq, Repr

/-- An entitlement with the template of its claim code. -/
structure ClaimableEntitlement where
  entitlement : Entitlement
  template : EntitlementTemplate

/-- `applicationNotFound` of the claims service, and of the use case that reads it. -/
def applicationNotFound (clientRef code : String) : GrantFailure :=
  .notFound ("Application with clientRef \"" ++ clientRef ++ "\" and code \"" ++ code ++
    "\" not found")

/-- `resolveGrant`. -/
def resolveGrant (catalogue : Catalogue) (code : String) (pinnedVersion : Option String) :
    Except GrantFailure Grant :=
  match catalogue.currentGrant pinnedVersion with
  | .error failure => .error failure
  | .ok (none, _) => .error (.notFound ("Grant with code \"" ++ code ++ "\" not found"))
  | .ok (some grant, _) => .ok grant

/-- `persistedCandidates`. -/
def persistedCandidates (template : EntitlementTemplate) (existing : List Entitlement) :
    List ClaimableEntitlement :=
  ((existing.filter (·.claimCode = template.claimCode)).insertionSort
    (·.instanceNumber ≤ ·.instanceNumber)).map (⟨·, template⟩)

/-- `candidatesForTemplate`. -/
def candidatesForTemplate (existing : List Entitlement) (template : EntitlementTemplate) :
    List ClaimableEntitlement :=
  if template.claim.isNone then []
  else if template.materialised then []
  else persistedCandidates template existing

/-- `candidatesFor`. -/
def candidatesFor (grant : Grant) (existing : List Entitlement) : List ClaimableEntitlement :=
  grant.entitlementTemplates.flatMap (candidatesForTemplate existing)

/-- `hasRemainingApplicationClaimCapacityUseCase`. -/
def hasRemainingApplicationClaimCapacity (application : Application)
    (claimables : List ClaimableEntitlement) (s : GrantStore) : Bool :=
  claimables.any fun c ↦ c.template.hasRemainingCapacity
    (countByEntitlement application.code application.clientRef c.entitlement.id s)

/-- `claimableFor`. -/
def claimableFor (grant : Grant) (application : Application) (existing : List Entitlement)
    (entitlementId : String) : Except GrantFailure ClaimableEntitlement :=
  match existing.find? (·.id = entitlementId) with
  | none => .error (.notFound ("Entitlement \"" ++ entitlementId ++
      "\" not found for application \"" ++ application.clientRef ++ "\""))
  | some entitlement =>
    match (grant.findEntitlementTemplate entitlement.claimCode).filter (·.claim.isSome) with
    | none => .error (.notFound ("Entitlement template with claimCode \"" ++
        entitlement.claimCode ++ "\" not found for grant \"" ++ application.code ++ "\""))
    | some template => .ok ⟨entitlement, template⟩

/-- The error of a claim that is not accepted. -/
def ClaimRefusal.failure : ClaimRefusal → GrantFailure
  | .maximumClaimsReached =>
      .badData "Maximum number of claims for this entitlement has been reached."
  | .wrongPosition =>
      .conflict "Application is not in a valid state to accept claims for this entitlement."

/-- `lockedApplicationFor`. -/
def lockedApplicationFor (command : SubmitCommand) (pinnedVersion : Option String) :
    GrantSession Application := do
  let found ← lockForUpdate command.clientRef command.code
  Session.orThrow (match found with
    | none => .error (applicationNotFound command.clientRef command.code)
    | some application =>
      if application.pinnedVersion ≠ pinnedVersion then .error .retryClaimSubmission
      else .ok application)

/-- `claimableWithCapacity`. -/
def claimableWithCapacity (command : SubmitCommand) (grant : Grant) (application : Application) :
    GrantSession ClaimableEntitlement := do
  let existing ← Session.read (findExistingEntitlements command.clientRef command.code)
  let claimable ← Session.orThrow
    (claimableFor grant application existing command.claim.entitlementId)
  let count ← Session.read
    (countByEntitlement command.code command.clientRef claimable.entitlement.id)
  Session.orThrow
    ((claimable.template.canAcceptClaim application.position count).mapError ClaimRefusal.failure)
  pure claimable

/-- `Claim.create`, with the id the insert gives it. -/
def newClaim (command : SubmitCommand) (claimCode id now : String) : Claim where
  id := id
  code := command.code
  clientRef := command.clientRef
  claimCode := claimCode
  clientClaimRef := command.metadata.clientClaimRef
  entitlementId := command.claim.entitlementId
  sbi := command.metadata.sbi
  frn := command.metadata.frn
  totalClaimAmountPence := command.claim.totalClaimAmountPence
  createdAt := now

/-- The unique index a claim would violate. -/
def violatedByClaim (claim : Claim) (s : GrantStore) : Option GrantFailure :=
  if s.claims.any (·.id = claim.id) then some (.duplicateKey .claimId)
  else if existsByClientClaimRef claim.code claim.clientRef claim.clientClaimRef s then
    some (.duplicateKey .clientClaimRef)
  else none

/-- The audit event of a claim. -/
def submitAudit (claim : Claim) : Audit :=
  ⟨.claim, .submit, claim.id, [("code", claim.code), ("clientRef", claim.clientRef),
    ("claimCode", claim.claimCode)]⟩

/-- `insertClaimWithAudit`. -/
def insertClaimWithAudit (command : SubmitCommand) (claimCode : String) : GrantSession Claim := do
  let outside ← Session.outside
  Session.orThrow outside.check
  let claim := newClaim command claimCode outside.id outside.now
  Session.insert (violatedByClaim claim)
    [.claimId claim.id, .clientClaimRef claim.code claim.clientRef claim.clientClaimRef]
    fun s ↦ { s with claims := s.claims ++ [claim] }
  writeAuditEvent (submitAudit claim)
  pure claim

/-- The case command of a claim. -/
def claimCaseCommand (claim : Claim) : Publication :=
  .updateCaseSupplementaryData claim.clientRef claim.code claim.id claim.clientClaimRef
    claim.claimCode claim.entitlementId claim.sbi claim.totalClaimAmountPence "SUBMITTED"
    claim.createdAt

/-- `storeClaimCaseUseCase`. -/
def storeClaimCase (claim : Claim) : GrantSession Unit := saveEvents [claimCaseCommand claim]

/-- `transitionOnFinalClaim`. -/
def transitionOnFinalClaim (grant : Grant) (application : Application)
    (template : EntitlementTemplate) : GrantSession Unit :=
  if template.requiresApproval then pure ()
  else match grant.claimApprovalTransitionFor application.position with
    | none => pure ()
    | some targetPosition => do
      let existing ← Session.read
        (findExistingEntitlements application.clientRef application.code)
      let remaining ← Session.read
        (hasRemainingApplicationClaimCapacity application (candidatesFor grant existing))
      if remaining then pure ()
      else transitionApplication ⟨application, grant, targetPosition,
        ⟨application.clientRef, application.code, none⟩, true⟩

/-- The payment request of a claim. -/
def claimPaymentRequest (claim : Claim) (configVersion : String) (agreement : AgreementReference) :
    Publication :=
  .claimPaymentRequested claim.code claim.clientRef claim.clientClaimRef claim.entitlementId
    configVersion agreement.agreementNumber agreement.version agreement.correlationId
    claim.createdAt claim.sbi claim.frn claim.totalClaimAmountPence

/-- `requestClaimPayment`; `payment` is the pinned version where a payment is configured. -/
def requestClaimPayment (claim : Claim) (template : EntitlementTemplate)
    (payment : Option String) : GrantSession Unit :=
  match payment with
  | none => pure ()
  | some configVersion =>
    if template.requiresApproval then pure ()
    else do
      let outside ← Session.outside
      Session.orThrow outside.check
      let agreement ← Session.orThrow (outside.agreement.elim (.error (.badImplementation
        ("Claim for \"" ++ claim.clientRef ++
          "\" has no Agreement to report its Payment against"))) .ok)
      saveEvents [claimPaymentRequest claim configVersion agreement]

/-- `submitInTransaction`. -/
def submitInTransaction (command : SubmitCommand) (grant : Grant) (pinnedVersion : Option String)
    (payment : Option String) : GrantSession GrantOutcome := do
  let application ← lockedApplicationFor command pinnedVersion
  let exists' ← Session.read
    (existsByClientClaimRef command.code command.clientRef command.metadata.clientClaimRef)
  if exists' then pure (.claim ⟨false, none⟩)
  else do
    let claimable ← claimableWithCapacity command grant application
    let claim ← insertClaimWithAudit command claimable.entitlement.claimCode
    storeClaimCase claim
    transitionOnFinalClaim grant application claimable.template
    requestClaimPayment claim claimable.template payment
    pure (.claim ⟨true, some claim.id⟩)

/-- `templatePaysOnSubmission`. -/
def templatePaysOnSubmission (template : Option EntitlementTemplate) : Bool :=
  template.any fun t ↦ t.claim.isSome && !t.requiresApproval

/-- `claimPaymentFor`, going on with `k`: the pinned version where a payment is configured for
it. -/
def claimPaymentFor (catalogue : Nat → Catalogue) (command : SubmitCommand) (grant : Grant)
    (configVersion : Option String) (k : Option String → GrantUseCase) : GrantUseCase :=
  .look true fun s ↦
    match (findExistingEntitlements command.clientRef command.code s).find?
        (·.id = command.claim.entitlementId) with
    | none => .ret (.error (.notFound ("Entitlement \"" ++ command.claim.entitlementId ++
        "\" not found for application \"" ++ command.clientRef ++ "\"")))
    | some entitlement =>
      match configVersion.filter (· ≠ "") with
      | none => k none
      | some version =>
        if !templatePaysOnSubmission (grant.findEntitlementTemplate entitlement.claimCode) then
          k none
        else .ask fun outside ↦
          match outside.check with
          | .error failure => .ret (.error failure)
          | .ok () => k (if (catalogue outside.moment).paymentDefined version then some version
              else none)

/-- One attempt of `submitAttempt`, going on with `k` when its transaction throws. -/
def submitOnce (catalogue : Nat → Catalogue) (command : SubmitCommand)
    (k : GrantFailure → GrantUseCase) : GrantUseCase :=
  .look false fun s ↦
    match findByClientRefAndCode command.clientRef command.code s with
    | none => .ret (.error (applicationNotFound command.clientRef command.code))
    | some application => .ask fun outside ↦
      match resolveGrant (catalogue outside.moment) command.code application.pinnedVersion with
      | .error failure => .ret (.error failure)
      | .ok grant =>
        claimPaymentFor catalogue command grant application.pinnedVersion fun payment ↦
          .withTransaction
            (.body none (submitInTransaction command grant application.pinnedVersion payment)) fun
            | .ok outcome => .ret (.ok outcome)
            | .error failure => k failure

/-- `isMongoDuplicateKeyError`. -/
def isMongoDuplicateKeyError : GrantFailure → Bool
  | .duplicateKey _ => true
  | _ => false

/-- `isRetriable`. -/
def isRetriable (failure : GrantFailure) : Bool :=
  failure = .retryClaimSubmission || isMongoDuplicateKeyError failure

/-- `exhausted` of the claims service. -/
def claimExhausted (command : SubmitCommand) : GrantFailure :=
  .conflict ("Claim '" ++ command.metadata.clientClaimRef ++
    "' could not be submitted because the application changed concurrently. Try again.")

/-- The part of `retryOrThrow` after the replay; `next` is the next attempt, if one is left. -/
def throwOrRetry (command : SubmitCommand) (next : Option GrantUseCase)
    (failure : GrantFailure) : GrantUseCase :=
  if !isRetriable failure then .ret (.error failure)
  else match next with
    | none => .ret (.error (claimExhausted command))
    | some next => next

/-- `retryOrThrow`. -/
def retryOrThrow (command : SubmitCommand) (next : Option GrantUseCase)
    (failure : GrantFailure) : GrantUseCase :=
  if isMongoDuplicateKeyError failure then
    .look false fun s ↦
      if existsByClientClaimRef command.code command.clientRef command.metadata.clientClaimRef s
      then .ret (.ok (.claim ⟨false, none⟩))
      else throwOrRetry command next failure
  else throwOrRetry command next failure

/-- `submitAttempt`, with the retries it has left. -/
def submitAttempt (catalogue : Nat → Catalogue) (command : SubmitCommand) : Nat → GrantUseCase
  | 0 => submitOnce catalogue command (retryOrThrow command none)
  | retries + 1 => submitOnce catalogue command
      (retryOrThrow command (some (submitAttempt catalogue command retries)))

/-- `retries` of the claims service. -/
def claimRetries : Nat := 1

/-- `submitValidClaim`. -/
def submitValidClaim (catalogue : Nat → Catalogue) (command : SubmitCommand) : GrantUseCase :=
  .look false fun s ↦
    if existsByClientClaimRef command.code command.clientRef command.metadata.clientClaimRef s
    then .ret (.ok (.claim ⟨false, none⟩))
    else submitAttempt catalogue command claimRetries

/-- `submitClaim`. -/
def submitClaim (catalogue : Nat → Catalogue) (command : SubmitCommand) : GrantUseCase :=
  if command.code ≠ command.metadata.grantCode then
    .ret (.error (.badRequest ("The grant code provided in the path parameters does not match " ++
      "the grant code specified in the payload metadata.")))
  else if command.clientRef ≠ command.metadata.clientRef then
    .ret (.error (.badRequest ("The client reference provided in the path parameters does not " ++
      "match the client reference specified in the payload metadata.")))
  else submitValidClaim catalogue command

end FgGas.Grants
