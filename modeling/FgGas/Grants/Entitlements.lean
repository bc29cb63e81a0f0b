import FgGas.Grants.Transition

/-!
# Creating and updating an entitlement

`createEntitlement` (`src/grants/services/entitlement.service.js`) and `updateEntitlement`
(`src/grants/services/update-entitlement.js`). Both take the lock that submitting a claim
takes before they read what they decide by. What the fixed fields of a template resolve to,
and whether the operator's roles allow the change, are outside answers.
-/

namespace FgGas.Grants

open Store

/-- `applicationNotFound` of the entitlement errors. -/
def entitlementApplicationNotFound (clientRef code : String) : GrantFailure :=
  .notFound ("No matching application found for clientRef '" ++ clientRef ++
    "' and grantCode '" ++ code ++ "'.")

/-- `invalidClaimCode`. -/
def invalidClaimCode (code clientRef claimCode : String) (grant : Grant) : GrantFailure :=
  if (grant.findEntitlementTemplate claimCode).isNone then
    .badData ("Claim code '" ++ claimCode ++ "' is not defined for grant code '" ++ code ++ "'.")
  else .badData ("Claim code '" ++ claimCode ++ "' is not available for application '" ++
    clientRef ++ "'.")

/-- `lockApplication`. -/
def lockApplication (clientRef code : String) : GrantSession Application := do
  let found ← lockForUpdate clientRef code
  Session.orThrow (found.elim (.error (entitlementApplicationNotFound clientRef code)) .ok)

/-- The data of an entitlement with some of its fields replaced. -/
def mergeData (data fields : EntitlementData) : EntitlementData :=
  data.filter (fun d ↦ fields.all (·.1 ≠ d.1)) ++ fields

/-- A request to create an entitlement. -/
structure CreateCommand where
  code : String
  clientRef : String
  claimCode : String
  data : EntitlementData
  deriving DecidableEq, Repr

/-- `entitlementCreationDecision`: the instance number of the new entitlement. -/
def entitlementCreationDecision (command : CreateCommand) (grant : Grant)
    (application : Application) (existing : List Entitlement) : Except GrantFailure Nat :=
  match grant.findEntitlementTemplate command.claimCode with
  | none => .error (invalidClaimCode command.code command.clientRef command.claimCode grant)
  | some template =>
    let instances := existing.filter (·.claimCode = template.claimCode)
    if !template.isAvailableAt application.position || template.materialised then
      .error (invalidClaimCode command.code command.clientRef command.claimCode grant)
    else if !template.hasValidInputData command.data then
      .error (.badData (template.invalidDataMessage command.data))
    else if template.maxEntitlements ≤ instances.length then
      .error (.conflict ("Cannot create entitlement '" ++ command.claimCode ++
        "'. Maximum instance limit of " ++ toString template.maxEntitlements ++
        " has been reached."))
    else .ok (nextInstanceNumber instances)

/-- What keeps `insertEntitlement` from inserting: the slot is taken, or the id is. -/
def violatedByEntitlement (e : Entitlement) (s : GrantStore) : Option GrantFailure :=
  if s.entitlements.any fun f ↦ f.clientRef = e.clientRef ∧ f.code = e.code ∧
      f.claimCode = e.claimCode ∧ f.instanceNumber = e.instanceNumber then
    some (.retryCreation .slotTaken)
  else if s.entitlements.any (·.id = e.id) then
    some (.conflict ("Entitlement with id \"" ++ e.id ++ "\" exists"))
  else none

/-- `createInTransaction`. -/
def createInTransaction (command : CreateCommand) (grant : Grant)
    (pinnedVersion : Option String) : GrantSession GrantOutcome := do
  let application ← lockApplication command.clientRef command.code
  Session.orThrow (if application.pinnedVersion ≠ pinnedVersion then
    .error (.retryCreation .configChanged) else .ok ())
  let existing ← Session.read (findExistingEntitlements command.clientRef command.code)
  let instanceNumber ← Session.orThrow
    (entitlementCreationDecision command grant application existing)
  let outside ← Session.outside
  Session.orThrow outside.check
  let configVersion ← Session.orThrow (application.currentConfigVersion.elim
    (.error (.badRequest "Invalid Entitlement: \"configVersion\" must be a string")) .ok)
  let entitlement : Entitlement := ⟨outside.id, command.clientRef, command.code,
    command.claimCode, instanceNumber, configVersion, mergeData command.data outside.fixedData,
    outside.now, none⟩
  Session.insert (violatedByEntitlement entitlement)
    [.entitlementSlot command.claimCode instanceNumber, .entitlementId outside.id]
    fun s ↦ { s with entitlements := s.entitlements ++ [entitlement] }
  writeAuditEvent ⟨.entitlement, .create, entitlement.id,
    [("code", command.code), ("clientRef", command.clientRef), ("claimCode", command.claimCode)]⟩
  pure (.entitlement entitlement)

/-- What an attempt to create or to update does before its transaction: it finds the
application, resolves its grant and asks whether the operator may change claims. -/
def withGrantFor (catalogue : Nat → Catalogue) (clientRef code : String)
    (k : Grant → Option String → GrantUseCase) : GrantUseCase :=
  .look false fun s ↦
    match findByClientRefAndCode clientRef code s with
    | none => .ret (.error (entitlementApplicationNotFound clientRef code))
    | some application => .ask fun outside ↦
      match (catalogue outside.moment).currentGrant application.pinnedVersion with
      | .error failure => .ret (.error failure)
      | .ok (none, _) => .ret (.error (.error "Cannot read properties of null"))
      | .ok (some grant, _) =>
        match outside.check with
        | .error failure => .ret (.error failure)
        | .ok () => k grant application.pinnedVersion

/-- `exhausted` of the entitlement service. -/
def creationExhausted (command : CreateCommand) : RetryReason → GrantFailure
  | .slotTaken => .conflict ("Cannot create entitlement '" ++ command.claimCode ++
      "'. Maximum instance limit has been reached.")
  | .configChanged => .conflict ("Grant configuration for '" ++ command.code ++
      "' changed while creating entitlement '" ++ command.claimCode ++ "'. Try again.")

/-- `retryCreation`, with the retries it has left. -/
def retryCreation (catalogue : Nat → Catalogue) (command : CreateCommand) : Nat → GrantUseCase
  | 0 => withGrantFor catalogue command.clientRef command.code fun grant pinnedVersion ↦
    .withTransaction (.body none (createInTransaction command grant pinnedVersion)) fun
      | .ok outcome => .ret (.ok outcome)
      | .error (.retryCreation reason) => .ret (.error (creationExhausted command reason))
      | .error failure => .ret (.error failure)
  | retries + 1 => withGrantFor catalogue command.clientRef command.code fun grant pinnedVersion ↦
    .withTransaction (.body none (createInTransaction command grant pinnedVersion)) fun
      | .ok outcome => .ret (.ok outcome)
      | .error (.retryCreation _) => retryCreation catalogue command retries
      | .error failure => .ret (.error failure)

/-- `retries` of the entitlement service. -/
def creationRetries : Nat := 1

/-- `createEntitlement`. -/
def createEntitlement (catalogue : Nat → Catalogue) (command : CreateCommand) : GrantUseCase :=
  retryCreation catalogue command creationRetries

/-- A request to change an entitlement. -/
structure UpdateCommand where
  code : String
  clientRef : String
  entitlementId : String
  data : EntitlementData
  deriving DecidableEq, Repr

/-- `updateEntitlementData`. -/
def updateEntitlementData (e : Entitlement) : GrantSession Unit :=
  Session.write [.entitlementId e.id] fun s ↦ { s with
    entitlements := s.entitlements.map fun f ↦
      if f.id = e.id ∧ f.clientRef = e.clientRef ∧ f.code = e.code then
        { f with data := e.data, updatedAt := e.updatedAt }
      else f }

/-- `updateInTransaction`. -/
def updateInTransaction (command : UpdateCommand) (grant : Grant)
    (pinnedVersion : Option String) : GrantSession GrantOutcome := do
  let application ← lockApplication command.clientRef command.code
  Session.orThrow (if application.pinnedVersion ≠ pinnedVersion then
    .error (.conflict ("Grant configuration for '" ++ command.code ++
      "' changed while updating the entitlement. Try again.")) else .ok ())
  let existing ← Session.read (findExistingEntitlements command.clientRef command.code)
  let entitlement ← Session.orThrow ((existing.find? (·.id = command.entitlementId)).elim
    (.error (.notFound ("No entitlement '" ++ command.entitlementId ++
      "' found for application '" ++ command.clientRef ++ "'."))) .ok)
  let template ← Session.orThrow ((grant.findEntitlementTemplate entitlement.claimCode).elim
    (.error (invalidClaimCode command.code command.clientRef entitlement.claimCode grant)) .ok)
  let count ← Session.read
    (countByEntitlement command.code command.clientRef command.entitlementId)
  Session.orThrow (if count ≠ 0 then .error (.conflict (template.name ++
    " has a claim against it and cannot be changed.")) else .ok ())
  Session.orThrow (if !template.hasValidInputData command.data then
    .error (.badData (template.invalidDataMessage command.data)) else .ok ())
  let outside ← Session.outside
  Session.orThrow outside.check
  let updated : Entitlement := { entitlement with
    data := mergeData entitlement.data command.data
    updatedAt := some outside.now }
  updateEntitlementData updated
  writeAuditEvent ⟨.entitlement, .update, updated.id,
    [("code", command.code), ("clientRef", command.clientRef), ("claimCode", updated.claimCode)]⟩
  pure (.entitlement updated)

/-- `updateEntitlement`. -/
def updateEntitlement (catalogue : Nat → Catalogue) (command : UpdateCommand) : GrantUseCase :=
  withGrantFor catalogue command.clientRef command.code fun grant pinnedVersion ↦
    .withTransaction (.body none (updateInTransaction command grant pinnedVersion)) fun
      | .ok outcome => .ret (.ok outcome)
      | .error failure => .ret (.error failure)

end FgGas.Grants
