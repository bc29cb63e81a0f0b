import FgGas.Grants.Grant

/-!
# Applications

The application as the code works on it and as it is stored, with its agreements
(`src/grants/models/application.js`, `src/grants/models/agreement.js`,
`src/grants/repositories/application.repository.js`). The identifiers, metadata, phases and
dates of submission are never changed once an application is stored, and are left out.
-/

namespace FgGas.Grants

/-- `AgreementStatus`. -/
inductive AgreementStatus
  | offered
  | accepted
  | cancelled
  | rejected
  | withdrawn
  | terminated
  deriving DecidableEq, Repr

/-- An entry of an agreement's history. -/
structure AgreementHistoryEntry where
  agreementStatus : AgreementStatus
  createdAt : String
  deriving DecidableEq, Repr

/-- An agreement of an application. -/
structure ApplicationAgreement where
  agreementRef : String
  latestStatus : AgreementStatus
  updatedAt : String
  history : List AgreementHistoryEntry
  startDate : Option String
  endDate : Option String
  acceptedDate : Option String
  deriving DecidableEq, Repr

/-- `Agreement.new`. -/
def ApplicationAgreement.new (agreementRef date now : String) : ApplicationAgreement where
  agreementRef := agreementRef
  latestStatus := .offered
  updatedAt := now
  history := [⟨.offered, date⟩]
  startDate := none
  endDate := none
  acceptedDate := none

/-- The agreement enters a status: what `cancel`, `withdraw` and `terminate` share. -/
def ApplicationAgreement.enter (a : ApplicationAgreement) (status : AgreementStatus)
    (date now : String) : ApplicationAgreement :=
  { a with latestStatus := status, updatedAt := now, history := a.history ++ [⟨status, date⟩] }

/-- `Agreement.accept`. -/
def ApplicationAgreement.accept (a : ApplicationAgreement)
    (startDate endDate acceptedDate : Option String) (now : String) : ApplicationAgreement :=
  { a.enter .accepted now now with
    startDate := startDate
    endDate := endDate
    acceptedDate := acceptedDate }

/-- `Agreement.cancel`. -/
def ApplicationAgreement.cancel (a : ApplicationAgreement) (date now : String) :
    ApplicationAgreement := a.enter .cancelled date now

/-- `Agreement.withdraw`. -/
def ApplicationAgreement.withdraw (a : ApplicationAgreement) (date now : String) :
    ApplicationAgreement := a.enter .withdrawn date now

/-- `Agreement.terminate`. -/
def ApplicationAgreement.terminate (a : ApplicationAgreement) (date now : String) :
    ApplicationAgreement := a.enter .terminated date now

/-- An application. The agreements stand in the order of the object's keys. -/
structure Application where
  clientRef : String
  code : String
  position : Position
  originalConfigVersion : Option String
  currentConfigVersion : Option String
  updatedAt : String
  agreements : List ApplicationAgreement
  deriving DecidableEq, Repr

/-- `pinnedVersionOf`. -/
def Application.pinnedVersion (a : Application) : Option String :=
  a.currentConfigVersion.orElse fun _ ↦ a.originalConfigVersion

/-- `getFullyQualifiedStatus`. -/
def Application.fullyQualifiedStatus (a : Application) : String := a.position.fullyQualified

/-- `getActiveAgreement`. -/
def Application.activeAgreement (a : Application) : Option ApplicationAgreement :=
  a.agreements.find? (·.latestStatus = .offered)

/-- `getAcceptedAgreement`. -/
def Application.acceptedAgreement (a : Application) : Option ApplicationAgreement :=
  a.agreements.find? (·.latestStatus = .accepted)

/-- `getAgreement`. -/
def Application.agreement (a : Application) (agreementRef : String) :
    Option ApplicationAgreement :=
  a.agreements.find? (·.agreementRef = agreementRef)

/-- The application in the position, at the moment. -/
def Application.at (a : Application) (position : Position) (now : String) : Application :=
  { a with position := position, updatedAt := now }

/-- How `moveTo` ends. -/
inductive Move
  | unchanged
  | changed (application : Application) (processes : List String)
  | refused (text : String)
  deriving DecidableEq, Repr

/-- `moveTo`. -/
def Application.moveTo (a : Application) (target : Position) (grant : Grant) (now : String) :
    Move :=
  if a.fullyQualifiedStatus = target.fullyQualified then .unchanged
  else match grant.isValidTransition target a.fullyQualifiedStatus with
    | none => .refused ("Invalid transition from \"" ++ a.fullyQualifiedStatus ++ "\" to \"" ++
        target.fullyQualified ++ "\"")
    | some processes => .changed (a.at target now) processes

/-- `withdraw`. -/
def Application.withdraw (a : Application) (now : String) : Application :=
  { a with position.status := "APPLICATION_WITHDRAWN", updatedAt := now }

/-- `addAgreement`; a reference in use is a conflict. -/
def Application.addAgreement (a : Application) (agreement : ApplicationAgreement) (now : String) :
    Except String Application :=
  if (a.agreement agreement.agreementRef).isSome then
    .error ("Agreement \"" ++ agreement.agreementRef ++ "\" already exists on application \"" ++
      a.clientRef ++ "\"")
  else .ok { a with agreements := a.agreements ++ [agreement], updatedAt := now }

/-- The application with the agreement of the reference changed. -/
def Application.withAgreement (a : Application) (agreementRef : String)
    (change : ApplicationAgreement → ApplicationAgreement) : Application :=
  { a with agreements :=
      a.agreements.map fun g ↦ if g.agreementRef = agreementRef then change g else g }

/-- What `acceptAgreement`, `cancelAgreement` and `terminateAgreement` share: the agreement
of the reference changes. -/
def Application.changeAgreement (a : Application) (agreementRef : String)
    (change : ApplicationAgreement → ApplicationAgreement) (now : String) :
    Except String Application :=
  if (a.agreement agreementRef).isNone then
    .error ("Agreement \"" ++ agreementRef ++ "\" does not exist on application \"" ++
      a.clientRef ++ "\"")
  else .ok { a.withAgreement agreementRef change with updatedAt := now }

/-- The stored document: the application and the field `lockForUpdate` counts up. -/
structure ApplicationDocument where
  application : Application
  claimSubmissionLockVersion : Nat
  deriving DecidableEq, Repr

/-- A claim as it is stored; what else the request carries is kept as sent. -/
structure Claim where
  id : String
  code : String
  clientRef : String
  claimCode : String
  clientClaimRef : String
  entitlementId : String
  sbi : String
  frn : String
  totalClaimAmountPence : Nat
  createdAt : String
  deriving DecidableEq, Repr

/-- An entitlement as it is stored. -/
structure Entitlement where
  id : String
  clientRef : String
  code : String
  claimCode : String
  instanceNumber : Nat
  configVersion : String
  data : EntitlementData
  createdAt : String
  updatedAt : Option String
  deriving DecidableEq, Repr

/-- `Entitlement.nextInstanceNumber`: the first number from 1 on that none of them has. -/
def nextInstanceNumber (existing : List Entitlement) : Nat :=
  ((List.range' 1 (existing.length + 1)).find? fun n ↦
    existing.all (·.instanceNumber ≠ n)).getD (existing.length + 1)

/-- Where a move that changes the application leads, and that the grant accepts it. -/
theorem moveTo_eq_changed {a moved : Application} {target : Position} {grant : Grant}
    {now : String} {processes : List String}
    (h : a.moveTo target grant now = .changed moved processes) :
    a.fullyQualifiedStatus ≠ target.fullyQualified ∧
    grant.isValidTransition target a.fullyQualifiedStatus = some processes ∧
    moved = a.at target now := by
  unfold Application.moveTo at h
  split at h
  · cases h
  · next hne =>
    cases hvalid : grant.isValidTransition target a.fullyQualifiedStatus with
    | none =>
      rw [hvalid] at h
      cases h
    | some accepted =>
      rw [hvalid] at h
      cases h
      exact ⟨hne, rfl, rfl⟩

/-- A move that changes nothing starts where it leads. -/
theorem moveTo_eq_unchanged {a : Application} {target : Position} {grant : Grant} {now : String}
    (h : a.moveTo target grant now = .unchanged) :
    a.fullyQualifiedStatus = target.fullyQualified := by
  unfold Application.moveTo at h
  split at h
  · assumption
  · split at h <;> cases h

@[simp] theorem position_at (a : Application) (position : Position) (now : String) :
    (a.at position now).position = position := rfl

end FgGas.Grants
