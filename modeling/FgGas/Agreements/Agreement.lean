import Mathlib.Data.List.Basic

/-!
# Agreements, their versions and what they publish

The agreement document and its transition (`src/agreements/models/agreement.js`), the
version documents (`src/agreements/models/agreement-version.js`), and the publications and
audit events a creation or an action stores with them (`src/agreements/events/`,
`src/agreements/services/agreement-audit.js`). The fields a transition's mapping replaces
(scheme, dates, parcels, actions, items, amounts, schedule and the rest) are one value of a
type `V`: nothing here looks into them.
-/

namespace FgGas.Agreements

/-- An agreement. `sbi` is the one of `identifiers` that access is checked by. -/
structure Agreement (V : Type) where
  agreementNumber : String
  version : Nat
  code : String
  clientRef : String
  configVersion : String
  correlationId : String
  sbi : String
  values : V
  state : String
  createdAt : String
  updatedAt : String
  acceptedAt : Option String
  deriving DecidableEq, Repr

/-- What a version records of the action that produced it. -/
structure ActionExecution where
  name : String
  idempotencyKey : String
  deriving DecidableEq, Repr

/-- A version document. -/
structure AgreementVersion (V : Type) where
  agreementNumber : String
  version : Nat
  snapshot : Agreement V
  versionedAt : String
  actionExecution : Option ActionExecution
  deriving DecidableEq, Repr

variable {V : Type}

/-- `Agreement.create`. -/
def Agreement.create (agreementNumber code clientRef configVersion correlationId sbi : String)
    (values : V) (state createdAt : String) : Agreement V where
  agreementNumber := agreementNumber
  version := 1
  code := code
  clientRef := clientRef
  configVersion := configVersion
  correlationId := correlationId
  sbi := sbi
  values := values
  state := state
  createdAt := createdAt
  updatedAt := createdAt
  acceptedAt := none

/-- `Agreement.withAgreementNumber`. -/
def Agreement.withAgreementNumber (a : Agreement V) (agreementNumber : String) : Agreement V :=
  { a with agreementNumber := agreementNumber }

/-- `resolveAcceptedAt`. -/
def resolveAcceptedAt (a : Agreement V) (target transitionedAt : String) : Option String :=
  a.acceptedAt.orElse fun _ ↦ if target = "accepted" then some transitionedAt else none

/-- `Agreement.transition`; `values` writes the mapped fields over the agreement's. -/
def Agreement.transition (a : Agreement V) (target transitionedAt : String) (values : V → V)
    (configVersion : Option String) : Agreement V :=
  { a with
    values := values a.values
    acceptedAt := resolveAcceptedAt a target transitionedAt
    configVersion := configVersion.getD a.configVersion
    state := target
    version := a.version + 1
    updatedAt := transitionedAt }

/-- `AgreementVersion.create`. -/
def AgreementVersion.create (a : Agreement V) (versionedAt : String) : AgreementVersion V where
  agreementNumber := a.agreementNumber
  version := a.version
  snapshot := a
  versionedAt := versionedAt
  actionExecution := none

/-- The two reporting events. -/
inductive ReportingType
  | agreementCreated
  | agreementStatusChanged
  deriving DecidableEq, Repr

/-- What an agreement publishes. The ids and clock readings of the events, and what the
reporting events derive from the values, are left out. -/
inductive Publication (V : Type)
  | statusUpdated (agreementNumber correlationId clientRef code : String) (version : Nat)
      (status date : String)
  | report (type : ReportingType) (agreementId agreementStatus datetime correlationId : String)
      (values : V) (segregationRef : String)
  | paymentRequested (requestId agreementNumber : String) (agreementVersion : Nat)
      (code configVersion executedAt : String) (snapshot : Agreement V) (segregationRef : String)
  deriving DecidableEq, Repr

/-- `createAgreementPublications(["lifecycle"], agreement)`. -/
def createLifecyclePublication (a : Agreement V) : Publication V :=
  .statusUpdated a.agreementNumber a.correlationId a.clientRef a.code a.version a.state a.updatedAt

/-- `createAgreementCreatedReportingPublication`. -/
def createAgreementCreatedReportingPublication (a : Agreement V) : Publication V :=
  .report .agreementCreated a.agreementNumber a.state a.createdAt a.correlationId a.values
    a.agreementNumber

/-- `createAgreementStatusChangedReportingPublication`. -/
def createAgreementStatusChangedReportingPublication (a : Agreement V) : Publication V :=
  .report .agreementStatusChanged a.agreementNumber a.state a.updatedAt a.correlationId a.values
    a.agreementNumber

/-- The publication of an `AgreementPaymentRequestedEvent`. -/
def createPaymentRequestedPublication (a : Agreement V) (executedAt : String) : Publication V :=
  .paymentRequested s!"agreement:{a.agreementNumber}:v{a.version}" a.agreementNumber a.version
    a.code a.configVersion executedAt a a.agreementNumber

/-- The agreement number a publication carries. -/
def Publication.agreementNumber : Publication V → String
  | .statusUpdated agreementNumber .. => agreementNumber
  | .report _ agreementId .. => agreementId
  | .paymentRequested _ agreementNumber .. => agreementNumber

/-- The publication asks for a payment. -/
def Publication.isPaymentRequest : Publication V → Bool
  | .paymentRequested .. => true
  | _ => false

/-- `auditStatus`. -/
inductive AuditStatus
  | success
  | failure
  deriving DecidableEq, Repr

/-- The classifications of an agreement's audit events. -/
inductive AuditAction
  | createAgreementRecord
  | acceptAgreementOffer
  | updateAgreement
  deriving DecidableEq, Repr

/-- An audit event of an agreement: the details that vary from event to event. -/
structure AgreementAudit where
  status : AuditStatus
  action : AuditAction
  agreementNumber : String
  version : Nat
  state : String
  actionName : Option String
  previousState : Option String
  attemptedState : Option String
  attemptedVersion : Option Nat
  idempotencyKey : Option String
  error : Option String
  deriving DecidableEq, Repr

/-- `buildAgreementCreationAudit`. -/
def buildAgreementCreationAudit (a : Agreement V) : AgreementAudit where
  status := .success
  action := .createAgreementRecord
  agreementNumber := a.agreementNumber
  version := a.version
  state := a.state
  actionName := none
  previousState := none
  attemptedState := none
  attemptedVersion := none
  idempotencyKey := none
  error := none

/-- What an attempt has come to: its target state, and the version once it is built. -/
structure Attempted where
  state : String
  version : Option Nat
  deriving DecidableEq, Repr

/-- `actionAuditClassification`. -/
def actionAuditClassification (actionName : String) (current : Agreement V)
    (attempted : Option Attempted) : AuditAction :=
  if (actionName = "accept" || attempted.any (·.state = "accepted")) &&
      current.state ≠ "accepted" then .acceptAgreementOffer
  else .updateAgreement

/-- `buildAgreementActionAudit` of an action that commits. -/
def buildAgreementActionAudit (actionName : String) (current attempted : Agreement V) :
    AgreementAudit where
  status := .success
  action := actionAuditClassification actionName current (some ⟨attempted.state, attempted.version⟩)
  agreementNumber := attempted.agreementNumber
  version := attempted.version
  state := attempted.state
  actionName := some actionName
  previousState := some current.state
  attemptedState := none
  attemptedVersion := none
  idempotencyKey := none
  error := none

/-- `buildAgreementActionAudit` of an attempt that failed. -/
def buildAgreementActionFailureAudit (actionName : String) (current : Agreement V)
    (attempted : Option Attempted) (error : String) (idempotencyKey : String) :
    AgreementAudit where
  status := .failure
  action := actionAuditClassification actionName current attempted
  agreementNumber := current.agreementNumber
  version := current.version
  state := current.state
  actionName := some actionName
  previousState := some current.state
  attemptedState := attempted.map (·.state)
  attemptedVersion := attempted.bind (·.version)
  idempotencyKey := some idempotencyKey
  error := some error

@[simp] theorem version_transition (a : Agreement V) (target transitionedAt : String)
    (values : V → V) (configVersion : Option String) :
    (a.transition target transitionedAt values configVersion).version = a.version + 1 := rfl

@[simp] theorem agreementNumber_transition (a : Agreement V) (target transitionedAt : String)
    (values : V → V) (configVersion : Option String) :
    (a.transition target transitionedAt values configVersion).agreementNumber =
      a.agreementNumber := rfl

@[simp] theorem agreementNumber_withAgreementNumber (a : Agreement V) (n : String) :
    (a.withAgreementNumber n).agreementNumber = n := rfl

end FgGas.Agreements
