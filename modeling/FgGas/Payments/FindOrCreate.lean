import FgGas.Payments.Payment
import FgGas.Store.Sound

/-!
# Payment-requested events

`findOrCreatePaymentUseCase` and the two handlers that run it
(`src/payments/use-cases/find-or-create-payment.use-case.js`,
`src/payments/handlers/handle-claim-payment-requested.js`,
`src/payments/handlers/handle-agreement-payment-requested.js`) over the payments, the claim
id counter and the outbox. The counter document always exists: the migration that creates
the collections seeds it.
-/

namespace FgGas.Payments

open Store

/-- The Payments in the order of their inserts, the counter's `seq`, and the create-payment
rows of the outbox. -/
structure PaymentStore where
  payments : List Payment
  seq : Nat
  outbox : List CreatePayment
  deriving DecidableEq, Repr

/-- `CLAIM_ID_SEED`. -/
def claimIdSeed : Nat := 9999999

/-- The collections as the migrations leave them. -/
def PaymentStore.migrated : PaymentStore := ⟨[], claimIdSeed, []⟩

/-- The counter document, and the unique index entries of a Payment. -/
inductive Key
  | counter
  | paymentId (id : String)
  | source (key : SourceKey)
  | paymentHubClaimId (claimId : String)
  deriving DecidableEq, Repr

/-- What a handler takes from the world: the outcome of resolving the payment definition,
and what one run of the callback draws. -/
structure Outside where
  resolved : Except String Resolved
  draws : Draws

/-- The sessions of this module. -/
abbrev PaymentSession := Session Key PaymentStore Outside Failure

/-- The result of a handler. -/
abbrev Delivered := Except Failure Payment

/-- The use cases of this module. -/
abbrev PaymentUseCase := UseCase Key PaymentStore Outside Failure Unit Payment Delivered

/-- `findPaymentBySource`. -/
def findPaymentBySource (source : Source) (s : PaymentStore) : Option Payment :=
  s.payments.find? fun p ↦ p.source.key = source.key

/-- `allocateNextSequence(ClaimIdCounter)`. -/
def allocateNextSequence : PaymentSession Nat :=
  .op (fun _ ↦ ⟨[.counter], fun s ↦ { s with seq := s.seq + 1 }⟩) fun s ↦ .done (s.seq + 1)

/-- The partial unique index of a source. -/
def Source.index : Source → Index
  | .claim .. => .claimSource
  | .agreement .. => .agreementSource

/-- The unique index a Payment would violate. -/
def violated (payment : Payment) (s : PaymentStore) : Option Failure :=
  if s.payments.any (·.id = payment.id) then some (.duplicateKey .id)
  else if s.payments.any (·.source.key = payment.source.key) then
    some (.duplicateKey payment.source.index)
  else if s.payments.any (·.paymentHubClaimId = payment.paymentHubClaimId) then
    some (.duplicateKey .paymentHubClaimId)
  else none

/-- The documents and index entries of a new Payment. -/
def Payment.keys (payment : Payment) : List Key :=
  [.paymentId payment.id, .source payment.source.key,
    .paymentHubClaimId payment.paymentHubClaimId]

/-- `insertPayment`. -/
def insertPayment (payment : Payment) : PaymentSession Unit :=
  .insert (violated payment) payment.keys fun s ↦ { s with payments := s.payments ++ [payment] }

/-- `toOutbox`: the outbox model requires an ordering key. -/
def toOutbox (publication : CreatePayment) : Except Failure CreatePayment :=
  if required publication.segregationRef then .ok publication else .error .invalidOutbox

/-- `saveEvents` of one publication. -/
def saveEvents (publication : CreatePayment) : PaymentSession Unit := do
  let entry ← Session.orThrow (toOutbox publication)
  Session.write [] fun s ↦ { s with outbox := s.outbox ++ [entry] }

/-- `findOrCreatePaymentUseCase`. -/
def findOrCreatePayment (source : Source) (correlationId : Option String)
    (resolved : Resolved) : PaymentSession Payment := do
  let existing ← Session.read (findPaymentBySource source)
  match existing with
  | some payment => pure payment
  | none => do
    let sequence ← allocateNextSequence
    let outside ← Session.outside
    let payment ← Session.orThrow
      (buildPayment source correlationId resolved (formatClaimId sequence) outside.draws)
    insertPayment payment
    saveEvents (createPaymentPublication payment outside.draws)
    pure payment

/-- `recoverClaimSourceDuplicate` and `recoverAgreementSourceDuplicate`, by the index whose
duplicates the handler recovers from. -/
def recoverSourceDuplicate (index : Index) (error : Failure) (source : Source) :
    PaymentUseCase :=
  if error = .duplicateKey index then
    .look false fun s ↦
      match findPaymentBySource source s with
      | some winner => .ret (.ok winner)
      | none => .ret (.error error)
  else .ret (.error error)

/-- What the two handlers share. -/
def handlePaymentRequested (index : Index) (source : Source) (correlationId : Option String) :
    PaymentUseCase :=
  .look false fun s ↦
    match findPaymentBySource source s with
    | some existing => .ret (.ok existing)
    | none => .ask fun outside ↦
      match outside.resolved with
      | .error text => .ret (.error (.unresolved text))
      | .ok resolved =>
        .withTransaction (.body () (findOrCreatePayment source correlationId resolved)) fun
          | .ok payment => .ret (.ok payment)
          | .error error => recoverSourceDuplicate index error source

/-- The data of a claim's payment-requested event the handler reads. What it passes on to
the payment definition is left to the definition. -/
structure ClaimPaymentRequested where
  code : String
  clientRef : String
  clientClaimRef : String
  entitlementId : String
  agreementNumber : String
  agreementVersion : Nat
  correlationId : Option String
  deriving DecidableEq, Repr

/-- The data of an agreement's payment-requested event the handler reads. -/
structure AgreementPaymentRequested where
  agreementNumber : String
  agreementVersion : Nat
  correlationId : Option String
  deriving DecidableEq, Repr

/-- `handleClaimPaymentRequested`. -/
def handleClaimPaymentRequested (data : ClaimPaymentRequested) : PaymentUseCase :=
  handlePaymentRequested .claimSource (.claim data.code data.clientRef data.clientClaimRef
    data.entitlementId data.agreementNumber data.agreementVersion) data.correlationId

/-- `handleAgreementPaymentRequested`. -/
def handleAgreementPaymentRequested (data : AgreementPaymentRequested) : PaymentUseCase :=
  handlePaymentRequested .agreementSource (.agreement data.agreementNumber data.agreementVersion)
    data.correlationId

/-- A delivered payment-requested event. -/
inductive PaymentRequested
  | claim (data : ClaimPaymentRequested)
  | agreement (data : AgreementPaymentRequested)
  deriving DecidableEq, Repr

/-- The handler of an event. -/
def PaymentRequested.handle : PaymentRequested → PaymentUseCase
  | .claim data => handleClaimPaymentRequested data
  | .agreement data => handleAgreementPaymentRequested data

/-- The key of the Payment an event asks for. -/
def PaymentRequested.key : PaymentRequested → SourceKey
  | .claim data => .claim data.code data.clientRef data.clientClaimRef
  | .agreement data => .agreement data.agreementNumber data.agreementVersion

end FgGas.Payments
