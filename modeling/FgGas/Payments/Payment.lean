import FgGas.Machine.Doubles
import Std.Data.String.ToNat

/-!
# Payments

The Payment a claim or an accepted agreement version raises, how it is built and checked,
and the publication sent to the Payment Service (`src/payments/models/payment.js`,
`src/payments/use-cases/build-payment.js`, `src/payments/services/claim-id.js`,
`src/payments/events/create-payment.event.js`).
-/

namespace FgGas.Payments

open Machine

/-- An invoice line. -/
structure InvoiceLine where
  schemeCode : String
  description : String
  amountPence : Int
  accountCode : String
  fundCode : String
  deliveryBody : String
  marketingYear : String
  deriving DecidableEq, Repr

/-- A payment that falls due, as the payment definition resolves it. -/
structure ResolvedDue where
  dueDate : String
  totalAmountPence : Int
  invoiceLines : List InvoiceLine
  deriving DecidableEq, Repr

/-- What a payment definition resolves to. -/
structure Resolved where
  sbi : String
  frn : String
  scheme : String
  sourceSystem : String
  deliveryBody : String
  fesCode : String
  originalInvoiceNumber : String
  ledger : String
  totalAmountPence : Int
  currency : String
  marketingYear : String
  payments : List ResolvedDue
  deriving DecidableEq, Repr

/-- A due payment of a Payment. -/
structure DuePayment where
  dueDate : String
  totalAmountPence : Int
  status : String
  correlationId : String
  invoiceLines : List InvoiceLine
  deriving DecidableEq, Repr

/-- The record a Payment was raised from. -/
inductive Source
  | claim (code clientRef clientClaimRef entitlementId agreementNumber : String)
      (agreementVersion : Nat)
  | agreement (agreementNumber : String) (version : Nat)
  deriving DecidableEq, Repr

/-- `sourceFilter`: the fields a Payment is found by, and its partial unique index. -/
inductive SourceKey
  | claim (code clientRef clientClaimRef : String)
  | agreement (agreementNumber : String) (version : Nat)
  deriving DecidableEq, Repr

/-- The key of a source. -/
def Source.key : Source → SourceKey
  | .claim code clientRef clientClaimRef _ _ _ => .claim code clientRef clientClaimRef
  | .agreement agreementNumber version => .agreement agreementNumber version

/-- A stored Payment. -/
structure Payment where
  id : String
  source : Source
  sbi : String
  frn : String
  paymentHubClaimId : String
  scheme : String
  sourceSystem : String
  deliveryBody : String
  fesCode : String
  paymentRequestNumber : Nat
  correlationId : String
  invoiceNumber : String
  originalInvoiceNumber : String
  ledger : String
  totalAmountPence : Int
  currency : String
  marketingYear : String
  payments : List DuePayment
  createdAt : String
  deriving DecidableEq, Repr

/-- JavaScript's `padStart`. -/
def padStart (width : Nat) (fill : Char) (s : List Char) : List Char :=
  List.replicate (width - s.length) fill ++ s

/-- `formatClaimId`. -/
def formatClaimId (sequence : Nat) : String :=
  String.ofList ('R' :: padStart 8 '0' (Nat.toDigits 10 sequence))

/-- `formatInvoiceNumber`. -/
def formatInvoiceNumber (claimId : String) (paymentRequestNumber : Nat) : String :=
  claimId ++ String.ofList ('-' :: 'V' :: padStart 3 '0' (Nat.toDigits 10 paymentRequestNumber) ++
    ['Q', 'X'])

/-- The indexes a Payment may violate. -/
inductive Index
  | id
  | claimSource
  | agreementSource
  | paymentHubClaimId
  deriving DecidableEq, Repr

/-- What a delivery may throw. `unresolved` is whatever loading or evaluating the payment
definition threw. -/
inductive Failure
  | unresolved (text : String)
  | missingCorrelationId
  | invalidPayment
  | invalidOutbox
  | duplicateKey (index : Index)
  deriving DecidableEq, Repr

/-- `Joi.string().required()`. -/
def required (s : String) : Bool := s ≠ ""

/-- `invoiceLineSchema`. -/
def InvoiceLine.valid (line : InvoiceLine) : Bool :=
  required line.schemeCode && required line.description && SafeInteger line.amountPence &&
    required line.accountCode && required line.fundCode && required line.deliveryBody &&
    required line.marketingYear

/-- `duePaymentSchema`. -/
def DuePayment.valid (due : DuePayment) : Bool :=
  required due.dueDate && SafeInteger due.totalAmountPence && required due.status &&
    required due.correlationId && !due.invoiceLines.isEmpty &&
    due.invoiceLines.all InvoiceLine.valid

/-- `reduce` of some amounts to their sum. -/
def sumPence (amounts : List Int) : Int := amounts.foldl addDouble 0

/-- `balancesWithInvoiceLines`. -/
def balancesWithInvoiceLines (payments : List DuePayment) : Bool :=
  payments.all fun due ↦
    due.totalAmountPence = sumPence (due.invoiceLines.map InvoiceLine.amountPence)

/-- `agreementSourceSchema` and `claimSourceSchema`. -/
def Source.valid : Source → Bool
  | .claim code clientRef clientClaimRef entitlementId agreementNumber agreementVersion =>
      required code && required clientRef && required clientClaimRef && required entitlementId &&
        required agreementNumber && 1 ≤ agreementVersion
  | .agreement agreementNumber version => required agreementNumber && 1 ≤ version

/-- The fields of `Payment.validationSchema`. -/
def Payment.fieldsValid (p : Payment) : Bool :=
  required p.id && p.source.valid && required p.sbi && required p.frn &&
    required p.paymentHubClaimId && required p.scheme && required p.sourceSystem &&
    required p.deliveryBody && required p.fesCode && 1 ≤ p.paymentRequestNumber &&
    required p.correlationId && required p.invoiceNumber && required p.ledger &&
    SafeInteger p.totalAmountPence && required p.currency && required p.marketingYear &&
    !p.payments.isEmpty && p.payments.all DuePayment.valid && required p.createdAt

/-- The two balances of `Payment.validationSchema`. -/
def Payment.balanced (p : Payment) : Bool :=
  balancesWithInvoiceLines p.payments &&
    sumPence (p.payments.map DuePayment.totalAmountPence) = p.totalAmountPence

/-- `Payment.validationSchema`. -/
def Payment.valid (p : Payment) : Bool := p.fieldsValid && p.balanced

/-- What one run of a callback draws: the Payment's `randomUUID` and clock reading, a
`randomUUID` for each due payment, and those of the publication's event. -/
structure Draws where
  id : String
  createdAt : String
  dueCorrelationIds : Nat → String
  eventId : String
  eventTime : String

/-- `toDuePayment`. -/
def toDuePayment (correlationId : String) (due : ResolvedDue) : DuePayment where
  dueDate := due.dueDate
  totalAmountPence := due.totalAmountPence
  status := "pending"
  correlationId := correlationId
  invoiceLines := due.invoiceLines

/-- `PAYMENT_REQUEST_NUMBER`. -/
def paymentRequestNumber : Nat := 1

/-- What `buildPayment` hands to `Payment.create`, with what that draws. -/
def paymentOf (source : Source) (correlationId : String) (resolved : Resolved)
    (paymentHubClaimId : String) (draws : Draws) : Payment where
  id := draws.id
  source := source
  sbi := resolved.sbi
  frn := resolved.frn
  paymentHubClaimId := paymentHubClaimId
  scheme := resolved.scheme
  sourceSystem := resolved.sourceSystem
  deliveryBody := resolved.deliveryBody
  fesCode := resolved.fesCode
  paymentRequestNumber := paymentRequestNumber
  correlationId := correlationId
  invoiceNumber := formatInvoiceNumber paymentHubClaimId paymentRequestNumber
  originalInvoiceNumber := resolved.originalInvoiceNumber
  ledger := resolved.ledger
  totalAmountPence := resolved.totalAmountPence
  currency := resolved.currency
  marketingYear := resolved.marketingYear
  payments := resolved.payments.mapIdx fun i due ↦ toDuePayment (draws.dueCorrelationIds i) due
  createdAt := draws.createdAt

/-- `buildPayment`, with the check of `Payment.create`. -/
def buildPayment (source : Source) (correlationId : Option String) (resolved : Resolved)
    (paymentHubClaimId : String) (draws : Draws) : Except Failure Payment :=
  match correlationId with
  | none => .error .missingCorrelationId
  | some "" => .error .missingCorrelationId
  | some correlationId =>
    let payment := paymentOf source correlationId resolved paymentHubClaimId draws
    if payment.valid then .ok payment else .error .invalidPayment

/-- An invoice line of the message, its amount as text. -/
structure InvoiceLineMessage where
  accountCode : String
  amountPence : String
  deliveryBody : String
  description : String
  fundCode : String
  marketingYear : String
  schemeCode : String
  deriving DecidableEq, Repr

/-- A due payment of the message. -/
structure DueMessage where
  dueDate : String
  totalAmountPence : String
  status : String
  correlationId : String
  invoiceLines : List InvoiceLineMessage
  deriving DecidableEq, Repr

/-- The one entry of the message's `grants`. -/
structure GrantMessage where
  sourceSystem : String
  deliveryBody : String
  fesCode : String
  paymentRequestNumber : Nat
  correlationId : String
  invoiceNumber : String
  ledger : String
  originalInvoiceNumber : String
  agreementNumber : String
  totalAmountPence : String
  currency : String
  marketingYear : String
  payments : List DueMessage
  deriving DecidableEq, Repr

/-- The create-payment publication as the outbox stores it. The constants of the envelope
and the row's links are left out. -/
structure CreatePayment where
  eventId : String
  eventTime : String
  sbi : String
  frn : String
  claimId : String
  scheme : String
  grant : GrantMessage
  segregationRef : String
  deriving DecidableEq, Repr

/-- `toInvoiceLine`. -/
def toInvoiceLine (line : InvoiceLine) : InvoiceLineMessage where
  accountCode := line.accountCode
  amountPence := toString line.amountPence
  deliveryBody := line.deliveryBody
  description := line.description
  fundCode := line.fundCode
  marketingYear := line.marketingYear
  schemeCode := line.schemeCode

/-- `toDuePayment` of the publication. -/
def toDueMessage (due : DuePayment) : DueMessage where
  dueDate := due.dueDate
  totalAmountPence := toString due.totalAmountPence
  status := due.status
  correlationId := due.correlationId
  invoiceLines := due.invoiceLines.map toInvoiceLine

/-- `payment.source.agreementNumber`. -/
def Source.agreementNumber : Source → String
  | .claim _ _ _ _ agreementNumber _ => agreementNumber
  | .agreement agreementNumber _ => agreementNumber

/-- `toGrant`. -/
def toGrant (payment : Payment) : GrantMessage where
  sourceSystem := payment.sourceSystem
  deliveryBody := payment.deliveryBody
  fesCode := payment.fesCode
  paymentRequestNumber := payment.paymentRequestNumber
  correlationId := payment.correlationId
  invoiceNumber := payment.invoiceNumber
  ledger := payment.ledger
  originalInvoiceNumber := payment.originalInvoiceNumber
  agreementNumber := payment.source.agreementNumber
  totalAmountPence := toString payment.totalAmountPence
  currency := payment.currency
  marketingYear := payment.marketingYear
  payments := payment.payments.map toDueMessage

/-- `segregationRefOf`. -/
def segregationRefOf (payment : Payment) : String :=
  match payment.source with
  | .claim _ clientRef _ _ _ _ => clientRef
  | .agreement agreementNumber _ => agreementNumber

/-- `createPaymentPublication`. -/
def createPaymentPublication (payment : Payment) (draws : Draws) : CreatePayment where
  eventId := draws.eventId
  eventTime := draws.eventTime
  sbi := payment.sbi
  frn := payment.frn
  claimId := payment.paymentHubClaimId
  scheme := payment.scheme
  grant := toGrant payment
  segregationRef := segregationRefOf payment

/-- What a Payment that was built carries of what it was built from. -/
theorem buildPayment_eq_ok {source : Source} {correlationId : Option String} {resolved : Resolved}
    {claimId : String} {draws : Draws} {payment : Payment}
    (h : buildPayment source correlationId resolved claimId draws = .ok payment) :
    payment.source = source ∧ payment.paymentHubClaimId = claimId ∧
      payment.invoiceNumber = formatInvoiceNumber claimId paymentRequestNumber := by
  unfold buildPayment at h
  split at h
  · cases h
  · cases h
  · simp only at h
    split at h
    · obtain rfl := Except.ok.inj h
      exact ⟨rfl, rfl, rfl⟩
    · cases h

/-- Building a Payment fails for what it was given, never with a duplicate. -/
theorem buildPayment_eq_error {source : Source} {correlationId : Option String}
    {resolved : Resolved} {claimId : String} {draws : Draws} {error : Failure}
    (h : buildPayment source correlationId resolved claimId draws = .error error) :
    error = .missingCorrelationId ∨ error = .invalidPayment := by
  unfold buildPayment at h
  split at h
  · exact .inl (Except.error.inj h).symm
  · exact .inl (Except.error.inj h).symm
  · simp only at h
    split at h
    · cases h
    · exact .inr (Except.error.inj h).symm

/-- Padding with zeros keeps the number. -/
theorem ofDigitChars_padStart (width sequence : Nat) :
    Nat.ofDigitChars 10 (padStart width '0' (Nat.toDigits 10 sequence)) 0 = sequence := by
  rw [padStart, Nat.ofDigitChars_append, Nat.ofDigitChars_replicate_zero, Nat.mul_zero,
    Nat.ofDigitChars_ten_toDigits]

/-- Different sequence numbers give different claim ids. -/
theorem formatClaimId_injective {m n : Nat} (h : formatClaimId m = formatClaimId n) : m = n := by
  have hlist := String.ofList_injective h
  have hpad := (List.cons.inj hlist).2
  rw [← ofDigitChars_padStart 8 m, hpad, ofDigitChars_padStart]

/-- Different claim ids give different invoice numbers. -/
theorem formatInvoiceNumber_injective {c d : String} {n : Nat}
    (h : formatInvoiceNumber c n = formatInvoiceNumber d n) : c = d :=
  (String.append_left_inj _).mp h

end FgGas.Payments
