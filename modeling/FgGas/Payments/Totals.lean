import FgGas.Payments.Payment
import Mathlib.Algebra.Order.BigOperators.Group.List

/-!
# Totals of a payment

One balance is checked twice: of what a payment definition resolves to in BigInt
(`src/payments/schemas/payment-definition.schema.js`), and of the Payment built from it in doubles.
The two agree as long as no total on the way leaves the safe integers.
-/

namespace FgGas.Payments

open Machine

/-- `duePaymentSchema` of the definition, with its lines' `BigInt` sum. -/
def ResolvedDue.valid (due : ResolvedDue) : Bool :=
  required due.dueDate && SafeInteger due.totalAmountPence && !due.invoiceLines.isEmpty &&
    due.invoiceLines.all InvoiceLine.valid &&
    due.totalAmountPence = (due.invoiceLines.map InvoiceLine.amountPence).sum

/-- `resolvedPaymentValueSchema`. -/
def resolvedPaymentValueSchema (resolved : Resolved) : Bool :=
  required resolved.sbi && required resolved.frn && required resolved.scheme &&
    required resolved.sourceSystem && required resolved.deliveryBody && required resolved.fesCode &&
    required resolved.ledger && SafeInteger resolved.totalAmountPence &&
    required resolved.currency && required resolved.marketingYear &&
    !resolved.payments.isEmpty && resolved.payments.all ResolvedDue.valid &&
    resolved.totalAmountPence = (resolved.payments.map ResolvedDue.totalAmountPence).sum

/-- Every total that the Payment's sums run through is safe; the Payment has the totals validated,
its balances hold, and it is refused for nothing else than its other fields. -/
structure TotalsKept (resolved : Resolved) : Prop where
  lines : ∀ due ∈ resolved.payments,
    ∀ total ∈ runningTotals (due.invoiceLines.map InvoiceLine.amountPence), SafeInteger total
  payments : ∀ total ∈ runningTotals (resolved.payments.map ResolvedDue.totalAmountPence),
    SafeInteger total
  totals : ∀ source correlationId claimId draws,
    let payment := paymentOf source correlationId resolved claimId draws
    payment.totalAmountPence = resolved.totalAmountPence ∧
      payment.payments.map (fun due ↦ (due.totalAmountPence, due.invoiceLines)) =
        resolved.payments.map fun due ↦ (due.totalAmountPence, due.invoiceLines)
  balanced : ∀ source correlationId claimId draws,
    (paymentOf source correlationId resolved claimId draws).balanced = true
  built : ∀ source correlationId claimId draws,
    (paymentOf source correlationId resolved claimId draws).fieldsValid = true →
      buildPayment source (some correlationId) resolved claimId draws =
        .ok (paymentOf source correlationId resolved claimId draws)

/-- No leading lines of a payment, and no leading payments, add up to an unsafe integer. -/
structure SafeTotals (resolved : Resolved) : Prop where
  lines : ∀ due ∈ resolved.payments,
    ∀ total ∈ exactTotals (due.invoiceLines.map InvoiceLine.amountPence), SafeInteger total
  payments : ∀ total ∈ exactTotals (resolved.payments.map ResolvedDue.totalAmountPence),
    SafeInteger total

section
variable {resolved : Resolved}

theorem sumPence_eq {amounts : List Int} (h : ∀ total ∈ exactTotals amounts, SafeInteger total) :
    sumPence amounts = amounts.sum := by
  rw [sumPence, foldl_addDouble h, Int.zero_add]

theorem due_of_valid (h : resolvedPaymentValueSchema resolved = true) {due : ResolvedDue}
    (hdue : due ∈ resolved.payments) : SafeInteger due.totalAmountPence ∧
      due.totalAmountPence = (due.invoiceLines.map InvoiceLine.amountPence).sum := by
  simp only [resolvedPaymentValueSchema, Bool.and_eq_true, List.all_eq_true] at h
  have hvalid := h.1.2 due hdue
  simp only [ResolvedDue.valid, Bool.and_eq_true, decide_eq_true_eq] at hvalid
  exact ⟨hvalid.1.1.1.2, hvalid.2⟩

theorem total_of_valid (h : resolvedPaymentValueSchema resolved = true) :
    SafeInteger resolved.totalAmountPence ∧
      resolved.totalAmountPence = (resolved.payments.map ResolvedDue.totalAmountPence).sum := by
  simp only [resolvedPaymentValueSchema, Bool.and_eq_true, decide_eq_true_eq] at h
  exact ⟨h.1.1.1.1.1.2, h.2⟩

/-- What does not depend on the ids drawn for the due payments. -/
theorem map_payments {β : Type} {f : DuePayment → β} {g : ResolvedDue → β}
    (hfg : ∀ correlationId due, f (toDuePayment correlationId due) = g due) (source : Source)
    (correlationId claimId : String) (draws : Draws) :
    (paymentOf source correlationId resolved claimId draws).payments.map f =
      resolved.payments.map g := by
  apply List.ext_getElem
  · simp [paymentOf]
  · intro i hi hi'
    simp [paymentOf, hfg]

/-- Where no total leaves the safe integers, what balances exactly balances in doubles. -/
theorem balanced_of_safe (h : resolvedPaymentValueSchema resolved = true)
    (hsafe : SafeTotals resolved) (source : Source) (correlationId claimId : String)
    (draws : Draws) : (paymentOf source correlationId resolved claimId draws).balanced = true := by
  have htotals := @map_payments resolved _ DuePayment.totalAmountPence ResolvedDue.totalAmountPence
    (fun _ _ ↦ rfl) source correlationId claimId draws
  rw [Payment.balanced, Bool.and_eq_true, decide_eq_true_eq, htotals, sumPence_eq hsafe.payments]
  refine ⟨List.all_eq_true.mpr fun due hdue ↦ ?_, (total_of_valid h).2.symm⟩
  obtain ⟨i, hi, rfl⟩ := List.mem_mapIdx.mp hdue
  have hmem : resolved.payments[i] ∈ resolved.payments := List.getElem_mem hi
  rw [decide_eq_true_eq]
  exact (due_of_valid h hmem).2.trans (sumPence_eq (hsafe.lines _ hmem)).symm

end

theorem scanl_safe_of_nonneg {total : Int} {amounts : List Int} (htotal : 0 ≤ total)
    (h : ∀ amount ∈ amounts, 0 ≤ amount) (hsum : SafeInteger (total + amounts.sum)) :
    ∀ t ∈ amounts.scanl (· + ·) total, SafeInteger t := by
  induction amounts generalizing total with
  | nil =>
    intro t ht
    rw [List.scanl_nil, List.mem_singleton] at ht
    rw [ht]
    simpa using hsum
  | cons amount amounts ih =>
    rw [List.forall_mem_cons] at h
    rw [List.sum_cons, ← Int.add_assoc] at hsum
    have hrest : 0 ≤ amounts.sum := List.sum_nonneg h.2
    rw [List.scanl_cons, List.forall_mem_cons]
    refine ⟨?_, ih (by omega) h.2 hsum⟩
    unfold SafeInteger at hsum ⊢
    omega

/-- A definition without a negative line has no unsafe total. -/
theorem safeTotals_of_nonneg {resolved : Resolved} (h : resolvedPaymentValueSchema resolved = true)
    (hlines : ∀ due ∈ resolved.payments, ∀ line ∈ due.invoiceLines, 0 ≤ line.amountPence) :
    SafeTotals resolved := by
  have hamounts : ∀ due ∈ resolved.payments,
      ∀ amount ∈ due.invoiceLines.map InvoiceLine.amountPence, 0 ≤ amount := by
    intro due hdue amount hamount
    obtain ⟨line, hline, rfl⟩ := List.mem_map.mp hamount
    exact hlines due hdue line hline
  constructor
  · intro due hdue
    obtain ⟨hsafe, hsum⟩ := due_of_valid h hdue
    rw [hsum, ← Int.zero_add (List.sum _)] at hsafe
    exact scanl_safe_of_nonneg le_rfl (hamounts due hdue) hsafe
  · obtain ⟨hsafe, hsum⟩ := total_of_valid h
    rw [hsum, ← Int.zero_add (List.sum _)] at hsafe
    refine scanl_safe_of_nonneg le_rfl (fun total htotal ↦ ?_) hsafe
    obtain ⟨due, hdue, rfl⟩ := List.mem_map.mp htotal
    rw [(due_of_valid h hdue).2]
    exact List.sum_nonneg (hamounts due hdue)

/-- The totals of an accepted definition are kept exactly when no leading lines or payments add up
to an unsafe integer. -/
theorem totals_kept_iff {resolved : Resolved} (h : resolvedPaymentValueSchema resolved = true) :
    TotalsKept resolved ↔ SafeTotals resolved := by
  constructor
  · intro hkept
    exact ⟨fun due hdue ↦ runningTotals_safe_iff.mp (hkept.lines due hdue),
      runningTotals_safe_iff.mp hkept.payments⟩
  · intro hsafe
    have hbalanced := balanced_of_safe h hsafe
    refine ⟨fun due hdue ↦ runningTotals_safe_iff.mpr (hsafe.lines due hdue),
      runningTotals_safe_iff.mpr hsafe.payments, ?_, hbalanced, ?_⟩
    · intro source correlationId claimId draws
      exact ⟨rfl, map_payments (fun _ _ ↦ rfl) source correlationId claimId draws⟩
    · intro source correlationId claimId draws hfields
      have hvalid : (paymentOf source correlationId resolved claimId draws).valid = true := by
        rw [Payment.valid, hfields, hbalanced]
        rfl
      have hpresent : correlationId ≠ "" := by
        rintro rfl
        simp [Payment.fieldsValid, paymentOf, required] at hfields
      unfold buildPayment
      split
      · next heq => cases heq
      · next heq => exact absurd (Option.some.inj heq) hpresent
      · next heq =>
        obtain rfl := Option.some.inj heq
        exact if_pos hvalid

/-- A definition that resolves to one payment with a line for each amount. -/
def resolvedLines (amounts : List Int) : Resolved where
  sbi := "106284736"
  frn := "1102838829"
  scheme := "WMP"
  sourceSystem := "FPTT"
  deliveryBody := "RP00"
  fesCode := "FALS_FPTT"
  originalInvoiceNumber := ""
  ledger := "AP"
  totalAmountPence := amounts.sum
  currency := "GBP"
  marketingYear := "2026"
  payments := [⟨"2026-11-01", amounts.sum,
    amounts.map fun amount ↦ ⟨"80101", "G00", amount, "SOS710", "DRD10", "RP00", "2026"⟩⟩]

/-- A line that takes back part of another: every total is kept. -/
theorem totals_kept_credit : resolvedPaymentValueSchema (resolvedLines [500, -200]) = true ∧
    TotalsKept (resolvedLines [500, -200]) := by
  have hvalid : resolvedPaymentValueSchema (resolvedLines [500, -200]) = true := by decide
  refine ⟨hvalid, (totals_kept_iff hvalid).mpr ⟨?_, ?_⟩⟩
  · intro due hdue
    rw [List.mem_singleton.mp hdue]
    decide
  · decide

/-- What one run draws. -/
def drawn : Draws := ⟨"p-1", "2026-10-01", fun _ ↦ "c-1", "e-1", "2026-10-01"⟩

/-- Two pence past the greatest safe integer and back: a definition is accepted, and the Payment
built from it refused, though its fields are all valid. -/
theorem totals_lost : resolvedPaymentValueSchema (resolvedLines [2 ^ 53 - 1, 2, -2]) = true ∧
    (paymentOf (.agreement "FPTT123" 1) "corr-1" (resolvedLines [2 ^ 53 - 1, 2, -2]) "R10000000"
      drawn).fieldsValid = true ∧
    buildPayment (.agreement "FPTT123" 1) (some "corr-1") (resolvedLines [2 ^ 53 - 1, 2, -2])
      "R10000000" drawn = .error .invalidPayment ∧
    ¬ TotalsKept (resolvedLines [2 ^ 53 - 1, 2, -2]) := by
  have hfields : (paymentOf (.agreement "FPTT123" 1) "corr-1" (resolvedLines [2 ^ 53 - 1, 2, -2])
      "R10000000" drawn).fieldsValid = true := by decide
  have hrefused : buildPayment (.agreement "FPTT123" 1) (some "corr-1")
      (resolvedLines [2 ^ 53 - 1, 2, -2]) "R10000000" drawn = .error .invalidPayment := by decide
  refine ⟨by decide, hfields, hrefused, fun hkept ↦ ?_⟩
  rw [hkept.built _ _ _ _ hfields] at hrefused
  cases hrefused

end FgGas.Payments
