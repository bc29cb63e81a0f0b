import FgGas.Grants.ClaimRegistry
import FgGas.Machine.Guards

/-!
# What the transaction of a submission stores

The steps of `submitInTransaction` one after another, and what they come to: a claim the store
already has is answered with the lock alone, any other that is not refused is a `Submission`.
-/

namespace FgGas.Grants

open Machine Store

theorem empty_apply (s : GrantStore) : Delta.empty.apply s = s := congrFun apply_empty s

theorem publish_nil (δ : Delta) : δ.publish [] = δ := by
  simp [Delta.publish]

section
variable {base : GrantStore} {held : List GrantKey} {δ : Delta}

theorem lockedApplicationFor_writes (command : SubmitCommand) (pinnedVersion : Option String) :
    Writes base (lockedApplicationFor command pinnedVersion) [] .empty fun a held δ ↦
      findByClientRefAndCode command.clientRef command.code base = some a ∧
        a.pinnedVersion = pinnedVersion ∧ held = [.application] ∧ δ = Delta.empty.lock := by
  refine .bind (.lockForUpdate (fun _ ↦ .orThrow fun _ h ↦ by cases h) fun a ha ↦
    .orThrow fun b hb ↦ ?_)
  rw [empty_apply] at ha
  dsimp only at hb
  split at hb
  · cases hb
  · next hpinned =>
    obtain rfl := Except.ok.inj hb
    exact ⟨ha, not_not.mp hpinned, rfl, rfl⟩

theorem claimableWithCapacity_writes (command : SubmitCommand) (grant : Grant) (a : Application) :
    Writes base (claimableWithCapacity command grant a) held δ fun c held' δ' ↦
      claimableFor grant a (findExistingEntitlements command.clientRef command.code (δ.apply base))
        command.claim.entitlementId = .ok c ∧
      c.template.canAcceptClaim a.position
        (countByEntitlement command.code command.clientRef c.entitlement.id (δ.apply base)) =
          .ok () ∧
      held' = held ∧ δ' = δ := by
  refine .bind (.read (.bind (.orThrow fun c hc ↦ .bind (.read (.bind (.orThrow fun _ hok ↦
    .pure ⟨hc, mapError_ok_iff.mp hok, rfl, rfl⟩))))))

theorem insertClaimWithAudit_writes (command : SubmitCommand) (claimCode : String) :
    Writes base (insertClaimWithAudit command claimCode) held δ fun claim held' δ' ↦
      (∃ id now, claim = newClaim command claimCode id now) ∧
      (claim.id ∉ (δ.apply base).claimIds ∧ claim.key ∉ (δ.apply base).claimKeys) ∧
      (∀ k ∈ held, k ∈ held') ∧ δ' = (δ.claim claim).audit (submitAudit claim) := by
  refine .bind (.outside fun outside ↦ .bind (.orThrow fun _ _ ↦ ?_))
  have hf : (fun s : GrantStore ↦ { s with
      claims := s.claims ++ [newClaim command claimCode outside.id outside.now] }) ∘ δ.apply =
        (δ.claim (newClaim command claimCode outside.id outside.now)).apply := by
    funext s
    simp [Delta.apply, Delta.claim]
  refine .bind (.insert hf fun hunused ↦ .bind (.writeAuditEvent (.pure ?_)))
  exact ⟨⟨_, _, rfl⟩, violatedByClaim_eq_none hunused, fun _ hk ↦ List.mem_append_left _ hk, rfl⟩

/-- What the step after a claim leaves: the application moved if the claim is final, and
nothing written if it is not. -/
def LeftAfterClaim (grant : Grant) (template : EntitlementTemplate) (a : Application)
    (base : GrantStore) (held : List GrantKey) (δ : Delta) (_ : Unit) (held' : List GrantKey)
    (δ' : Delta) : Prop :=
  (∀ k ∈ held, k ∈ held') ∧ δ.Extends δ' ∧
  (∀ target, FinalClaim grant template a (δ.apply base) target →
    Transitioned grant target ⟨a.clientRef, a.code, none⟩ a
      (δ'.apply base).application.application) ∧
  ((∀ target, ¬ FinalClaim grant template a (δ.apply base) target) → δ' = δ)

theorem transitionOnFinalClaim_writes (grant : Grant) (template : EntitlementTemplate)
    {a : Application} (ha : (δ.apply base).application.application = a) :
    Writes base (transitionOnFinalClaim grant a template) held δ
      (LeftAfterClaim grant template a base held δ) := by
  have hnone : (∀ target, ¬ FinalClaim grant template a (δ.apply base) target) →
      Writes base (pure () : GrantSession Unit) held δ
        (LeftAfterClaim grant template a base held δ) := fun h ↦
    .pure ⟨fun _ hk ↦ hk, .refl δ, fun target hfinal ↦ absurd hfinal (h target), fun _ ↦ rfl⟩
  unfold transitionOnFinalClaim
  split
  · next happroval =>
    exact hnone fun target hfinal ↦ absurd (hfinal.requiresApproval.symm.trans happroval) (by simp)
  · next happroval =>
    cases htarget : grant.claimApprovalTransitionFor a.position with
    | none =>
      refine hnone fun target hfinal ↦ ?_
      rw [claimApprovalTransitionFor_eq_some.mpr hfinal.onClaimApproval] at htarget
      cases htarget
    | some target =>
      have honly := claimApprovalTransitionFor_eq_some.mp htarget
      refine .bind (.read (.bind (.read ?_)))
      cases hremaining : hasRemainingApplicationClaimCapacity a (candidatesFor grant
          (findExistingEntitlements a.clientRef a.code (δ.apply base))) (δ.apply base) with
      | true =>
        refine hnone fun aim hfinal ↦ ?_
        rw [hasRemainingApplicationClaimCapacity_eq_false.mpr hfinal.noCapacityLeft] at hremaining
        cases hremaining
      | false =>
        have hfinal : FinalClaim grant template a (δ.apply base) target :=
          ⟨by simpa using happroval, honly,
            hasRemainingApplicationClaimCapacity_eq_false.mp hremaining⟩
        refine (transitionApplication_writes _).mono ?_
        rintro _ held' δ' ⟨hheld, hδ, hmoved⟩
        refine ⟨hheld, hδ, fun aim haim ↦ ?_, fun h ↦ absurd hfinal (h target)⟩
        obtain rfl : target = aim := by
          simpa using honly.symm.trans haim.onClaimApproval
        rcases hmoved with ⟨hthere, rfl⟩ | ⟨b, hb, _, htransitioned⟩
        · exact .inl ⟨hthere, ha⟩
        · simpa only [Delta.apply, hb, Option.getD_some] using htransitioned

theorem requestClaimPayment_writes (claim : Claim) (template : EntitlementTemplate)
    (payment : Option String) :
    Writes base (requestClaimPayment claim template payment) held δ fun _ held' δ' ↦
      held' = held ∧ ∃ payments, δ' = δ.publish payments ∧
        ((payment = none ∨ template.requiresApproval = true) ∧ payments = [] ∨
          ∃ version agreement, payment = some version ∧ template.requiresApproval = false ∧
            payments = [claimPaymentRequest claim version agreement]) := by
  unfold requestClaimPayment
  cases payment with
  | none => exact .pure ⟨rfl, [], (publish_nil δ).symm, .inl ⟨.inl rfl, rfl⟩⟩
  | some version =>
    dsimp only
    split
    · next happroval =>
      exact .pure ⟨rfl, [], (publish_nil δ).symm, .inl ⟨.inr happroval, rfl⟩⟩
    · next happroval =>
      refine .bind (.outside fun outside ↦ .bind (.orThrow fun _ _ ↦ .bind (.orThrow
        fun agreement _ ↦ .saveEvents ?_)))
      exact ⟨rfl, _, rfl, .inr ⟨version, agreement, rfl, by simpa using happroval, rfl⟩⟩

end

/-- A payment request is for its claim, and is no case command. -/
theorem Paid.keys {catalogue : Catalogue} {claim : Claim} {template : EntitlementTemplate}
    {pinnedVersion : Option String} {payments : List Publication}
    (h : Paid catalogue claim template pinnedVersion payments) :
    ∀ q ∈ payments, q.gasClaimId = none ∧ q.paymentKey = some claim.key := by
  cases h with
  | requested _ _ _ _ =>
    intro q hq
    rw [List.mem_singleton.mp hq]
    exact ⟨rfl, rfl⟩
  | notRequested _ => exact fun q hq ↦ absurd hq List.not_mem_nil

/-- What is stored with a claim: the command for its case and its audit event, what the step
after the claim adds, and its payment requests. -/
structure Appended (claim : Claim) (payments : List Publication) (before after : GrantStore) :
    Prop where
  entitlements : after.entitlements = before.entitlements
  claims : after.claims = before.claims ++ [claim]
  outbox : ∃ rows, (∀ q ∈ rows, q.Quiet) ∧
    after.outbox = before.outbox ++ claimCaseCommand claim :: (rows ++ payments)
  audits : ∃ audits, (∀ a ∈ audits, a.Quiet) ∧
    after.audits = before.audits ++ submitAudit claim :: audits

section
variable {before after : GrantStore} {claim : Claim} {payments : List Publication}

/-- What goes on from a claim that is inserted, and its payment requests, are stored with it. -/
theorem appended_of_extends {δ : Delta}
    (h : (((Delta.empty.lock.claim claim).audit (submitAudit claim)).publish
      [claimCaseCommand claim]).Extends δ) :
    Appended claim payments before ((δ.publish payments).apply before) := by
  obtain ⟨rows, hrows, houtbox⟩ := h.outbox
  obtain ⟨audits, hquiet, haudits⟩ := h.audits
  constructor
  case entitlements =>
    simp [Delta.apply, Delta.publish, h.entitlements, Delta.audit, Delta.claim, Delta.lock,
      Delta.empty]
  case claims =>
    simp [Delta.apply, Delta.publish, h.claims, Delta.audit, Delta.claim, Delta.lock, Delta.empty]
  case outbox =>
    refine ⟨rows, hrows, ?_⟩
    simp [Delta.apply, Delta.publish, houtbox, Delta.audit, Delta.claim, Delta.lock, Delta.empty]
  case audits =>
    refine ⟨audits, hquiet, ?_⟩
    simp [Delta.apply, Delta.publish, haudits, Delta.audit, Delta.claim, Delta.lock, Delta.empty]

/-- The records stored with a claim are that claim's. -/
theorem Appended.adds (h : Appended claim payments before after)
    (hpayments : ∀ q ∈ payments, q.gasClaimId = none ∧ q.paymentKey = some claim.key) :
    Adds [claim] before after := by
  obtain ⟨rows, hrows, houtbox⟩ := h.outbox
  obtain ⟨audits, hquiet, haudits⟩ := h.audits
  refine ⟨h.claims, ⟨_, houtbox, ?_, ?_⟩, ⟨_, haudits, ?_⟩⟩
  · intro q hq id hid
    rcases List.mem_cons.mp hq with rfl | hq
    · exact List.mem_singleton.mpr (Option.some.inj hid).symm
    · rcases List.mem_append.mp hq with hq | hq
      · cases (hrows q hq).1.symm.trans hid
      · cases (hpayments q hq).1.symm.trans hid
  · intro q hq key hkey
    rcases List.mem_cons.mp hq with rfl | hq
    · cases hkey
    · rcases List.mem_append.mp hq with hq | hq
      · cases (hrows q hq).2.symm.trans hkey
      · exact List.mem_singleton.mpr (Option.some.inj (hkey.symm.trans (hpayments q hq).2))
  · intro a ha id hid
    rcases List.mem_cons.mp ha with rfl | ha
    · exact List.mem_singleton.mpr (Option.some.inj hid).symm
    · cases (hquiet a ha).symm.trans hid

/-- The records stored with a claim that is new to the registry are its only ones. -/
theorem Appended.recorded (h : Appended claim payments before after)
    (hbefore : ClaimRegistry before)
    (hunused : claim.id ∉ before.claimIds ∧ claim.key ∉ before.claimKeys)
    (hpayments : ∀ q ∈ payments, q.gasClaimId = none ∧ q.paymentKey = some claim.key) :
    Recorded claim payments after := by
  obtain ⟨rows, hrows, houtbox⟩ := h.outbox
  obtain ⟨audits, hquiet, haudits⟩ := h.audits
  refine ⟨?_, ?_, ?_, ?_⟩
  · rw [h.claims]
    exact List.mem_append_right _ (List.mem_singleton.mpr rfl)
  · rw [houtbox]
    refine filter_middle (fun q hq he ↦ hunused.1 (hbefore.commands q hq _ he)) rfl ?_
    intro q hq he
    rcases List.mem_append.mp hq with hq | hq
    · cases (hrows q hq).1.symm.trans he
    · cases (hpayments q hq).1.symm.trans he
  · rw [haudits]
    refine filter_middle (fun a ha he ↦ hunused.1 (hbefore.audits a ha _ he)) rfl ?_
    intro a ha he
    cases (hquiet a ha).symm.trans he
  · have hothers : ∀ q ∈ before.outbox ++ claimCaseCommand claim :: rows,
        q.paymentKey ≠ some claim.key := by
      intro q hq he
      rcases List.mem_append.mp hq with hq | hq
      · exact hunused.2 (hbefore.payments q hq _ he)
      · rcases List.mem_cons.mp hq with rfl | hq
        · cases he
        · cases (hrows q hq).2.symm.trans he
    have hnil : (before.outbox ++ claimCaseCommand claim :: rows).filter
        (fun q ↦ q.paymentKey = some claim.key) = [] :=
      List.filter_eq_nil_iff.mpr fun q hq he ↦ hothers q hq (of_decide_eq_true he)
    have hall : payments.filter (fun q ↦ q.paymentKey = some claim.key) = payments :=
      List.filter_eq_self.mpr fun q hq ↦ decide_eq_true (hpayments q hq).2
    rw [houtbox, ← List.cons_append, ← List.append_assoc, List.filter_append, hnil, hall,
      List.nil_append]

end

/-- What a request has found of its payment before its transaction, of the state the
transaction starts on: the pinned version, where a payment is defined for it, if the template
needs no approval. -/
def PaymentFound (catalogue : Nat → Catalogue) (command : SubmitCommand) (grant : Grant)
    (pinnedVersion payment : Option String) (s : GrantStore) : Prop :=
  ∃ n, ∀ a e t, claimableFor grant a
      (findExistingEntitlements command.clientRef command.code s) command.claim.entitlementId =
        .ok ⟨e, t⟩ →
    t.requiresApproval = false →
    payment = (pinnedVersion.filter (· ≠ "")).filter (catalogue n).paymentDefined

/-- The payment requests a transaction stores are those of what was found before it. -/
theorem paid_of_found {catalogue : Catalogue} {claim : Claim} {template : EntitlementTemplate}
    {pinnedVersion payment : Option String} {payments : List Publication}
    (hfound : template.requiresApproval = false →
      payment = (pinnedVersion.filter (· ≠ "")).filter catalogue.paymentDefined)
    (h : (payment = none ∨ template.requiresApproval = true) ∧ payments = [] ∨
      ∃ version agreement, payment = some version ∧ template.requiresApproval = false ∧
        payments = [claimPaymentRequest claim version agreement]) :
    Paid catalogue claim template pinnedVersion payments := by
  rcases h with ⟨hnone, rfl⟩ | ⟨version, agreement, hsome, happroval, rfl⟩
  · cases happroval : template.requiresApproval with
    | true => exact .notRequested (.inl happroval)
    | false =>
      have hpayment : payment = none := hnone.resolve_right (by simp [happroval])
      refine .notRequested (.inr fun version hpinned hversion ↦ ?_)
      have hempty := (hfound happroval).symm.trans hpayment
      simpa [hpinned, hversion, Option.filter] using hempty
  · have hfilter := (hfound happroval).symm.trans hsome
    obtain ⟨hnonempty, hdefined⟩ := Option.filter_eq_some_iff.mp hfilter
    obtain ⟨hpinned, hversion⟩ := Option.filter_eq_some_iff.mp hnonempty
    exact .requested happroval hpinned (by simpa using hversion) hdefined

/-- What the transaction of a submission comes to, if it is not refused. -/
theorem submitInTransaction_writes {catalogue : Nat → Catalogue} {command : SubmitCommand}
    {grant : Grant} {pinnedVersion payment : Option String} {base : GrantStore}
    (hbase : ClaimRegistry base)
    (hresolved : ∃ n, resolveGrant (catalogue n) command.code pinnedVersion = .ok grant)
    (hpayment : PaymentFound catalogue command grant pinnedVersion payment base) :
    Writes base (submitInTransaction command grant pinnedVersion payment) [] .empty
      fun outcome held δ ↦ .application ∈ held ∧
        (outcome = .claim ⟨false, none⟩ ∧ command.key ∈ base.claimKeys ∧ δ = Delta.empty.lock ∨
          ∃ submission : Submission catalogue command base (δ.apply base),
            outcome = .claim ⟨true, some submission.claim.id⟩) := by
  refine .bind ((lockedApplicationFor_writes command pinnedVersion).mono ?_)
  rintro a held δ ⟨hfound, hpinned, rfl, rfl⟩
  obtain ⟨rfl, hclientRef, hcode⟩ := findByClientRefAndCode_eq_some hfound
  have hlock : Delta.empty.lock.apply base = { base with
      application.claimSubmissionLockVersion :=
        base.application.claimSubmissionLockVersion + 1 } := by
    simp [Delta.apply, Delta.empty, Delta.lock]
  refine .bind (.read ?_)
  cases hexists : existsByClientClaimRef command.code command.clientRef
      command.metadata.clientClaimRef (Delta.empty.lock.apply base) with
  | true =>
    rw [hlock] at hexists
    exact .pure ⟨List.mem_singleton.mpr rfl, .inl ⟨rfl, existsByClientClaimRef_iff.mp hexists, rfl⟩⟩
  | false =>
    refine .bind ((claimableWithCapacity_writes command grant _).mono ?_)
    rintro ⟨e, t⟩ held δ ⟨hclaimable, haccepted, rfl, rfl⟩
    refine .bind ((insertClaimWithAudit_writes command e.claimCode).mono ?_)
    rintro claim held δ₁ ⟨hcreated, hunused, hheld₁, rfl⟩
    rw [hlock] at hclaimable haccepted hunused
    have ha : ((((Delta.empty.lock.claim claim).audit (submitAudit claim)).publish
        [claimCaseCommand claim]).apply base).application.application =
          base.application.application := rfl
    refine .bind (.saveEvents (.bind ((transitionOnFinalClaim_writes grant t ha).mono ?_)))
    rintro _ held₂ δ₂ ⟨hheld₂, hδ₂, hmoved, hstays⟩
    refine .bind ((requestClaimPayment_writes claim t payment).mono ?_)
    rintro _ held₃ δ₃ ⟨rfl, payments, rfl, hpayments⟩
    obtain ⟨n, hn⟩ := hpayment
    have happended : Appended claim payments base ((δ₂.publish payments).apply base) :=
      appended_of_extends hδ₂
    have hpaid : Paid (catalogue n) claim t pinnedVersion payments :=
      paid_of_found (hn _ e t hclaimable) hpayments
    let submission : Submission catalogue command base ((δ₂.publish payments).apply base) := {
      grant := grant
      entitlement := e
      template := t
      claim := claim
      payments := payments
      found := hfound
      resolved := hpinned ▸ hresolved
      claimable := hclaimable
      accepted := haccepted
      created := hcreated
      unused := hunused
      adds := happended.adds hpaid.keys
      recorded := happended.recorded hbase hunused hpaid.keys
      paid := ⟨n, hpinned ▸ hpaid⟩
      entitlements := happended.entitlements
      moved := fun target hfinal ↦ by
        -- the step saw the claims and entitlements the transaction commits
        have hmove := hmoved target
          (hfinal.of_eq happended.entitlements.symm happended.claims.symm)
        rwa [hclientRef, hcode] at hmove
      stays := fun hnone ↦ by
        have hδ := hstays fun target hfinal ↦
          hnone target (hfinal.of_eq happended.entitlements happended.claims)
        rw [hδ]
        exact ha }
    exact .pure ⟨hheld₂ _ (hheld₁ _ (List.mem_singleton.mpr rfl)), .inr ⟨submission, rfl⟩⟩

end FgGas.Grants
