import Mathlib.Data.List.Nodup
import FgGas.Grants.Claims
import FgGas.Grants.TransitionEffect

/-!
# What is stored of claims

What every committed state keeps of the claims and their records (`ClaimRegistry`), the
records of one claim (`Recorded`), and the change that commits a claim: what it was checked
against, what it stores and where it leaves the application (`Submission`).
-/

namespace FgGas.Grants

/-- A claim's entry in the index on code, client reference and own reference. -/
def Claim.key (c : Claim) : String × String × String := (c.code, c.clientRef, c.clientClaimRef)

/-- The ids of the claims. -/
def GrantStore.claimIds (s : GrantStore) : List String := s.claims.map (·.id)

/-- The entries of the claims in the other index. -/
def GrantStore.claimKeys (s : GrantStore) : List (String × String × String) :=
  s.claims.map Claim.key

/-- The ids of the entitlements. -/
def GrantStore.entitlementIds (s : GrantStore) : List String := s.entitlements.map (·.id)

/-- An entitlement's entry in the index on its application, claim code and number. -/
def Entitlement.slot (e : Entitlement) : String × String × String × Nat :=
  (e.clientRef, e.code, e.claimCode, e.instanceNumber)

/-- The entries of the entitlements in that index. -/
def GrantStore.slots (s : GrantStore) : List (String × String × String × Nat) :=
  s.entitlements.map Entitlement.slot

/-- What every committed state satisfies: the unique indexes, and no command, payment request
or audit event of a claim that is not stored. -/
structure ClaimRegistry (s : GrantStore) : Prop where
  ids : s.claimIds.Nodup
  keys : s.claimKeys.Nodup
  entitlements : s.entitlementIds.Nodup
  slots : s.slots.Nodup
  commands : ∀ q ∈ s.outbox, ∀ id, q.gasClaimId = some id → id ∈ s.claimIds
  payments : ∀ q ∈ s.outbox, ∀ key, q.paymentKey = some key → key ∈ s.claimKeys
  audits : ∀ a ∈ s.audits, ∀ id, a.submittedClaim = some id → id ∈ s.claimIds

/-- The claim is stored, with one case command, one audit event and its payment requests. -/
structure Recorded (claim : Claim) (payments : List Publication) (s : GrantStore) : Prop where
  stored : claim ∈ s.claims
  command : s.outbox.filter (·.gasClaimId = some claim.id) = [claimCaseCommand claim]
  audit : s.audits.filter (·.submittedClaim = some claim.id) = [submitAudit claim]
  payments : s.outbox.filter (·.paymentKey = some claim.key) = payments

/-- The later state has some more claims, and no records of any claims but those. -/
structure Adds (added : List Claim) (before after : GrantStore) : Prop where
  claims : after.claims = before.claims ++ added
  outbox : ∃ rows : List Publication, after.outbox = before.outbox ++ rows ∧
    (∀ q ∈ rows, ∀ id, q.gasClaimId = some id → id ∈ added.map (·.id)) ∧
    ∀ q ∈ rows, ∀ key, q.paymentKey = some key → key ∈ added.map Claim.key
  audits : ∃ audits : List Audit, after.audits = before.audits ++ audits ∧
    ∀ a ∈ audits, ∀ id, a.submittedClaim = some id → id ∈ added.map (·.id)

theorem Adds.claimIds {claims : List Claim} {before after : GrantStore}
    (h : Adds claims before after) : after.claimIds = before.claimIds ++ claims.map (·.id) := by
  rw [GrantStore.claimIds, h.claims, List.map_append, GrantStore.claimIds]

theorem Adds.claimKeys {claims : List Claim} {before after : GrantStore}
    (h : Adds claims before after) :
    after.claimKeys = before.claimKeys ++ claims.map Claim.key := by
  rw [GrantStore.claimKeys, h.claims, List.map_append, GrantStore.claimKeys]

/-- A state keeps the registry when what is added is new and keeps the indexes. -/
theorem ClaimRegistry.adds {claims : List Claim} {before after : GrantStore}
    (h : ClaimRegistry before) (hadds : Adds claims before after)
    (hids : after.claimIds.Nodup) (hkeys : after.claimKeys.Nodup)
    (hentitlements : after.entitlementIds.Nodup) (hslots : after.slots.Nodup) :
    ClaimRegistry after := by
  obtain ⟨rows, hrows, hcommands, hpayments⟩ := hadds.outbox
  obtain ⟨audits, haudits, hsubmitted⟩ := hadds.audits
  refine ⟨hids, hkeys, hentitlements, hslots, ?_, ?_, ?_⟩
  · intro q hq id hid
    rw [hadds.claimIds]
    rw [hrows] at hq
    rcases List.mem_append.mp hq with hq | hq
    · exact List.mem_append_left _ (h.commands q hq id hid)
    · exact List.mem_append_right _ (hcommands q hq id hid)
  · intro q hq key hkey
    rw [hadds.claimKeys]
    rw [hrows] at hq
    rcases List.mem_append.mp hq with hq | hq
    · exact List.mem_append_left _ (h.payments q hq key hkey)
    · exact List.mem_append_right _ (hpayments q hq key hkey)
  · intro a ha id hid
    rw [hadds.claimIds]
    rw [haudits] at ha
    rcases List.mem_append.mp ha with ha | ha
    · exact List.mem_append_left _ (h.audits a ha id hid)
    · exact List.mem_append_right _ (hsubmitted a ha id hid)

/-- Rows with none of a key add nothing to those of the key. -/
theorem filter_append_of_none {A B : Type} [DecidableEq B] {f : A → Option B} {b : B}
    {l rows : List A} (h : ∀ x ∈ rows, f x ≠ some b) :
    (l ++ rows).filter (fun x ↦ f x = some b) = l.filter fun x ↦ f x = some b := by
  have hnil : rows.filter (fun x ↦ f x = some b) = [] :=
    List.filter_eq_nil_iff.mpr fun x hx he ↦ h x hx (of_decide_eq_true he)
  rw [List.filter_append, hnil, List.append_nil]

/-- What is recorded of a claim stays when other claims are added. -/
theorem Recorded.adds {claim : Claim} {payments : List Publication} {claims : List Claim}
    {before after : GrantStore} (h : Recorded claim payments before)
    (hadds : Adds claims before after) (hid : claim.id ∉ claims.map (·.id))
    (hkey : claim.key ∉ claims.map Claim.key) : Recorded claim payments after := by
  obtain ⟨rows, hrows, hcommands, hpayments⟩ := hadds.outbox
  obtain ⟨audits, haudits, hsubmitted⟩ := hadds.audits
  refine ⟨?_, ?_, ?_, ?_⟩
  · rw [hadds.claims]
    exact List.mem_append_left _ h.stored
  · rw [hrows, filter_append_of_none fun q hq he ↦ hid (hcommands q hq _ he)]
    exact h.command
  · rw [haudits, filter_append_of_none fun a ha he ↦ hid (hsubmitted a ha _ he)]
    exact h.audit
  · rw [hrows, filter_append_of_none fun q hq he ↦ hkey (hpayments q hq _ he)]
    exact h.payments

/-- The rows of a key in a list in which nothing but the one in its middle has it. -/
theorem filter_middle {A B : Type} [DecidableEq B] {f : A → Option B} {b : B}
    {l rows : List A} {x : A} (hl : ∀ y ∈ l, f y ≠ some b) (hx : f x = some b)
    (hrows : ∀ y ∈ rows, f y ≠ some b) :
    (l ++ x :: rows).filter (fun y ↦ f y = some b) = [x] := by
  have hnil : l.filter (fun y ↦ f y = some b) = [] :=
    List.filter_eq_nil_iff.mpr fun y hy he ↦ hl y hy (of_decide_eq_true he)
  have hone : ([x] : List A).filter (fun y ↦ f y = some b) = [x] := by simp [hx]
  rw [List.append_cons, filter_append_of_none hrows, List.filter_append, hnil, hone,
    List.nil_append]

/-! ### One claim committed -/

/-- The entry a request's claim takes in the index. -/
def SubmitCommand.key (command : SubmitCommand) : String × String × String :=
  (command.code, command.clientRef, command.metadata.clientClaimRef)

/-- No entitlement takes another claim, of those stored under a template of the grant that
is claimable and not materialised. -/
def NoCapacityLeft (grant : Grant) (a : Application) (s : GrantStore) : Prop :=
  ∀ template ∈ grant.entitlementTemplates, template.claim.isSome → template.materialised = false →
    ∀ e ∈ findExistingEntitlements a.clientRef a.code s, e.claimCode = template.claimCode →
      template.maximumClaims ≤ countByEntitlement a.code a.clientRef e.id s

/-- A claim under the template is the application's last, and moves it to the target. -/
structure FinalClaim (grant : Grant) (template : EntitlementTemplate) (a : Application)
    (s : GrantStore) (target : Position) : Prop where
  requiresApproval : template.requiresApproval = false
  onClaimApproval : grant.onClaimApproval = some ⟨a.position, target⟩
  noCapacityLeft : NoCapacityLeft grant a s

/-- The payment requests of a claim: one if its template needs no approval and a payment is
defined for the pinned version, else none. -/
inductive Paid (catalogue : Catalogue) (claim : Claim) (template : EntitlementTemplate)
    (pinnedVersion : Option String) : List Publication → Prop
  | requested {version : String} {agreement : AgreementReference}
      (happroval : template.requiresApproval = false) (hpinned : pinnedVersion = some version)
      (hversion : version ≠ "") (hdefined : catalogue.paymentDefined version = true) :
      Paid catalogue claim template pinnedVersion [claimPaymentRequest claim version agreement]
  | notRequested (h : template.requiresApproval = true ∨ ∀ version, pinnedVersion = some version →
      version ≠ "" → catalogue.paymentDefined version = false) :
      Paid catalogue claim template pinnedVersion []

/-- A change that commits a claim of a request: what the claim was checked against, what is
stored with it and where it leaves the application. -/
structure Submission (catalogue : Nat → Catalogue) (command : SubmitCommand)
    (before after : GrantStore) where
  grant : Grant
  entitlement : Entitlement
  template : EntitlementTemplate
  claim : Claim
  payments : List Publication
  found : findByClientRefAndCode command.clientRef command.code before =
    some before.application.application
  resolved : ∃ n, resolveGrant (catalogue n) command.code
    before.application.application.pinnedVersion = .ok grant
  claimable : claimableFor grant before.application.application
    (findExistingEntitlements command.clientRef command.code before)
    command.claim.entitlementId = .ok ⟨entitlement, template⟩
  accepted : template.canAcceptClaim before.application.application.position
    (countByEntitlement command.code command.clientRef entitlement.id before) = .ok ()
  created : ∃ id now, claim = newClaim command entitlement.claimCode id now
  unused : claim.id ∉ before.claimIds ∧ claim.key ∉ before.claimKeys
  adds : Adds [claim] before after
  recorded : Recorded claim payments after
  paid : ∃ n, Paid (catalogue n) claim template before.application.application.pinnedVersion
    payments
  entitlements : after.entitlements = before.entitlements
  moved : ∀ target, FinalClaim grant template before.application.application after target →
    Transitioned grant target ⟨command.clientRef, command.code, none⟩
      before.application.application after.application.application
  stays : (∀ target, ¬ FinalClaim grant template before.application.application after target) →
    after.application.application = before.application.application

theorem existsByClientClaimRef_iff {code clientRef clientClaimRef : String} {s : GrantStore} :
    existsByClientClaimRef code clientRef clientClaimRef s = true ↔
      (code, clientRef, clientClaimRef) ∈ s.claimKeys := by
  simp [existsByClientClaimRef, GrantStore.claimKeys, Claim.key]

/-- A claim inserted is new to both indexes. -/
theorem violatedByClaim_eq_none {claim : Claim} {s : GrantStore}
    (h : violatedByClaim claim s = none) : claim.id ∉ s.claimIds ∧ claim.key ∉ s.claimKeys := by
  unfold violatedByClaim at h
  split at h
  · cases h
  · next hid =>
    split at h
    · cases h
    · next hkey =>
      refine ⟨fun hmem ↦ hid ?_, fun hmem ↦ hkey (existsByClientClaimRef_iff.mpr hmem)⟩
      obtain ⟨c, hc, he⟩ := List.mem_map.mp hmem
      exact List.any_eq_true.mpr ⟨c, hc, decide_eq_true he⟩

theorem mem_candidatesFor {grant : Grant} {existing : List Entitlement}
    {c : ClaimableEntitlement} : c ∈ candidatesFor grant existing ↔
      c.template ∈ grant.entitlementTemplates ∧ c.template.claim.isSome ∧
        c.template.materialised = false ∧ c.entitlement ∈ existing ∧
        c.entitlement.claimCode = c.template.claimCode := by
  obtain ⟨e, t⟩ := c
  have htemplate : ∀ template, ⟨e, t⟩ ∈ candidatesForTemplate existing template ↔
      template = t ∧ template.claim.isSome ∧ template.materialised = false ∧ e ∈ existing ∧
        e.claimCode = template.claimCode := by
    intro template
    unfold candidatesForTemplate persistedCandidates
    cases hclaim : template.claim with
    | none => simp
    | some rules =>
      cases hmaterialised : template.materialised with
      | true => simp
      | false =>
        simp [List.mem_insertionSort, and_comm, and_assoc, and_left_comm]
  unfold candidatesFor
  rw [List.mem_flatMap]
  constructor
  · rintro ⟨template, hmem, hcandidate⟩
    obtain ⟨rfl, hrest⟩ := (htemplate template).mp hcandidate
    exact ⟨hmem, hrest⟩
  · rintro ⟨hmem, hrest⟩
    exact ⟨t, hmem, (htemplate t).mpr ⟨rfl, hrest⟩⟩

/-- No candidate has capacity remaining if and only if none is left. -/
theorem hasRemainingApplicationClaimCapacity_eq_false {grant : Grant} {a : Application}
    {s : GrantStore} : hasRemainingApplicationClaimCapacity a (candidatesFor grant
      (findExistingEntitlements a.clientRef a.code s)) s = false ↔ NoCapacityLeft grant a s := by
  unfold hasRemainingApplicationClaimCapacity
  rw [List.any_eq_false]
  constructor
  · intro h template htemplate hclaim hmaterialised e he hcode
    have hfull := h ⟨e, template⟩
      (mem_candidatesFor.mpr ⟨htemplate, hclaim, hmaterialised, he, hcode⟩)
    simpa [EntitlementTemplate.hasRemainingCapacity] using hfull
  · intro h c hc
    obtain ⟨htemplate, hclaim, hmaterialised, he, hcode⟩ := mem_candidatesFor.mp hc
    have hfull := h c.template htemplate hclaim hmaterialised c.entitlement he hcode
    simpa [EntitlementTemplate.hasRemainingCapacity] using hfull

/-- Whether a claim is final hangs on the entitlements and the claims alone. -/
theorem FinalClaim.of_eq {grant : Grant} {template : EntitlementTemplate} {a : Application}
    {s s' : GrantStore} {target : Position} (h : FinalClaim grant template a s target)
    (hentitlements : s'.entitlements = s.entitlements) (hclaims : s'.claims = s.claims) :
    FinalClaim grant template a s' target := by
  refine ⟨h.requiresApproval, h.onClaimApproval, ?_⟩
  simpa only [NoCapacityLeft, findExistingEntitlements, countByEntitlement, hentitlements,
    hclaims] using h.noCapacityLeft

/-- What a request may claim: one of the entitlements, under the template of its claim code. -/
theorem claimableFor_eq_ok {grant : Grant} {a : Application} {existing : List Entitlement}
    {entitlementId : String} {e : Entitlement} {t : EntitlementTemplate}
    (h : claimableFor grant a existing entitlementId = .ok ⟨e, t⟩) :
    existing.find? (·.id = entitlementId) = some e ∧
      grant.findEntitlementTemplate e.claimCode = some t ∧ t.claim.isSome := by
  unfold claimableFor at h
  split at h
  · cases h
  · next found hfound =>
    split at h
    · cases h
    · next template htemplate =>
      cases h
      obtain ⟨hfind, hclaim⟩ := Option.filter_eq_some_iff.mp htemplate
      exact ⟨hfound, hfind, hclaim⟩

section
variable {catalogue : Nat → Catalogue} {command : SubmitCommand} {before after : GrantStore}

/-- The claim takes the entry of its request. -/
theorem Submission.key (h : Submission catalogue command before after) :
    h.claim.key = command.key := by
  obtain ⟨id, now, hclaim⟩ := h.created
  rw [hclaim]
  rfl

/-- The claims of the entitlement, the new one counted, are no more than its template
allows. -/
theorem Submission.countByEntitlement_le (h : Submission catalogue command before after) :
    countByEntitlement command.code command.clientRef h.entitlement.id after ≤
      h.template.maximumClaims := by
  have hroom := canAcceptClaim_eq_ok h.accepted
  have hcount : countByEntitlement command.code command.clientRef h.entitlement.id after ≤
      countByEntitlement command.code command.clientRef h.entitlement.id before + 1 := by
    unfold countByEntitlement
    rw [h.adds.claims, List.countP_append]
    exact Nat.add_le_add_left List.countP_le_length _
  omega

/-- A submission keeps the registry. -/
theorem Submission.registry (h : Submission catalogue command before after)
    (hbefore : ClaimRegistry before) : ClaimRegistry after := by
  refine hbefore.adds h.adds ?_ ?_ ?_ ?_
  · have hids := hbefore.ids.concat h.unused.1
    rw [List.concat_eq_append] at hids
    rw [h.adds.claimIds]
    exact hids
  · have hkeys := hbefore.keys.concat h.unused.2
    rw [List.concat_eq_append] at hkeys
    rw [h.adds.claimKeys]
    exact hkeys
  · rw [GrantStore.entitlementIds, h.entitlements]
    exact hbefore.entitlements
  · rw [GrantStore.slots, h.entitlements]
    exact hbefore.slots

/-- A submission leaves the records of the claims before it. -/
theorem Submission.recorded_of_recorded (h : Submission catalogue command before after)
    {claim : Claim} {payments : List Publication} (hclaim : Recorded claim payments before) :
    Recorded claim payments after := by
  refine hclaim.adds h.adds (fun hid ↦ h.unused.1 ?_) (fun hkey ↦ h.unused.2 ?_)
  · have he : claim.id = h.claim.id := List.mem_singleton.mp hid
    rw [← he]
    exact List.mem_map_of_mem hclaim.stored
  · rw [← List.mem_singleton.mp hkey]
    exact List.mem_map_of_mem hclaim.stored

/-- Where a final claim leaves the application: where it is, if that is the target, else at
the target of a move the grant accepts, as the processes of the move settle it. -/
theorem Submission.settled (h : Submission catalogue command before after) {target : Position}
    (hfinal : FinalClaim h.grant h.template before.application.application after target) :
    before.application.application.fullyQualifiedStatus = target.fullyQualified ∧
        after.application.application = before.application.application ∨
      ∃ processes, h.grant.isValidTransition target
          before.application.application.fullyQualifiedStatus = some processes ∧
        after.application.application.position =
          settledPosition (processes.filterMap GrantProcess.named) before.application.application
            target ∧
        after.application.application.agreements = before.application.application.agreements := by
  refine (h.moved target hfinal).imp_right ?_
  rintro ⟨processes, now, _, hvalid, heffects⟩
  obtain ⟨hagreements, hposition⟩ := heffects.settled rfl
  exact ⟨processes, hvalid, hposition, hagreements⟩

end

end FgGas.Grants
