import FgGas.Grants.Requests
import FgGas.Store.History

/-!
# Claims are committed once

In every interleaving of the requests on an application a claim is committed within the
maximum of the template it was checked against, once for each reference, and with one case
command, one audit event and the payment request it is due. The change that commits a claim
also moves the application if the claim is final.
-/

namespace FgGas.Grants

open Machine Store

section
variable {catalogue : Nat → Catalogue} {fresh : Prop} {request : GrantRequest}
  {before after : GrantStore}

/-- Adding no claim leaves what is recorded of a claim. -/
theorem Recorded.adds_nil {claim : Claim} {payments : List Publication}
    (h : Recorded claim payments before) (hadds : Adds [] before after) :
    Recorded claim payments after :=
  h.adds hadds List.not_mem_nil List.not_mem_nil

/-- Every change leaves what is recorded of a claim. -/
theorem GrantRequest.Changes.recorded (h : request.Changes catalogue fresh before after)
    {claim : Claim} {payments : List Publication} (hclaim : Recorded claim payments before) :
    Recorded claim payments after := by
  cases request with
  | submit command =>
    rcases h with hsubmission | ⟨_, rfl⟩
    · obtain ⟨submission⟩ := hsubmission
      exact submission.recorded_of_recorded hclaim
    · exact ⟨hclaim.stored, hclaim.command, hclaim.audit, hclaim.payments⟩
  | create command =>
    obtain ⟨creation⟩ := h
    exact hclaim.adds_nil creation.adds
  | update command =>
    obtain ⟨update⟩ := h
    exact hclaim.adds_nil update.adds
  | apply command =>
    cases h with
    | pinned _ hafter =>
      rw [hafter]
      exact ⟨hclaim.stored, hclaim.command, hclaim.audit, hclaim.payments⟩
    | unchanged h =>
      rw [h]
      exact hclaim
    | moved _ _ _ hadds _ => exact hclaim.adds_nil hadds

/-- A change that brings a claim is the submission of that claim. -/
theorem GrantRequest.Changes.submission_of_brought
    (h : request.Changes catalogue fresh before after)
    {claim : Claim} (hbefore : claim ∉ before.claims) (hafter : claim ∈ after.claims) :
    ∃ command, request = .submit command ∧
      ∃ submission : Submission catalogue command before after, submission.claim = claim := by
  have hnone : after.claims ≠ before.claims := fun he ↦ hbefore (he ▸ hafter)
  cases request with
  | submit command =>
    rcases h with hsubmission | ⟨_, rfl⟩
    · obtain ⟨submission⟩ := hsubmission
      rw [submission.adds.claims] at hafter
      rcases List.mem_append.mp hafter with hmem | hmem
      · exact absurd hmem hbefore
      · exact ⟨command, rfl, submission, (List.mem_singleton.mp hmem).symm⟩
    · exact absurd rfl hnone
  | create command =>
    obtain ⟨creation⟩ := h
    exact absurd creation.adds.nil_claims hnone
  | update command =>
    obtain ⟨update⟩ := h
    exact absurd update.adds.nil_claims hnone
  | apply command =>
    cases h with
    | pinned _ hafter =>
      rw [hafter] at hnone
      exact absurd rfl hnone
    | unchanged h =>
      rw [h] at hnone
      exact absurd rfl hnone
    | moved _ _ _ hadds _ => exact absurd hadds.nil_claims hnone

end

/-- Any number of submissions, entitlement creations and updates and status changes on an
application, in any interleaving: no two claims share their reference; each change by a
submission either commits a claim whose reference was free, within the maximum of the
template it was checked against, with records that are the claim's only ones to the end, or
finds the reference taken and counts the lock up; there are no claims but those; and a
submission that fails has committed nothing. -/
theorem claims_committed_once {T : Type} [DecidableEq T] {catalogue : Nat → Catalogue}
    {s₀ : GrantStore} (hs₀ : ClaimRegistry s₀) (requests : T → GrantRequest)
    {ls : List (T × Store.Move GrantOutside)}
    {s : System GrantKey GrantStore GrantOutside GrantFailure (Option Application) GrantOutcome
      (Except GrantFailure GrantOutcome) T}
    (h : Run System.step anyStep (System.start s₀ fun t ↦ (requests t).run catalogue) ls s) :
    s.db.claimKeys.Nodup ∧
    (∀ c ∈ s.log, ∀ command, requests c.thread = .submit command →
      (∃ submission : Submission catalogue command c.before c.after,
        command.key ∉ c.before.claimKeys ∧
        countByEntitlement command.code command.clientRef submission.entitlement.id c.after ≤
          submission.template.maximumClaims ∧
        Recorded submission.claim submission.payments s.db) ∨
      command.key ∈ c.before.claimKeys ∧ c.after = c.before.locked) ∧
    (∀ claim ∈ s.db.claims, claim ∉ s₀.claims → ∃ c ∈ s.log, ∃ command,
      requests c.thread = .submit command ∧
      ∃ submission : Submission catalogue command c.before c.after, submission.claim = claim ∧
        Recorded claim submission.payments s.db) ∧
    s.log.map Change.before ++ [s.db] = s₀ :: s.log.map Change.after ∧
    ∀ t command result, requests t = .submit command → (s.threads t).result = some result →
      (GrantRequest.submit command).EndsWell catalogue result (s.threads t).own s.db := by
  have hsound := grants_sound_any hs₀ h
  have hrecorded : ∀ c ∈ s.log, ∀ {claim payments}, Recorded claim payments c.after →
      Recorded claim payments s.db := fun c hc claim payments hclaim ↦
    Chained.kept hsound.chain (fun d hd hbefore ↦ (hsound.log d hd).recorded hbefore) hc hclaim
  refine ⟨hsound.inv.keys, ?_, ?_, hsound.chain, ?_⟩
  · intro c hc command hcommand
    have hchange := hsound.log c hc
    simp only [grantPromise, hcommand] at hchange
    rcases hchange with hsubmission | hreplayed
    · obtain ⟨submission⟩ := hsubmission
      exact .inl ⟨submission, submission.key ▸ submission.unused.2,
        submission.countByEntitlement_le, hrecorded c hc submission.recorded⟩
    · exact .inr hreplayed
  · intro claim hclaim hnew
    obtain ⟨c, hc, hbefore, hafter⟩ := Chained.brought (P := fun s : GrantStore ↦ claim ∈ s.claims)
      hsound.chain hnew hclaim
    obtain ⟨command, hcommand, submission, rfl⟩ :=
      (hsound.log c hc).submission_of_brought hbefore hafter
    exact ⟨c, hc, command, hcommand, submission, rfl, hrecorded c hc submission.recorded⟩
  · intro t command result hcommand hresult
    rw [← hcommand]
    exact hsound.result hresult

/-- In every such run the change that commits a claim moves the application if and only if
the claim is final: to the target, by a move the grant accepts and as the processes of the
move settle it, unless it stands there; and a submission that fails has committed nothing. -/
theorem final_claim_moves {T : Type} [DecidableEq T] {catalogue : Nat → Catalogue}
    {s₀ : GrantStore} (hs₀ : ClaimRegistry s₀) (requests : T → GrantRequest)
    {ls : List (T × Store.Move GrantOutside)}
    {s : System GrantKey GrantStore GrantOutside GrantFailure (Option Application) GrantOutcome
      (Except GrantFailure GrantOutcome) T}
    (h : Run System.step anyStep (System.start s₀ fun t ↦ (requests t).run catalogue) ls s) :
    (∀ c ∈ s.log, ∀ command, requests c.thread = .submit command →
      (∃ submission : Submission catalogue command c.before c.after,
        (∀ target, FinalClaim submission.grant submission.template
            c.before.application.application c.after target →
          c.before.application.application.fullyQualifiedStatus = target.fullyQualified ∧
              c.after.application.application = c.before.application.application ∨
            ∃ processes, submission.grant.isValidTransition target
                c.before.application.application.fullyQualifiedStatus = some processes ∧
              c.after.application.application.position =
                settledPosition (processes.filterMap GrantProcess.named)
                  c.before.application.application target) ∧
        ((∀ target, ¬ FinalClaim submission.grant submission.template
            c.before.application.application c.after target) →
          c.after.application.application = c.before.application.application)) ∨
      c.after.claims = c.before.claims ∧
        c.after.application.application = c.before.application.application) ∧
    ∀ t command failure, requests t = .submit command →
      (s.threads t).result = some (.error failure) → (s.threads t).own = [] := by
  have hsound := grants_sound_any hs₀ h
  refine ⟨?_, ?_⟩
  · intro c hc command hcommand
    have hchange := hsound.log c hc
    simp only [grantPromise, hcommand] at hchange
    rcases hchange with hsubmission | ⟨_, hlocked⟩
    · obtain ⟨submission⟩ := hsubmission
      refine .inl ⟨submission, fun target hfinal ↦ ?_, submission.stays⟩
      refine (submission.settled hfinal).imp_right ?_
      rintro ⟨processes, hvalid, hposition, _⟩
      exact ⟨processes, hvalid, hposition⟩
    · rw [hlocked]
      exact .inr ⟨rfl, rfl⟩
  · intro t command failure hcommand hresult
    have hpost := hsound.result hresult
    simp only [grantPromise, hcommand] at hpost
    exact hpost

/-! ### Two runs -/

/-- A position of one stage. -/
def claimStage (status : String) : Position := ⟨"POST_AWARD", "CLAIMS", status⟩

/-- A template whose entitlements take one claim each, which is paid on submission. -/
def hectares : EntitlementTemplate where
  claimCode := "PA3"
  name := "Assessed hectares"
  materialised := false
  fields := [⟨"hectares", true, fun _ ↦ true⟩]
  maxEntitlements := 2
  availableAt := [⟨"POST_AWARD", none, none⟩]
  claim := some ⟨[⟨"POST_AWARD", none, none⟩], some 1, false⟩
  invalidDataMessage := fun _ ↦ ""
  fields_nodup := by decide

/-- A grant whose final claim leads to the target, entered with the processes. -/
def woodland (processes : List String) : Grant where
  code := "woodland"
  phases := [⟨"POST_AWARD", [⟨"CLAIMS", [⟨"OPEN", [], []⟩, ⟨"CLOSED", [], processes⟩]⟩]⟩]
  externalStatusMap := []
  entitlementTemplates := [hectares]
  onClaimApproval := some ⟨claimStage "OPEN", claimStage "CLOSED"⟩

/-- The catalogue with that grant in one version, for which a payment is defined. -/
def woodlandCatalogue (processes : List String) : Nat → Catalogue :=
  fun _ ↦ ⟨fun _ ↦ .ok (some (woodland processes), some "1.0.0"), fun _ ↦ true⟩

/-- An application with one entitlement to claim for. -/
def claimable : GrantStore where
  application := ⟨⟨"app-1", "woodland", claimStage "OPEN", some "1.0.0", some "1.0.0", "t0", []⟩, 0⟩
  entitlements := [⟨"e-1", "app-1", "woodland", "PA3", 1, "1.0.0", [("hectares", "2")], "t0", none⟩]
  claims := []
  outbox := []
  audits := []

theorem registry_claimable : ClaimRegistry claimable :=
  ⟨by decide, by decide, by decide, by decide, by simp [claimable], by simp [claimable],
    by simp [claimable]⟩

/-- A claim for the entitlement. -/
def claimOf (clientClaimRef : String) : SubmitCommand where
  code := "woodland"
  clientRef := "app-1"
  metadata := ⟨"woodland", "app-1", clientClaimRef, "106", "1100"⟩
  claim := ⟨"e-1", 5000⟩

/-- A world that refuses nothing, at one moment. -/
def answers (id : String) : GrantOutside :=
  ⟨0, "t1", none, id, some ⟨"WMP1", 1, "corr-1"⟩, []⟩

/-- A thread takes an answer, or the one step it has. -/
def turns {T : Type} (t : T) (id : String) (asks : List Bool) :
    List (T × Store.Move GrantOutside) :=
  asks.map fun ask ↦ (t, if ask then .ask (answers id) else .go)

/-- The reads of a submission before its transaction. -/
def submitReads {T : Type} (t : T) (id : String) : List (T × Store.Move GrantOutside) :=
  [(t, .look 0), (t, .look 0), (t, .ask (answers id)), (t, .look 0), (t, .ask (answers id))]

/-- The steps of the transaction of a final claim, with the steps of the processes of its move. -/
def submitSteps {T : Type} (t : T) (id : String) (processes : List Bool) :
    List (T × Store.Move GrantOutside) :=
  turns t id ([false, false, false, false, false, false] ++
    [true, false, true, false, true, false] ++
    [false, false, true, false, true, false, true, false, true, false] ++ processes ++
    [true, true, false, false])

/-- Two submissions of one claim, the first of which commits before the second starts its
transaction. -/
def claimTwice : List (Bool × Store.Move GrantOutside) :=
  submitReads false "c-1" ++ submitReads true "c-2" ++ submitSteps false "c-1" [] ++
    turns true "c-2" [false, false, false, false, false]

/-- The later submission finds its claim stored. -/
theorem claims_committed_once_replayed :
    ∃ s, exec System.step (System.start claimable fun _ : Bool ↦
        (GrantRequest.submit (claimOf "r-1")).run (woodlandCatalogue [])) claimTwice = some s ∧
      (s.threads true).result = some (.ok (.claim ⟨false, none⟩)) ∧
      s.db.claimKeys = [("woodland", "app-1", "r-1")] ∧ s.db.claimKeys.Nodup := by
  have hexec : (exec System.step (System.start claimable fun _ : Bool ↦
      (GrantRequest.submit (claimOf "r-1")).run (woodlandCatalogue [])) claimTwice).map
      (fun s ↦ ((s.threads true).result, s.db.claimKeys)) =
        some (some (.ok (.claim ⟨false, none⟩)), [("woodland", "app-1", "r-1")]) := by rfl
  obtain ⟨s, hs, hfacts⟩ := Option.map_eq_some_iff.mp hexec
  simp only [Prod.mk.injEq] at hfacts
  exact ⟨s, hs, hfacts.1, hfacts.2, (claims_committed_once registry_claimable
    (fun _ ↦ .submit (claimOf "r-1")) (Run.of_exec hs)).1⟩

/-- A final claim moves its application, and the claim after it fails. -/
theorem final_claim_moves_once :
    ∃ s, exec System.step (System.start claimable fun t : Bool ↦
        (GrantRequest.submit (claimOf (if t then "r-2" else "r-1"))).run (woodlandCatalogue []))
        (submitReads false "c-1" ++ submitReads true "c-2" ++ submitSteps false "c-1" [] ++
          turns true "c-2" [false, false, false, false, false, false, false]) = some s ∧
      s.db.application.application.position = claimStage "CLOSED" ∧ s.db.claims.length = 1 ∧
      (s.threads true).own = [] := by
  have hexec : (exec System.step (System.start claimable fun t : Bool ↦
      (GrantRequest.submit (claimOf (if t then "r-2" else "r-1"))).run (woodlandCatalogue []))
      (submitReads false "c-1" ++ submitReads true "c-2" ++ submitSteps false "c-1" [] ++
        turns true "c-2" [false, false, false, false, false, false, false])).map
      (fun s ↦ (s.db.application.application.position, s.db.claims.length,
        (s.threads true).result)) =
        some (claimStage "CLOSED", 1,
          some (.error ClaimRefusal.maximumClaimsReached.failure)) := by rfl
  obtain ⟨s, hs, hfacts⟩ := Option.map_eq_some_iff.mp hexec
  simp only [Prod.mk.injEq] at hfacts
  obtain ⟨hposition, hlength, hresult⟩ := hfacts
  exact ⟨s, hs, hposition, hlength, (final_claim_moves registry_claimable
    (fun t ↦ .submit (claimOf (if t then "r-2" else "r-1"))) (Run.of_exec hs)).2 true _ _ rfl
      hresult⟩

/-- A final claim whose move asks for the withdrawal of an application with no agreement on
offer leaves the application withdrawn, and not at the target. -/
theorem final_claim_withdraws :
    ∃ s, exec System.step (System.start claimable fun _ : Unit ↦
        (GrantRequest.submit (claimOf "r-1")).run
          (woodlandCatalogue ["REQUEST_APPLICATION_WITHDRAWAL"]))
        (submitReads () "c-1" ++ submitSteps () "c-1"
          [false, true, false, true, false, true, false]) = some s ∧
      s.db.claims.length = 1 ∧
      FinalClaim (woodland ["REQUEST_APPLICATION_WITHDRAWAL"]) hectares
        claimable.application.application s.db (claimStage "CLOSED") ∧
      s.db.application.application.position ≠ claimStage "CLOSED" := by
  have hexec : (exec System.step (System.start claimable fun _ : Unit ↦
      (GrantRequest.submit (claimOf "r-1")).run
        (woodlandCatalogue ["REQUEST_APPLICATION_WITHDRAWAL"]))
      (submitReads () "c-1" ++ submitSteps () "c-1"
        [false, true, false, true, false, true, false])).map (fun s ↦ (s.db.claims.length,
        hasRemainingApplicationClaimCapacity claimable.application.application
          (candidatesFor (woodland ["REQUEST_APPLICATION_WITHDRAWAL"])
            (findExistingEntitlements "app-1" "woodland" s.db)) s.db,
        s.db.application.application.position)) =
      some (1, false, claimStage "APPLICATION_WITHDRAWN") := by rfl
  obtain ⟨s, hs, hfacts⟩ := Option.map_eq_some_iff.mp hexec
  simp only [Prod.mk.injEq] at hfacts
  obtain ⟨hlength, hfull, hposition⟩ := hfacts
  refine ⟨s, hs, hlength, ⟨rfl, rfl, ?_⟩, ?_⟩
  · exact hasRemainingApplicationClaimCapacity_eq_false.mp hfull
  · rw [hposition]
    decide

end FgGas.Grants
