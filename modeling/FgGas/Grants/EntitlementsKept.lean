import FgGas.Grants.ClaimsOnce

/-!
# Entitlements keep their rules

In every interleaving of the requests on an application its entitlements are numbered without
repetition, each is created within the cap of its template under the least free number, an
update reaches the input fields alone, and an entitlement with a claim stays as it is.
-/

namespace FgGas.Grants

open Machine Store

section
variable {catalogue : Nat → Catalogue} {fresh : Prop} {request : GrantRequest}
  {before after : GrantStore}

/-- Claims are only added, so a count never falls. -/
theorem countByEntitlement_mono (h : before.claims <+: after.claims) (code clientRef id : String) :
    countByEntitlement code clientRef id before ≤ countByEntitlement code clientRef id after :=
  h.sublist.countP_le

/-- The entitlement is stored, and a claim for it is. -/
structure Claimed (e : Entitlement) (s : GrantStore) : Prop where
  stored : e ∈ s.entitlements
  claimed : countByEntitlement e.code e.clientRef e.id s ≠ 0

/-- Every change leaves an entitlement with a claim as it is. -/
theorem GrantRequest.Changes.claimed (h : request.Changes catalogue fresh before after)
    (hbefore : ClaimRegistry before) {e : Entitlement} (he : Claimed e before) :
    Claimed e after := by
  have hle := (h.keeps hbefore).2
  refine ⟨?_, ?_⟩
  · cases request with
    | submit command =>
      rcases h with hsubmission | ⟨_, rfl⟩
      · obtain ⟨submission⟩ := hsubmission
        rw [submission.entitlements]
        exact he.stored
      · exact he.stored
    | create command =>
      obtain ⟨creation⟩ := h
      rw [creation.entitlements]
      exact List.mem_append_left _ he.stored
    | update command =>
      obtain ⟨update⟩ := h
      exact update.mem_of_claimed hbefore he.stored he.claimed
    | apply command =>
      cases h with
      | pinned _ hafter =>
        rw [hafter]
        exact he.stored
      | unchanged h =>
        rw [h]
        exact he.stored
      | moved _ _ _ _ hentitlements =>
        rw [hentitlements]
        exact he.stored
  · have hcount := countByEntitlement_mono hle.1 e.code e.clientRef e.id
    have hclaimed := he.claimed
    omega

end

/-- Any number of entitlement creations and updates, submissions and status changes on an
application, in any interleaving: no two entitlements share their claim code and number; each
change by a creation keeps the cap of the template it was checked against and takes the least
free number; each change by an update reaches the input fields of its entitlement alone; and
an entitlement with a claim, in any state so far, is stored as it was. -/
theorem entitlements_kept {T : Type} [DecidableEq T] {catalogue : Nat → Catalogue}
    {s₀ : GrantStore} (hs₀ : ClaimRegistry s₀) (requests : T → GrantRequest)
    {ls : List (T × Store.Move GrantOutside)}
    {s : System GrantKey GrantStore GrantOutside GrantFailure (Option Application) GrantOutcome
      (Except GrantFailure GrantOutcome) T}
    (h : Run System.step anyStep (System.start s₀ fun t ↦ (requests t).run catalogue) ls s) :
    s.db.slots.Nodup ∧
    (∀ c ∈ s.log, ∀ command, requests c.thread = .create command →
      ∃ creation : EntitlementCreation catalogue command c.before c.after,
        (entitlementsOf command.clientRef command.code command.claimCode c.after).length ≤
          creation.template.maxEntitlements ∧
        1 ≤ creation.entitlement.instanceNumber ∧
        (∀ e ∈ entitlementsOf command.clientRef command.code command.claimCode c.before,
          e.instanceNumber ≠ creation.entitlement.instanceNumber) ∧
        ∀ n, 1 ≤ n → n < creation.entitlement.instanceNumber →
          ∃ e ∈ entitlementsOf command.clientRef command.code command.claimCode c.before,
            e.instanceNumber = n) ∧
    (∀ c ∈ s.log, ∀ command, requests c.thread = .update command →
      ∃ update : EntitlementUpdate catalogue command c.before c.after,
        List.Forall₂ (UpdatedFrom update.template command.entitlementId) c.before.entitlements
          c.after.entitlements) ∧
    ∀ seen ∈ s₀ :: s.log.map Change.after, ∀ e, Claimed e seen → e ∈ s.db.entitlements := by
  have hsound := grants_sound_any hs₀ h
  have hregistry := Chained.every (P := ClaimRegistry) hsound.chain
    (fun c hc hbefore ↦ ((hsound.log c hc).keeps hbefore).1) hs₀
  have hkeep : ∀ e, ∀ c ∈ s.log, Claimed e c.before → Claimed e c.after := fun e c hc he ↦
    (hsound.log c hc).claimed (hregistry c hc).1 he
  refine ⟨hsound.inv.slots, ?_, ?_, ?_⟩
  · intro c hc command hcommand
    have hchange := hsound.log c hc
    simp only [grantPromise, hcommand] at hchange
    obtain ⟨creation⟩ := hchange
    exact ⟨creation, creation.length_le, creation.instanceNumber_least⟩
  · intro c hc command hcommand
    have hchange := hsound.log c hc
    simp only [grantPromise, hcommand] at hchange
    obtain ⟨update⟩ := hchange
    exact ⟨update, update.updatedFrom (hregistry c hc).1⟩
  · intro seen hseen e he
    rcases List.mem_cons.mp hseen with rfl | hseen
    · exact (Chained.lasts hsound.chain (hkeep e) he).stored
    · obtain ⟨c, hc, rfl⟩ := List.mem_map.mp hseen
      exact (Chained.kept hsound.chain (hkeep e) hc he).stored

/-- Thread 0 submits a claim for the entitlement, thread 1 creates another of its claim code,
and thread 2 then asks for new data for the one claimed. -/
def claimedEntitlement : Nat → GrantRequest
  | 0 => .submit (claimOf "r-1")
  | 1 => .create ⟨"woodland", "app-1", "PA3", [("hectares", "3")]⟩
  | _ => .update ⟨"woodland", "app-1", "e-1", [("hectares", "9")]⟩

/-- Each in turn. -/
def claimThenChange : List (Nat × Store.Move GrantOutside) :=
  submitReads 0 "c-1" ++ submitSteps 0 "c-1" [] ++
    (1, .look 0) :: turns 1 "e-2"
      [true, false, false, false, false, true, false, true, false, false] ++
    (2, .look 0) :: turns 2 "e-1" [true, false, false, false, false, false, false]

/-- The entitlement with a claim keeps its data, and the new one takes the next number. -/
theorem entitlements_kept_claimed :
    ∃ s, exec System.step (System.start claimable fun t ↦
        (claimedEntitlement t).run (woodlandCatalogue [])) claimThenChange = some s ∧
      s.log.map (·.thread) = [0, 1] ∧
      s.db.entitlements.map (fun e ↦ (e.instanceNumber, e.data)) =
        [(1, [("hectares", "2")]), (2, [("hectares", "3")])] ∧
      s.db.slots.Nodup := by
  have hexec : (exec System.step (System.start claimable fun t ↦
      (claimedEntitlement t).run (woodlandCatalogue [])) claimThenChange).map (fun s ↦
        (s.log.map (·.thread), s.db.entitlements.map fun e ↦ (e.instanceNumber, e.data))) =
      some ([0, 1], [(1, [("hectares", "2")]), (2, [("hectares", "3")])]) := by rfl
  obtain ⟨s, hs, hfacts⟩ := Option.map_eq_some_iff.mp hexec
  simp only [Prod.mk.injEq] at hfacts
  exact ⟨s, hs, hfacts.1, hfacts.2,
    (entitlements_kept registry_claimable claimedEntitlement (Run.of_exec hs)).1⟩

end FgGas.Grants
