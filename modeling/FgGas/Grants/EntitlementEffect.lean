import FgGas.Grants.ClaimRegistry
import FgGas.Grants.Entitlements

/-!
# What creating and updating an entitlement stores

Both take the application's lock first, store no claim and nothing of one, and leave the
application as it was. The change that commits one says what it was checked against
(`EntitlementCreation`, `EntitlementUpdate`).
-/

namespace FgGas.Grants

open Store

/-- What of an entitlement never changes: its id, its application and its claim code. -/
def Entitlement.named (e : Entitlement) : String × String × String × String :=
  (e.id, e.clientRef, e.code, e.claimCode)

/-- What of the entitlements never changes. -/
def GrantStore.named (s : GrantStore) : List (String × String × String × String) :=
  s.entitlements.map Entitlement.named

/-- The value of a field. -/
def fieldValue (data : EntitlementData) (name : String) : Option String :=
  (data.find? (·.1 = name)).map (·.2)

/-- The grant a request resolves for the application, at some moment. -/
def ResolvesGrant (catalogue : Nat → Catalogue) (pinnedVersion : Option String) (grant : Grant) :
    Prop :=
  ∃ n version, (catalogue n).currentGrant pinnedVersion = .ok (some grant, version)

/-- The entitlements of an application under a claim code. -/
def entitlementsOf (clientRef code claimCode : String) (s : GrantStore) : List Entitlement :=
  (findExistingEntitlements clientRef code s).filter (·.claimCode = claimCode)

/-- The entitlements with the data of the one replaced. -/
def updated (e : Entitlement) (l : List Entitlement) : List Entitlement :=
  l.map fun f ↦
    if f.id = e.id ∧ f.clientRef = e.clientRef ∧ f.code = e.code then
      { f with data := e.data, updatedAt := e.updatedAt }
    else f

/-- A change that commits an entitlement: what it was checked against, and what is stored. -/
structure EntitlementCreation (catalogue : Nat → Catalogue) (command : CreateCommand)
    (before after : GrantStore) where
  grant : Grant
  template : EntitlementTemplate
  entitlement : Entitlement
  resolved : ResolvesGrant catalogue before.application.application.pinnedVersion grant
  template_eq : grant.findEntitlementTemplate command.claimCode = some template
  decided : entitlementCreationDecision command grant before.application.application
    (findExistingEntitlements command.clientRef command.code before) =
      .ok entitlement.instanceNumber
  created : entitlement.clientRef = command.clientRef ∧ entitlement.code = command.code ∧
    entitlement.claimCode = command.claimCode
  unused : entitlement.id ∉ before.entitlementIds ∧ entitlement.slot ∉ before.slots
  adds : Adds [] before after
  application : after.application.application = before.application.application
  entitlements : after.entitlements = before.entitlements ++ [entitlement]

/-- A change that commits an update: what it was checked against, and what is replaced. -/
structure EntitlementUpdate (catalogue : Nat → Catalogue) (command : UpdateCommand)
    (before after : GrantStore) where
  grant : Grant
  template : EntitlementTemplate
  entitlement : Entitlement
  now : String
  resolved : ResolvesGrant catalogue before.application.application.pinnedVersion grant
  found : (findExistingEntitlements command.clientRef command.code before).find?
    (·.id = command.entitlementId) = some entitlement
  template_eq : grant.findEntitlementTemplate entitlement.claimCode = some template
  unclaimed : countByEntitlement command.code command.clientRef command.entitlementId before = 0
  valid : template.hasValidInputData command.data = true
  adds : Adds [] before after
  application : after.application.application = before.application.application
  entitlements : after.entitlements = updated { entitlement with
    data := mergeData entitlement.data command.data, updatedAt := some now } before.entitlements

/-- An entitlement after an update of the id under the template: the one of the id may have
changed in its input fields, any other has not. -/
structure UpdatedFrom (template : EntitlementTemplate) (id : String) (e e' : Entitlement) :
    Prop where
  rest : e' = { e with data := e'.data, updatedAt := e'.updatedAt }
  fields : ∀ name, name ∉ template.inputFieldNames →
    fieldValue e'.data name = fieldValue e.data name
  others : e.id ≠ id → e' = e

/-- A field that is not replaced keeps its value. -/
theorem fieldValue_mergeData {data fields : EntitlementData} {name : String}
    (h : name ∉ fields.map (·.1)) :
    fieldValue (mergeData data fields) name = fieldValue data name := by
  have hfields : fields.find? (·.1 = name) = none := by
    refine List.find?_eq_none.mpr fun d hd he ↦ h ?_
    exact List.mem_map.mpr ⟨d, hd, of_decide_eq_true he⟩
  have hdata : (data.filter fun d ↦ fields.all (·.1 ≠ d.1)).find? (·.1 = name) =
      data.find? (·.1 = name) := by
    rw [List.find?_filter]
    refine congrArg (fun p ↦ data.find? p) (funext fun d ↦ ?_)
    by_cases hd : d.1 = name
    · have hall : (fields.all fun f ↦ decide (f.1 ≠ d.1)) = true :=
        List.all_eq_true.mpr fun f hf ↦ decide_eq_true fun he ↦
          h (List.mem_map.mpr ⟨f, hf, he.trans hd⟩)
      simp only [hall, true_and, Bool.decide_eq_true]
    · simp [hd]
  unfold fieldValue mergeData
  rw [List.find?_append, hdata, hfields, Option.or_none]

theorem nextInstanceNumber_spec (existing : List Entitlement) :
    1 ≤ nextInstanceNumber existing ∧
    (∀ e ∈ existing, e.instanceNumber ≠ nextInstanceNumber existing) ∧
    ∀ m, 1 ≤ m → m < nextInstanceNumber existing → ∃ e ∈ existing, e.instanceNumber = m := by
  unfold nextInstanceNumber
  cases hfind : (List.range' 1 (existing.length + 1)).find? fun n ↦
      existing.all (·.instanceNumber ≠ n) with
  | none =>
    -- one more number than entitlements: they cannot all be taken
    have htaken : List.range' 1 (existing.length + 1) ⊆ existing.map (·.instanceNumber) := by
      intro n hn
      have hnot := List.find?_eq_none.mp hfind n hn
      simpa using hnot
    have hlength := ((List.nodup_range' 1).subperm htaken).length_le
    simp only [List.length_range', List.length_map] at hlength
    omega
  | some n =>
    obtain ⟨hn, before, after, hrange, hbefore⟩ := List.find?_eq_some_iff_append.mp hfind
    have hmem : n ∈ List.range' 1 (existing.length + 1) := by
      rw [hrange]
      exact List.mem_append_right _ List.mem_cons_self
    have hone : 1 ≤ n := (List.mem_range'_1.mp hmem).1
    refine ⟨hone, ?_, ?_⟩
    · intro e he
      simpa using List.all_eq_true.mp hn e he
    · intro m hm hlt
      have hlt' : m < n := hlt
      have hmemm : m ∈ before ++ n :: after := by
        rw [← hrange]
        exact List.mem_range'_1.mpr ⟨hm, lt_trans hlt' (List.mem_range'_1.mp hmem).2⟩
      have hsorted : (before ++ n :: after).Pairwise (· < ·) := hrange ▸ List.pairwise_lt_range'
      have hm' : m ∈ before := by
        rcases List.mem_append.mp hmemm with hm' | hm'
        · exact hm'
        · have htail := (List.pairwise_append.mp hsorted).2.1
          rcases List.mem_cons.mp hm' with rfl | hm'
          · exact absurd hlt' (lt_irrefl _)
          · exact absurd hlt' (lt_asymm (List.rel_of_pairwise_cons htail hm'))
      simpa using hbefore m hm'

/-- An id under which nothing is stored, and a slot that is free. -/
theorem violatedByEntitlement_eq_none {e : Entitlement} {s : GrantStore}
    (h : violatedByEntitlement e s = none) : e.id ∉ s.entitlementIds ∧ e.slot ∉ s.slots := by
  unfold violatedByEntitlement at h
  split at h
  · cases h
  · next hslot =>
    split at h
    · cases h
    · next hid =>
      refine ⟨fun hmem ↦ ?_, fun hmem ↦ ?_⟩
      · obtain ⟨f, hf, he⟩ := List.mem_map.mp hmem
        exact hid (List.any_eq_true.mpr ⟨f, hf, decide_eq_true he⟩)
      · obtain ⟨f, hf, he⟩ := List.mem_map.mp hmem
        simp only [Entitlement.slot, Prod.mk.injEq] at he
        exact hslot (List.any_eq_true.mpr ⟨f, hf, decide_eq_true he⟩)

/-- The store of an application with one audit event more, and nothing for a claim. -/
theorem adds_nil_of_audited {before after : GrantStore} {audit : Audit} (hquiet : audit.Quiet)
    (hclaims : after.claims = before.claims) (houtbox : after.outbox = before.outbox)
    (haudits : after.audits = before.audits ++ [audit]) : Adds [] before after := by
  refine ⟨by rw [hclaims, List.append_nil], ⟨[], by rw [houtbox, List.append_nil], ?_, ?_⟩,
    ⟨[audit], haudits, ?_⟩⟩
  · exact fun q hq ↦ absurd hq List.not_mem_nil
  · exact fun q hq ↦ absurd hq List.not_mem_nil
  · intro a ha id hid
    rw [List.mem_singleton.mp ha] at hid
    cases hquiet.symm.trans hid

theorem named_updated (e : Entitlement) (l : List Entitlement) :
    (updated e l).map Entitlement.named = l.map Entitlement.named := by
  rw [updated, List.map_map]
  refine List.map_congr_left fun f _ ↦ ?_
  simp only [Function.comp_apply]
  split <;> rfl

theorem slots_updated (e : Entitlement) (l : List Entitlement) :
    (updated e l).map Entitlement.slot = l.map Entitlement.slot := by
  rw [updated, List.map_map]
  refine List.map_congr_left fun f _ ↦ ?_
  simp only [Function.comp_apply]
  split <;> rfl

theorem entitlementIds_eq_named (s : GrantStore) : s.entitlementIds = s.named.map Prod.fst := by
  simp [GrantStore.entitlementIds, GrantStore.named, Entitlement.named]

/-- What was found, where finding nothing throws. -/
theorem elim_eq_ok {A : Type} {found : Option A} {failure : GrantFailure} {a : A}
    (h : found.elim (.error failure) Except.ok = .ok a) : found = some a := by
  cases found with
  | none => cases h
  | some b => exact congrArg some (Except.ok.inj h)

/-! ### The transactions -/

section
variable {base : GrantStore} {catalogue : Nat → Catalogue}

theorem lockApplication_writes (clientRef code : String) :
    Writes base (lockApplication clientRef code) [] .empty fun a held δ ↦
      a = base.application.application ∧ held = [.application] ∧ δ = Delta.empty.lock := by
  refine .bind (.lockForUpdate (fun _ ↦ .orThrow fun _ h ↦ by cases h) fun a ha ↦
    .orThrow fun b hb ↦ ?_)
  rw [apply_empty] at ha
  obtain rfl := Except.ok.inj hb
  exact ⟨(findByClientRefAndCode_eq_some ha).1, rfl, rfl⟩

theorem createInTransaction_writes {command : CreateCommand} {grant : Grant}
    {pinnedVersion : Option String} (hresolved : ResolvesGrant catalogue pinnedVersion grant) :
    Writes base (createInTransaction command grant pinnedVersion) [] .empty fun _ held δ ↦
      .application ∈ held ∧
        Nonempty (EntitlementCreation catalogue command base (δ.apply base)) := by
  refine .bind ((lockApplication_writes _ _).mono ?_)
  rintro _ held δ ⟨rfl, rfl, rfl⟩
  refine .bind (.orThrow fun _ hpinned ↦ .bind (.read (.bind (.orThrow fun instanceNumber hdecided ↦
    .bind (.outside fun outside ↦ .bind (.orThrow fun _ _ ↦ .bind (.orThrow
      fun configVersion _ ↦ ?_)))))))
  have hpinned' : base.application.application.pinnedVersion = pinnedVersion := by
    split at hpinned
    · cases hpinned
    · next h => exact not_not.mp h
  have htemplate : ∃ template, grant.findEntitlementTemplate command.claimCode = some template := by
    unfold entitlementCreationDecision at hdecided
    split at hdecided
    · cases hdecided
    · next template htemplate => exact ⟨template, htemplate⟩
  obtain ⟨template, htemplate⟩ := htemplate
  let e : Entitlement := ⟨outside.id, command.clientRef, command.code, command.claimCode,
    instanceNumber, configVersion, mergeData command.data outside.fixedData, outside.now, none⟩
  have hf : (fun s : GrantStore ↦ { s with entitlements := s.entitlements ++ [e] }) ∘
      Delta.empty.lock.apply = (Delta.empty.lock.change (· ++ [e])).apply := rfl
  refine .bind (.insert hf fun hunused ↦ .bind (.writeAuditEvent (.pure ?_)))
  refine ⟨List.mem_append_left _ (List.mem_singleton.mpr rfl), ⟨{
    grant := grant
    template := template
    entitlement := e
    resolved := hpinned' ▸ hresolved
    template_eq := htemplate
    decided := hdecided
    created := ⟨rfl, rfl, rfl⟩
    unused := violatedByEntitlement_eq_none hunused
    adds := adds_nil_of_audited (Audit.quiet_of_ne (by simp)) (List.append_nil _)
      (List.append_nil _) rfl
    application := rfl
    entitlements := rfl }⟩⟩

theorem updateInTransaction_writes {command : UpdateCommand} {grant : Grant}
    {pinnedVersion : Option String} (hresolved : ResolvesGrant catalogue pinnedVersion grant) :
    Writes base (updateInTransaction command grant pinnedVersion) [] .empty fun _ held δ ↦
      .application ∈ held ∧ Nonempty (EntitlementUpdate catalogue command base (δ.apply base)) := by
  refine .bind ((lockApplication_writes _ _).mono ?_)
  rintro _ held δ ⟨rfl, rfl, rfl⟩
  refine .bind (.orThrow fun _ hpinned ↦ .bind (.read (.bind (.orThrow fun entitlement hfound ↦
    .bind (.orThrow fun template htemplate ↦ .bind (.read (.bind (.orThrow fun _ hcount ↦
      .bind (.orThrow fun _ hvalid ↦ .bind (.outside fun outside ↦ .bind (.orThrow fun _ _ ↦
        ?_)))))))))))
  have hpinned' : base.application.application.pinnedVersion = pinnedVersion := by
    split at hpinned
    · cases hpinned
    · next h => exact not_not.mp h
  have hfound' : (findExistingEntitlements command.clientRef command.code base).find?
      (·.id = command.entitlementId) = some entitlement := elim_eq_ok hfound
  have hcount' : countByEntitlement command.code command.clientRef command.entitlementId base =
      0 := by
    split at hcount
    · cases hcount
    · next h =>
      have hzero := not_not.mp h
      simpa [countByEntitlement, Delta.apply, Delta.lock, Delta.empty] using hzero
  have hvalid' : template.hasValidInputData command.data = true := by
    split at hvalid
    · cases hvalid
    · next h => simpa using h
  let e : Entitlement := { entitlement with
    data := mergeData entitlement.data command.data, updatedAt := some outside.now }
  have hf : (fun s : GrantStore ↦ { s with entitlements := updated e s.entitlements }) ∘
      Delta.empty.lock.apply = (Delta.empty.lock.change (updated e)).apply := rfl
  refine .bind (.write hf (.bind (.writeAuditEvent (.pure ?_))))
  refine ⟨List.mem_append_left _ (List.mem_singleton.mpr rfl), ⟨{
    grant := grant
    template := template
    entitlement := entitlement
    now := outside.now
    resolved := hpinned' ▸ hresolved
    found := hfound'
    template_eq := elim_eq_ok htemplate
    unclaimed := hcount'
    valid := hvalid'
    adds := adds_nil_of_audited (Audit.quiet_of_ne (by simp)) (List.append_nil _)
      (List.append_nil _) rfl
    application := rfl
    entitlements := rfl }⟩⟩

end

/-! ### What a change keeps -/

section
variable {catalogue : Nat → Catalogue} {before after : GrantStore}

/-- Adding no claim keeps the claims. -/
theorem Adds.nil_claims (h : Adds [] before after) : after.claims = before.claims := by
  rw [h.claims, List.append_nil]

/-- A state with no claim added keeps the registry if the entitlements keep their indexes. -/
theorem ClaimRegistry.adds_nil (hbefore : ClaimRegistry before) (h : Adds [] before after)
    (hentitlements : after.entitlementIds.Nodup) (hslots : after.slots.Nodup) :
    ClaimRegistry after := by
  refine hbefore.adds h ?_ ?_ hentitlements hslots
  · rw [GrantStore.claimIds, h.nil_claims]
    exact hbefore.ids
  · rw [GrantStore.claimKeys, h.nil_claims]
    exact hbefore.keys

theorem EntitlementCreation.registry {command : CreateCommand}
    (h : EntitlementCreation catalogue command before after) (hbefore : ClaimRegistry before) :
    ClaimRegistry after := by
  refine hbefore.adds_nil h.adds ?_ ?_
  · have hids := hbefore.entitlements.concat h.unused.1
    simpa [GrantStore.entitlementIds, h.entitlements] using hids
  · have hslots := hbefore.slots.concat h.unused.2
    simpa [GrantStore.slots, h.entitlements] using hslots

theorem EntitlementCreation.named_prefix {command : CreateCommand}
    (h : EntitlementCreation catalogue command before after) : before.named <+: after.named := by
  rw [GrantStore.named, GrantStore.named, h.entitlements, List.map_append]
  exact List.prefix_append _ _

theorem EntitlementUpdate.named_eq {command : UpdateCommand}
    (h : EntitlementUpdate catalogue command before after) : after.named = before.named := by
  rw [GrantStore.named, h.entitlements, named_updated, GrantStore.named]

theorem EntitlementUpdate.registry {command : UpdateCommand}
    (h : EntitlementUpdate catalogue command before after) (hbefore : ClaimRegistry before) :
    ClaimRegistry after := by
  refine hbefore.adds_nil h.adds ?_ ?_
  · rw [entitlementIds_eq_named, h.named_eq, ← entitlementIds_eq_named]
    exact hbefore.entitlements
  · rw [GrantStore.slots, h.entitlements, slots_updated]
    exact hbefore.slots

/-- What the decision to create an entitlement has found. -/
theorem entitlementCreationDecision_eq_ok {command : CreateCommand} {grant : Grant}
    {a : Application} {existing : List Entitlement} {template : EntitlementTemplate} {n : Nat}
    (htemplate : grant.findEntitlementTemplate command.claimCode = some template)
    (h : entitlementCreationDecision command grant a existing = .ok n) :
    (existing.filter (·.claimCode = command.claimCode)).length < template.maxEntitlements ∧
      n = nextInstanceNumber (existing.filter (·.claimCode = command.claimCode)) := by
  have hcode : template.claimCode = command.claimCode := by
    simpa using List.find?_some htemplate
  unfold entitlementCreationDecision at h
  rw [htemplate] at h
  dsimp only at h
  rw [hcode] at h
  split at h
  · cases h
  · split at h
    · cases h
    · split at h
      · cases h
      · next hroom => exact ⟨not_le.mp hroom, (Except.ok.inj h).symm⟩

section
variable {command : CreateCommand}

theorem EntitlementCreation.entitlementsOf_eq
    (h : EntitlementCreation catalogue command before after) :
    entitlementsOf command.clientRef command.code command.claimCode after =
      entitlementsOf command.clientRef command.code command.claimCode before ++
        [h.entitlement] := by
  obtain ⟨hclientRef, hcode, hclaimCode⟩ := h.created
  simp [entitlementsOf, findExistingEntitlements, h.entitlements, hclientRef, hcode, hclaimCode]

/-- The entitlements of the claim code, the new one counted, are no more than its template
allows. -/
theorem EntitlementCreation.length_le (h : EntitlementCreation catalogue command before after) :
    (entitlementsOf command.clientRef command.code command.claimCode after).length ≤
      h.template.maxEntitlements := by
  obtain ⟨hroom, _⟩ := entitlementCreationDecision_eq_ok h.template_eq h.decided
  rw [h.entitlementsOf_eq, List.length_append]
  exact hroom

/-- The new entitlement takes the least number that those of its claim code leave. -/
theorem EntitlementCreation.instanceNumber_least
    (h : EntitlementCreation catalogue command before after) :
    1 ≤ h.entitlement.instanceNumber ∧
    (∀ e ∈ entitlementsOf command.clientRef command.code command.claimCode before,
      e.instanceNumber ≠ h.entitlement.instanceNumber) ∧
    ∀ n, 1 ≤ n → n < h.entitlement.instanceNumber →
      ∃ e ∈ entitlementsOf command.clientRef command.code command.claimCode before,
        e.instanceNumber = n := by
  obtain ⟨_, hnumber⟩ := entitlementCreationDecision_eq_ok h.template_eq h.decided
  rw [hnumber]
  exact nextInstanceNumber_spec _

end

section
variable {command : UpdateCommand}

/-- An update changes nothing but the input fields of the entitlement it is for. -/
theorem EntitlementUpdate.updatedFrom (h : EntitlementUpdate catalogue command before after)
    (hbefore : ClaimRegistry before) :
    List.Forall₂ (UpdatedFrom h.template command.entitlementId) before.entitlements
      after.entitlements := by
  have hid : h.entitlement.id = command.entitlementId := by
    simpa using List.find?_some h.found
  have hmem : h.entitlement ∈ before.entitlements :=
    List.mem_of_mem_filter (List.mem_of_find?_eq_some h.found)
  rw [h.entitlements, updated, List.forall₂_map_right_iff]
  refine List.forall₂_same.mpr fun e he ↦ ?_
  split
  · next hsame =>
    -- the id is in use once, so this is the entitlement that was found
    obtain rfl : e = h.entitlement := List.inj_on_of_nodup_map hbefore.entitlements he hmem hsame.1
    refine ⟨rfl, fun name hname ↦ fieldValue_mergeData fun hmem ↦ hname ?_,
      fun hne ↦ absurd hid hne⟩
    exact mem_inputFieldNames_of_hasValidInputData h.valid hmem
  · exact ⟨rfl, fun _ _ ↦ rfl, fun _ ↦ rfl⟩

/-- An update leaves an entitlement with a claim alone. -/
theorem EntitlementUpdate.mem_of_claimed (h : EntitlementUpdate catalogue command before after)
    (hbefore : ClaimRegistry before) {e : Entitlement} (he : e ∈ before.entitlements)
    (hclaimed : countByEntitlement e.code e.clientRef e.id before ≠ 0) :
    e ∈ after.entitlements := by
  have hid : h.entitlement.id = command.entitlementId := by
    simpa using List.find?_some h.found
  have hfound := List.mem_filter.mp (List.mem_of_find?_eq_some h.found)
  obtain ⟨hclientRef, hcode⟩ := of_decide_eq_true hfound.2
  rw [h.entitlements, updated]
  refine List.mem_map.mpr ⟨e, he, if_neg fun hsame ↦ hclaimed ?_⟩
  obtain rfl : e = h.entitlement :=
    List.inj_on_of_nodup_map hbefore.entitlements he hfound.1 hsame.1
  rw [hclientRef, hcode, hid]
  exact h.unclaimed

end

end

end FgGas.Grants
