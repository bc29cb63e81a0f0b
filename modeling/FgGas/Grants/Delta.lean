import FgGas.Grants.Transition

/-!
# What a transaction on an application writes

The writes of a session are a delta: the last document saved, how often the lock was counted
up, and what was added to the collections. `Writes` is the rule of the store's logic for
sessions whose writes are a delta; a session that throws stores nothing, so nothing is asked
of it.
-/

namespace FgGas.Grants

open Store

/-- What a transaction has written so far. -/
structure Delta where
  application : Option Application
  locks : Nat
  entitlements : List Entitlement → List Entitlement
  claims : List Claim
  outbox : List Publication
  audits : List Audit

/-- Nothing written. -/
def Delta.empty : Delta := ⟨none, 0, id, [], [], []⟩

/-- The store with the delta written. -/
def Delta.apply (δ : Delta) (s : GrantStore) : GrantStore where
  application := ⟨δ.application.getD s.application.application,
    s.application.claimSubmissionLockVersion + δ.locks⟩
  entitlements := δ.entitlements s.entitlements
  claims := s.claims ++ δ.claims
  outbox := s.outbox ++ δ.outbox
  audits := s.audits ++ δ.audits

/-- A document saved. -/
def Delta.save (δ : Delta) (a : Application) : Delta := { δ with application := some a }

/-- The lock counted up. -/
def Delta.lock (δ : Delta) : Delta := { δ with locks := δ.locks + 1 }

/-- Publications stored. -/
def Delta.publish (δ : Delta) (rows : List Publication) : Delta :=
  { δ with outbox := δ.outbox ++ rows }

/-- An audit event stored. -/
def Delta.audit (δ : Delta) (audit : Audit) : Delta := { δ with audits := δ.audits ++ [audit] }

/-- A claim stored. -/
def Delta.claim (δ : Delta) (claim : Claim) : Delta := { δ with claims := δ.claims ++ [claim] }

/-- The entitlements changed. -/
def Delta.change (δ : Delta) (f : List Entitlement → List Entitlement) : Delta :=
  { δ with entitlements := f ∘ δ.entitlements }

theorem apply_empty : Delta.empty.apply = id := by
  funext s
  simp [Delta.apply, Delta.empty]

/-- The session ends, if it does not throw, with a delta that satisfies `P`. -/
def Writes {A : Type} (base : GrantStore) (x : GrantSession A) (held : List GrantKey) (δ : Delta)
    (P : A → List GrantKey → Delta → Prop) : Prop :=
  x.Leads base held δ.apply fun result held write ↦ match result with
    | .error _ => True
    | .ok value => ∃ δ : Delta, write = δ.apply ∧ P value held δ

section
variable {A B : Type} {base : GrantStore} {held : List GrantKey} {δ : Delta}
  {P P' : A → List GrantKey → Delta → Prop} {Q : B → List GrantKey → Delta → Prop}

theorem Writes.mono {x : GrantSession A} (hx : Writes base x held δ P)
    (h : ∀ value held δ, P value held δ → P' value held δ) : Writes base x held δ P' := by
  refine Session.Leads.mono ?_ hx
  intro result held write hresult
  cases result with
  | error _ => trivial
  | ok value =>
    obtain ⟨δ, hwrite, hp⟩ := hresult
    exact ⟨δ, hwrite, h _ _ _ hp⟩

theorem Writes.bind {x : GrantSession A} {f : A → GrantSession B}
    (h : Writes base x held δ fun value held δ ↦ Writes base (f value) held δ Q) :
    Writes base (x >>= f) held δ Q := by
  unfold Writes at h ⊢
  rw [Session.leads_bind]
  refine Session.Leads.mono ?_ h
  intro result held write hresult
  cases result with
  | error _ => trivial
  | ok value =>
    obtain ⟨δ, rfl, hq⟩ := hresult
    exact hq

theorem Writes.pure {value : A} (h : P value held δ) :
    Writes base (Pure.pure value : GrantSession A) held δ P := ⟨δ, rfl, h⟩

theorem Writes.read {f : GrantStore → A} (h : P (f (δ.apply base)) held δ) :
    Writes base (Session.read f) held δ P := by
  unfold Writes
  rw [Session.leads_read]
  exact ⟨δ, rfl, h⟩

theorem Writes.orThrow {r : Except GrantFailure A} (h : ∀ value, r = .ok value → P value held δ) :
    Writes base (Session.orThrow r) held δ P := by
  unfold Writes
  rw [Session.leads_orThrow]
  cases r with
  | error _ => trivial
  | ok value => exact ⟨δ, rfl, h value rfl⟩

theorem Writes.outside {P : GrantOutside → List GrantKey → Delta → Prop}
    (h : ∀ outside, P outside held δ) : Writes base Session.outside held δ P :=
  fun outside ↦ ⟨δ, rfl, h outside⟩

/-- A conditional write that happens. -/
theorem Writes.insert {taken : GrantStore → Option GrantFailure} {touch : List GrantKey}
    {f : GrantStore → GrantStore} {δ' : Delta} {P : Unit → List GrantKey → Delta → Prop}
    (hf : f ∘ δ.apply = δ'.apply)
    (h : taken (δ.apply base) = none → P () (held ++ touch) δ') :
    Writes base (Session.insert taken touch f) held δ P := by
  unfold Writes
  rw [Session.leads_insert]
  cases htaken : taken (δ.apply base) with
  | some failure => trivial
  | none => exact ⟨δ', hf, h htaken⟩

theorem Writes.write {touch : List GrantKey} {f : GrantStore → GrantStore} {δ' : Delta}
    {P : Unit → List GrantKey → Delta → Prop} (hf : f ∘ δ.apply = δ'.apply)
    (h : P () (held ++ touch) δ') : Writes base (Session.write touch f) held δ P := ⟨δ', hf, h⟩

variable {P : Unit → List GrantKey → Delta → Prop}

theorem Writes.saveEvents {rows : List Publication} (h : P () held (δ.publish rows)) :
    Writes base (saveEvents rows) held δ P := by
  unfold FgGas.Grants.saveEvents
  have hf : (fun s : GrantStore ↦ { s with outbox := s.outbox ++ rows }) ∘ δ.apply =
      (δ.publish rows).apply := by
    funext s
    simp [Delta.apply, Delta.publish]
  refine .bind (.outside fun outside ↦ .bind (.orThrow fun _ _ ↦ .write hf ?_))
  rwa [List.append_nil]

theorem Writes.writeAuditEvent {audit : Audit} (h : P () held (δ.audit audit)) :
    Writes base (writeAuditEvent audit) held δ P := by
  unfold FgGas.Grants.writeAuditEvent
  have hf : (fun s : GrantStore ↦ { s with audits := s.audits ++ [audit] }) ∘ δ.apply =
      (δ.audit audit).apply := by
    funext s
    simp [Delta.apply, Delta.audit]
  refine .bind (.outside fun outside ↦ .bind (.orThrow fun _ _ ↦ .write hf ?_))
  rwa [List.append_nil]

/-- A document is saved where one of its references stood. -/
theorem Writes.update {a : Application}
    (h : unmodified a (δ.apply base) = none → P () (held ++ [.application]) (δ.save a)) :
    Writes base (update a) held δ P :=
  .insert rfl h

end

/-- The lock is taken on the application of the references, and returned as it was. -/
theorem Writes.lockForUpdate {base : GrantStore} {held : List GrantKey} {δ : Delta}
    {P : Option Application → List GrantKey → Delta → Prop} {clientRef code : String}
    (hnone : findByClientRefAndCode clientRef code (δ.apply base) = none → P none held δ)
    (hsome : ∀ a, findByClientRefAndCode clientRef code (δ.apply base) = some a →
      P (some a) (held ++ [.application]) δ.lock) :
    Writes base (lockForUpdate clientRef code) held δ P := by
  unfold Writes FgGas.Grants.lockForUpdate
  simp only [Session.Leads]
  cases hfind : findByClientRefAndCode clientRef code (δ.apply base) with
  | none =>
    refine ⟨δ, ?_, ?_⟩
    · simp [Act.none]
    · simpa [Act.none] using hnone hfind
  | some a => exact ⟨δ.lock, rfl, hsome a hfind⟩

theorem findByClientRefAndCode_eq_some {clientRef code : String} {s : GrantStore}
    {a : Application} (h : findByClientRefAndCode clientRef code s = some a) :
    a = s.application.application ∧ a.clientRef = clientRef ∧ a.code = code := by
  unfold findByClientRefAndCode at h
  split at h
  · next hrefs =>
    obtain rfl := Option.some.inj h
    exact ⟨rfl, hrefs⟩
  · cases h

/-- A session whose writes are a delta is in order if the delta is in order at its commit and
what follows a failure is. -/
theorem Writes.ends {A : Type} {rely : Rely GrantKey GrantStore}
    {guar : GrantStore → GrantStore → Prop}
    {post : Except GrantFailure A → List (GrantStore × GrantStore) → GrantStore → Prop}
    {own : List (GrantStore × GrantStore)} {base : GrantStore} {x : GrantSession A}
    {P : A → List GrantKey → Delta → Prop}
    (hx : Writes base x [] .empty P)
    (hok : ∀ value held δ, P value held δ → Ends rely guar post own base (.ok value) held δ.apply)
    (herror : ∀ failure held write, Ends rely guar post own base (.error failure) held write) :
    x.Leads base [] id (Ends rely guar post own base) := by
  rw [← apply_empty]
  refine Session.Leads.mono ?_ hx
  intro result held write hresult
  cases result with
  | error failure => exact herror failure held write
  | ok value =>
    obtain ⟨δ, rfl, hp⟩ := hresult
    exact hok value held δ hp

end FgGas.Grants
