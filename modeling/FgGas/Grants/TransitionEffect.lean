import FgGas.Grants.Delta

/-!
# What a transition does to an application

Each process of a transition, all of them in order, and the transition itself: which
application they leave, and that besides it they only publish, none of it for a claim.
-/

namespace FgGas.Grants

open Store

/-- The claim a case command is about. -/
def Publication.gasClaimId : Publication → Option String
  | .updateCaseSupplementaryData _ _ gasClaimId .. => some gasClaimId
  | _ => none

/-- The claim a payment is requested for, by its code, client reference and own reference. -/
def Publication.paymentKey : Publication → Option (String × String × String)
  | .claimPaymentRequested code clientRef clientClaimRef .. =>
      some (code, clientRef, clientClaimRef)
  | _ => none

/-- The publication is no part of a claim. -/
def Publication.Quiet (q : Publication) : Prop := q.gasClaimId = none ∧ q.paymentKey = none

/-- The claim an audit event records the submission of. -/
def Audit.submittedClaim (a : Audit) : Option String :=
  if a.entity = .claim ∧ a.action = .submit then some a.entityid else none

/-- The audit event records no submission. -/
def Audit.Quiet (a : Audit) : Prop := a.submittedClaim = none

theorem Audit.quiet_of_ne {a : Audit} (h : a.action ≠ .submit) : a.Quiet :=
  if_neg fun hsubmit ↦ h hsubmit.2

/-- The later delta saves and publishes more, none of it for a claim. -/
structure Delta.Extends (δ δ' : Delta) : Prop where
  locks : δ'.locks = δ.locks
  entitlements : δ'.entitlements = δ.entitlements
  claims : δ'.claims = δ.claims
  outbox : ∃ rows : List Publication, (∀ q ∈ rows, q.Quiet) ∧ δ'.outbox = δ.outbox ++ rows
  audits : ∃ audits : List Audit, (∀ a ∈ audits, a.Quiet) ∧ δ'.audits = δ.audits ++ audits

theorem Delta.Extends.refl (δ : Delta) : δ.Extends δ :=
  ⟨rfl, rfl, rfl, ⟨[], by simp, by simp⟩, ⟨[], by simp, by simp⟩⟩

theorem Delta.Extends.trans {δ δ' δ'' : Delta} (h : δ.Extends δ') (h' : δ'.Extends δ'') :
    δ.Extends δ'' := by
  obtain ⟨rows, hrows, hr⟩ := h.outbox
  obtain ⟨rows', hrows', hr'⟩ := h'.outbox
  obtain ⟨audits, haudits, ha⟩ := h.audits
  obtain ⟨audits', haudits', ha'⟩ := h'.audits
  refine ⟨h'.locks.trans h.locks, h'.entitlements.trans h.entitlements,
    h'.claims.trans h.claims, ⟨rows ++ rows', ?_, by rw [hr', hr, List.append_assoc]⟩,
    ⟨audits ++ audits', ?_, by rw [ha', ha, List.append_assoc]⟩⟩
  · exact List.forall_mem_append.mpr ⟨hrows, hrows'⟩
  · exact List.forall_mem_append.mpr ⟨haudits, haudits'⟩

theorem Delta.Extends.publish {δ : Delta} {rows : List Publication}
    (h : ∀ q ∈ rows, q.Quiet) : δ.Extends (δ.publish rows) :=
  ⟨rfl, rfl, rfl, ⟨rows, h, rfl⟩, ⟨[], by simp, by simp [Delta.publish]⟩⟩

theorem Delta.Extends.audit {δ : Delta} {audit : Audit} (h : audit.Quiet) :
    δ.Extends (δ.audit audit) :=
  ⟨rfl, rfl, rfl, ⟨[], by simp, by simp [Delta.audit]⟩, ⟨[audit], by simpa using h, rfl⟩⟩

theorem Delta.Extends.save {δ : Delta} (a : Application) : δ.Extends (δ.save a) :=
  ⟨rfl, rfl, rfl, ⟨[], by simp, by simp [Delta.save]⟩, ⟨[], by simp, by simp [Delta.save]⟩⟩

/-- The change of the application's agreements a process stores. -/
def GrantProcess.change :
    GrantProcess → Option (Application → EventData → String → Except GrantFailure Application)
  | .storeAgreementCase => some addedAgreement
  | .acceptAgreement => some acceptedAgreement
  | .cancelAgreement => some cancelledAgreement
  | .withdrawAgreement => some withdrawnAgreement
  | .applyAgreementTermination => some terminatedAgreement
  | _ => none

/-- What a process does to the application, when it does not throw. -/
inductive ProcessEffect (c : SideEffectContext) : GrantProcess → Application → Application → Prop
  | published {p : GrantProcess} {a : Application} (h : p = .generateOffer ∨
      p = .requestAgreementCancellation ∨ p = .requestAgreementTermination) :
      ProcessEffect c p a a
  | requested {a : Application} (h : a.activeAgreement.isSome) :
      ProcessEffect c .requestApplicationWithdrawal a a
  | withdrawn {a : Application} {now : String} (h : a.activeAgreement = none) :
      ProcessEffect c .requestApplicationWithdrawal a (a.withdraw now)
  | stored {p : GrantProcess} {a b : Application} {data : EventData} {now : String}
      {change : Application → EventData → String → Except GrantFailure Application}
      (hp : p.change = some change) (hdata : c.eventData = some data)
      (h : change a data now = .ok b) : ProcessEffect c p a b

/-- What processes do to the application one after another. -/
inductive Effects (c : SideEffectContext) : List GrantProcess → Application → Application → Prop
  | nil {a : Application} : Effects c [] a a
  | cons {p : GrantProcess} {ps : List GrantProcess} {a b d : Application}
      (h : ProcessEffect c p a b) (hs : Effects c ps b d) : Effects c (p :: ps) a d

/-- Where a move to the target leaves an application, if its processes leave its agreements
alone: a withdrawal with no agreement on offer sets a status of its own. -/
def settledPosition (processes : List GrantProcess) (a : Application) (target : Position) :
    Position :=
  if .requestApplicationWithdrawal ∈ processes ∧ a.activeAgreement = none then
    { target with status := "APPLICATION_WITHDRAWN" }
  else target

theorem settledPosition_withdrawn (ps : List GrantProcess) {a : Application}
    (h : a.activeAgreement = none) {target : Position} :
    settledPosition (.requestApplicationWithdrawal :: ps) a target =
      { target with status := "APPLICATION_WITHDRAWN" } :=
  if_pos ⟨List.mem_cons_self, h⟩

/-- The later application has the versions of the earlier and each of its agreements, with at
least its history. -/
structure Application.Keeps (a b : Application) : Prop where
  currentConfigVersion : b.currentConfigVersion = a.currentConfigVersion
  originalConfigVersion : b.originalConfigVersion = a.originalConfigVersion
  agreements : ∀ g ∈ a.agreements, ∃ g' ∈ b.agreements, g'.agreementRef = g.agreementRef ∧
    g.history <+: g'.history

theorem Application.Keeps.refl (a : Application) : a.Keeps a :=
  ⟨rfl, rfl, fun g hg ↦ ⟨g, hg, rfl, List.prefix_rfl⟩⟩

theorem Application.Keeps.trans {a b d : Application} (h : a.Keeps b) (h' : b.Keeps d) :
    a.Keeps d := by
  refine ⟨h'.currentConfigVersion.trans h.currentConfigVersion,
    h'.originalConfigVersion.trans h.originalConfigVersion, fun g hg ↦ ?_⟩
  obtain ⟨g', hg', href, hhistory⟩ := h.agreements g hg
  obtain ⟨g'', hg'', href', hhistory'⟩ := h'.agreements g' hg'
  exact ⟨g'', hg'', href'.trans href, hhistory.trans hhistory'⟩

/-- A move keeps the agreements and the versions. -/
theorem Application.Keeps.at (a : Application) (position : Position) (now : String) :
    a.Keeps (a.at position now) :=
  ⟨rfl, rfl, fun g hg ↦ ⟨g, hg, rfl, List.prefix_rfl⟩⟩

/-- A withdrawal keeps the agreements and the versions. -/
theorem Application.Keeps.withdraw (a : Application) (now : String) : a.Keeps (a.withdraw now) :=
  ⟨rfl, rfl, fun g hg ↦ ⟨g, hg, rfl, List.prefix_rfl⟩⟩

/-- A change of one agreement that adds to its history keeps all of them. -/
theorem Application.Keeps.withAgreement (a : Application) (agreementRef : String)
    {change : ApplicationAgreement → ApplicationAgreement}
    (hchange : ∀ g, (change g).agreementRef = g.agreementRef ∧ g.history <+: (change g).history)
    {now : String} : a.Keeps { a.withAgreement agreementRef change with updatedAt := now } := by
  refine ⟨rfl, rfl, fun g hg ↦ ⟨_, List.mem_map_of_mem hg, ?_⟩⟩
  by_cases h : g.agreementRef = agreementRef
  · rw [if_pos h]
    exact hchange g
  · rw [if_neg h]
    exact ⟨rfl, List.prefix_rfl⟩

/-- A status entered is an entry added. -/
theorem enter_keeps (g : ApplicationAgreement) (status : AgreementStatus) (date now : String) :
    (g.enter status date now).agreementRef = g.agreementRef ∧
      g.history <+: (g.enter status date now).history :=
  ⟨rfl, List.prefix_append _ _⟩

/-- An agreement accepted enters its status, and has its dates besides. -/
theorem accept_keeps (g : ApplicationAgreement) (startDate endDate acceptedDate : Option String)
    (now : String) :
    (g.accept startDate endDate acceptedDate now).agreementRef = g.agreementRef ∧
      g.history <+: (g.accept startDate endDate acceptedDate now).history :=
  enter_keeps g .accepted now now

/-- A change of an agreement of the reference keeps all of them, and the position. -/
theorem changeAgreement_keeps {a b : Application} {agreementRef now : String}
    {change : ApplicationAgreement → ApplicationAgreement} {failure : String → GrantFailure}
    (hchange : ∀ g, (change g).agreementRef = g.agreementRef ∧ g.history <+: (change g).history)
    (h : (a.changeAgreement agreementRef change now).mapError failure = .ok b) :
    a.Keeps b ∧ b.position = a.position := by
  unfold Application.changeAgreement at h
  split at h
  · cases h
  · cases h
    exact ⟨.withAgreement a agreementRef hchange, rfl⟩

/-- The changes processes store keep the agreements, and the position. -/
theorem GrantProcess.change_keeps {p : GrantProcess} {a b : Application} {data : EventData}
    {now : String} {change : Application → EventData → String → Except GrantFailure Application}
    (hp : p.change = some change) (h : change a data now = .ok b) :
    a.Keeps b ∧ b.position = a.position := by
  cases p <;> cases hp
  · -- an agreement is added
    unfold addedAgreement Application.addAgreement at h
    split at h
    · cases h
    · cases h
      exact ⟨⟨rfl, rfl, fun g hg ↦ ⟨g, List.mem_append_left _ hg, rfl, List.prefix_rfl⟩⟩, rfl⟩
  · exact changeAgreement_keeps (fun g ↦ accept_keeps g _ _ _ _) h
  · exact changeAgreement_keeps (fun g ↦ enter_keeps g _ _ _) h
  · -- the application keeps its own time of change
    unfold withdrawnAgreement at h
    split at h
    · cases h
    · cases h
      exact ⟨.withAgreement a _ (fun g ↦ enter_keeps g _ _ _), rfl⟩
  · exact changeAgreement_keeps (fun g ↦ enter_keeps g _ _ _) h

/-- What the processes of a transition keep, and where they leave the application. -/
theorem Effects.keeps {c : SideEffectContext} {ps : List GrantProcess} {a b : Application}
    (h : Effects c ps a b) :
    a.Keeps b ∧ (b.position = a.position ∨ .requestApplicationWithdrawal ∈ ps ∧
      b.position = { a.position with status := "APPLICATION_WITHDRAWN" }) := by
  induction h with
  | nil => exact ⟨.refl _, .inl rfl⟩
  | @cons p ps a b d hp _ ih =>
    obtain ⟨hkeeps, hposition⟩ := ih
    have hlater : ∀ {x : Position}, b.position = x → d.position = x ∨
        .requestApplicationWithdrawal ∈ p :: ps ∧
          d.position = { x with status := "APPLICATION_WITHDRAWN" } := by
      rintro x rfl
      exact hposition.imp_right fun h ↦ ⟨List.mem_cons_of_mem _ h.1, h.2⟩
    cases hp with
    | published _ => exact ⟨hkeeps, hlater rfl⟩
    | requested _ => exact ⟨hkeeps, hlater rfl⟩
    | withdrawn _ =>
      refine ⟨(Application.Keeps.withdraw _ _).trans hkeeps, .inr ⟨List.mem_cons_self, ?_⟩⟩
      rcases hposition with hposition | ⟨_, hposition⟩ <;> exact hposition
    | stored hchange _ hstored =>
      obtain ⟨hkeeps', hposition'⟩ := GrantProcess.change_keeps hchange hstored
      exact ⟨hkeeps'.trans hkeeps, hlater hposition'⟩

/-- Without event data the processes settle the application where they must. -/
theorem Effects.settled {c : SideEffectContext} {ps : List GrantProcess} {a b : Application}
    (h : Effects c ps a b) (hdata : c.eventData = none) :
    b.agreements = a.agreements ∧ b.position = settledPosition ps a a.position := by
  induction h with
  | nil => simp [settledPosition]
  | @cons p ps a b d hp _ ih =>
    obtain ⟨hagreements, hposition⟩ := ih
    cases hp with
    | published hp =>
      refine ⟨hagreements, hposition.trans ?_⟩
      rcases hp with rfl | rfl | rfl <;> simp [settledPosition]
    | requested hactive =>
      have hne : a.activeAgreement ≠ none := Option.isSome_iff_ne_none.mp hactive
      exact ⟨hagreements, hposition.trans (by simp [settledPosition, hne])⟩
    | withdrawn hactive =>
      rw [settledPosition_withdrawn ps hactive]
      refine ⟨hagreements, hposition.trans ?_⟩
      unfold settledPosition
      split <;> rfl
    | stored _ hevent _ =>
      rw [hdata] at hevent
      cases hevent

section
variable {base : GrantStore} {held : List GrantKey} {δ : Delta} {c : SideEffectContext}
  {a : Application}

/-- The process works on the application as the transaction has saved it. -/
theorem Writes.applicationOf {P : Application → List GrantKey → Delta → Prop}
    (ha : δ.application = some a) (h : P a held δ) :
    Writes base (applicationOf c) held δ P := by
  refine .bind (.read (.orThrow fun found hfound ↦ ?_))
  cases hfind : findByClientRefAndCode c.clientRef c.code (δ.apply base) with
  | none =>
    rw [hfind] at hfound
    cases hfound
  | some b =>
    rw [hfind] at hfound
    obtain rfl := Except.ok.inj hfound
    rw [(findByClientRefAndCode_eq_some hfind).1]
    simpa [Delta.apply, ha] using h

/-- What a process, having started on an application saved, leaves. -/
def Leaves (c : SideEffectContext) (ps : List GrantProcess) (a : Application)
    (held : List GrantKey) (δ : Delta) (_ : Unit) (held' : List GrantKey) (δ' : Delta) : Prop :=
  (∀ k ∈ held, k ∈ held') ∧ δ.Extends δ' ∧ ∃ b, δ'.application = some b ∧ Effects c ps a b

/-- A process that has published and written its audit event on an application it leaves. -/
theorem leaves_of_published {p : GrantProcess} {b : Application} {held' : List GrantKey}
    {δ' : Delta} (hheld : ∀ k ∈ held, k ∈ held') (hδ : δ.Extends δ')
    (hb : δ'.application = some b) (h : ProcessEffect c p a b) :
    Leaves c [p] a held δ () held' δ' :=
  ⟨hheld, hδ, b, hb, .cons h .nil⟩

theorem createAgreementCommand_writes (ha : δ.application = some a) :
    Writes base (createAgreementCommand c) held δ (Leaves c [.generateOffer] a held δ) := by
  refine .bind (.applicationOf ha (.bind (.saveEvents (.writeAuditEvent ?_))))
  refine leaves_of_published (fun _ hk ↦ hk) (.trans (.publish ?_) (.audit ?_)) ha
    (.published (.inl rfl))
  · simp [Publication.Quiet, Publication.gasClaimId, Publication.paymentKey]
  · exact Audit.quiet_of_ne (by simp)

theorem requestAgreementStatus_writes (ha : δ.application = some a)
    {found : Option ApplicationAgreement} {status : String} {action : AuditAction}
    {p : GrantProcess} (hp : p = .requestAgreementCancellation ∨ p = .requestAgreementTermination)
    (haction : action ≠ .submit) :
    Writes base (requestAgreementStatus c found status action) held δ (Leaves c [p] a held δ) := by
  cases found with
  | none =>
    exact .pure (leaves_of_published (fun _ hk ↦ hk) (.refl δ) ha (.published (.inr hp)))
  | some agreement =>
    refine .bind (.saveEvents (.writeAuditEvent ?_))
    refine leaves_of_published (fun _ hk ↦ hk)
      (.trans (.publish ?_) (.audit (Audit.quiet_of_ne haction))) ha (.published (.inr hp))
    simp [Publication.Quiet, Publication.gasClaimId, Publication.paymentKey]

theorem withdrawApplication_writes (ha : δ.application = some a) :
    Writes base (withdrawApplication c) held δ
      (Leaves c [.requestApplicationWithdrawal] a held δ) := by
  refine .bind (.applicationOf ha ?_)
  dsimp only
  cases hactive : a.activeAgreement with
  | some agreement =>
    refine .bind (.saveEvents (.writeAuditEvent ?_))
    refine leaves_of_published (fun _ hk ↦ hk) (.trans (.publish ?_) (.audit ?_)) ha
      (.requested (by rw [hactive]; rfl))
    · simp [Publication.Quiet, Publication.gasClaimId, Publication.paymentKey]
    · exact Audit.quiet_of_ne (by simp)
  | none =>
    refine .bind (.outside fun outside ↦ .bind (.update fun _ ↦
      .bind (.saveEvents (.writeAuditEvent ?_))))
    refine leaves_of_published (fun _ hk ↦ List.mem_append_left _ hk)
      (.trans (.save _) (.trans (.publish ?_) (.audit ?_))) rfl (.withdrawn hactive)
    · simp [Publication.Quiet, Publication.gasClaimId, Publication.paymentKey]
    · exact Audit.quiet_of_ne (by simp)

theorem storeAgreement_writes (ha : δ.application = some a) {action : AuditAction}
    {p : GrantProcess}
    {change : Application → EventData → String → Except GrantFailure Application}
    (hp : p.change = some change) (haction : action ≠ .submit) :
    Writes base (storeAgreement c action change) held δ (Leaves c [p] a held δ) := by
  refine .bind (.orThrow fun data hdata ↦ .bind (.applicationOf ha (.bind (.outside fun outside ↦
    .bind (.orThrow fun b hb ↦ .bind (.update fun _ ↦
      .bind (.saveEvents (.writeAuditEvent ?_))))))))
  have hdata' : c.eventData = some data := by
    cases hevent : c.eventData with
    | none =>
      rw [hevent] at hdata
      cases hdata
    | some found =>
      rw [hevent] at hdata
      exact congrArg some (Except.ok.inj hdata)
  refine leaves_of_published (fun _ hk ↦ List.mem_append_left _ hk)
    (.trans (.save _) (.trans (.publish ?_) (.audit (Audit.quiet_of_ne haction)))) rfl
    (.stored hp hdata' hb)
  simp [Publication.Quiet, Publication.gasClaimId, Publication.paymentKey]

/-- What each process leaves. -/
theorem handle_writes (p : GrantProcess) (ha : δ.application = some a) :
    Writes base (p.handle c) held δ (Leaves c [p] a held δ) := by
  cases p with
  | generateOffer => exact createAgreementCommand_writes ha
  | storeAgreementCase => exact storeAgreement_writes ha rfl (by decide)
  | acceptAgreement => exact storeAgreement_writes ha rfl (by decide)
  | cancelAgreement => exact storeAgreement_writes ha rfl (by decide)
  | requestApplicationWithdrawal => exact withdrawApplication_writes ha
  | requestAgreementCancellation =>
    exact .bind (.read (requestAgreementStatus_writes ha (.inl rfl) (by decide)))
  | withdrawAgreement => exact storeAgreement_writes ha rfl (by decide)
  | requestAgreementTermination =>
    exact .bind (.applicationOf ha (requestAgreementStatus_writes ha (.inr rfl) (by decide)))
  | applyAgreementTermination => exact storeAgreement_writes ha rfl (by decide)

/-- What the processes of a transition leave. -/
theorem runTransitionProcesses_writes (ps : List GrantProcess) {a : Application}
    {held : List GrantKey} {δ : Delta} (ha : δ.application = some a) :
    Writes base (runTransitionProcesses c ps) held δ (Leaves c ps a held δ) := by
  induction ps generalizing a held δ with
  | nil => exact .pure ⟨fun _ hk ↦ hk, .refl δ, a, ha, .nil⟩
  | cons p ps ih =>
    refine .bind ((handle_writes p ha).mono ?_)
    rintro _ held₁ δ₁ ⟨hheld₁, hδ₁, b, hb, hp⟩
    refine (ih hb).mono ?_
    rintro _ held₂ δ₂ ⟨hheld₂, hδ₂, d, hd, hps⟩
    cases hp with
    | cons hp hnil =>
      cases hnil
      exact ⟨fun k hk ↦ hheld₂ k (hheld₁ k hk), hδ₁.trans hδ₂, d, hd, .cons hp hps⟩

end

/-- What a transition from the application to the target comes to: nothing when it stands
there already, else a move the grant accepts and then the processes of that move. -/
def Transitioned (grant : Grant) (target : Position) (c : SideEffectContext)
    (a b : Application) : Prop :=
  a.fullyQualifiedStatus = target.fullyQualified ∧ b = a ∨
  ∃ processes now, a.fullyQualifiedStatus ≠ target.fullyQualified ∧
    grant.isValidTransition target a.fullyQualifiedStatus = some processes ∧
    Effects c (processes.filterMap GrantProcess.named) (a.at target now) b

/-- What a transition writes. -/
theorem transitionApplication_writes (t : Transition) {base : GrantStore}
    {held : List GrantKey} {δ : Delta} :
    Writes base (transitionApplication t) held δ fun _ held' δ' ↦
      (∀ k ∈ held, k ∈ held') ∧ δ.Extends δ' ∧
      (t.application.fullyQualifiedStatus = t.targetPosition.fullyQualified ∧ δ' = δ ∨
        ∃ b, δ'.application = some b ∧ .application ∈ held' ∧
          Transitioned t.grant t.targetPosition t.sideEffectContext t.application b) := by
  refine .bind (.outside fun outside ↦ ?_)
  cases hmove : t.application.moveTo t.targetPosition t.grant outside.now with
  | refused text => exact .orThrow fun _ h ↦ by cases h
  | unchanged =>
    exact .pure ⟨fun _ hk ↦ hk, .refl δ, .inl ⟨moveTo_eq_unchanged hmove, rfl⟩⟩
  | changed moved processes =>
    obtain ⟨hne, hvalid, rfl⟩ := moveTo_eq_changed hmove
    refine .bind (.update fun _ ↦ .bind (.bind (.saveEvents (.writeAuditEvent (.bind ?_)))))
    have hrun : ∀ {held' : List GrantKey} {δ' : Delta}, (∀ k ∈ held, k ∈ held') →
        .application ∈ held' → δ.Extends δ' →
        δ'.application = some (t.application.at t.targetPosition outside.now) →
        Writes base (runTransitionProcesses t.sideEffectContext
          (processes.filterMap GrantProcess.named)) held' δ' fun _ held'' δ'' ↦
          (∀ k ∈ held, k ∈ held'') ∧ δ.Extends δ'' ∧
          (t.application.fullyQualifiedStatus = t.targetPosition.fullyQualified ∧ δ'' = δ ∨
            ∃ b, δ''.application = some b ∧ .application ∈ held'' ∧
              Transitioned t.grant t.targetPosition t.sideEffectContext t.application b) := by
      intro held' δ' hheld happ hδ ha
      refine (runTransitionProcesses_writes _ ha).mono ?_
      rintro _ held'' δ'' ⟨hheld', hδ', b, hb, heffects⟩
      exact ⟨fun k hk ↦ hheld' k (hheld k hk), hδ.trans hδ', .inr ⟨b, hb, hheld' _ happ,
        .inr ⟨processes, outside.now, hne, hvalid, heffects⟩⟩⟩
    have hstatus : δ.Extends (((δ.save (t.application.at t.targetPosition outside.now)).publish
        [.applicationStatusUpdated t.application.clientRef t.application.code
          t.application.currentConfigVersion t.application.fullyQualifiedStatus
          (t.application.at t.targetPosition outside.now).fullyQualifiedStatus]).audit
        ⟨.application, .statusTransition, t.application.clientRef,
          [("code", t.application.code), ("fromStatus", t.application.fullyQualifiedStatus),
            ("toStatus", (t.application.at t.targetPosition outside.now).fullyQualifiedStatus),
            ("entityIdKey", "clientRef")]⟩) :=
      .trans (.save _) (.trans (.publish (by
        simp [Publication.Quiet, Publication.gasClaimId, Publication.paymentKey]))
        (.audit (Audit.quiet_of_ne (by simp))))
    unfold publishCaseWorkingUpdate
    split
    · refine .saveEvents (hrun (fun k hk ↦ List.mem_append_left _ hk)
        (List.mem_append_right _ (List.mem_singleton.mpr rfl)) (hstatus.trans (.publish ?_)) rfl)
      simp [Publication.Quiet, Publication.gasClaimId, Publication.paymentKey]
    · exact .pure (hrun (fun k hk ↦ List.mem_append_left _ hk)
        (List.mem_append_right _ (List.mem_singleton.mpr rfl)) hstatus rfl)

end FgGas.Grants
