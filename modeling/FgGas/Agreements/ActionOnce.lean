import FgGas.Agreements.LostActions

/-!
# Actions commit one at a time

Every action that commits replaces the current document of the version it was executed on,
so its transaction has taken that document and commits on the versions its snapshot saw.
An action that comes too late stores no version; what it reports depends on what its
idempotency key was committed for, if it was.
-/

namespace FgGas.Agreements

open Machine Store

variable {V : Type}

/-- How `commitActionTransaction` ends on a snapshot. -/
inductive TxnOutcome (o : CommitOptions V) (paymentRequested : Bool) (base : ActionStore V) :
    Except ActionFailure Committed → List ActionKey → (ActionStore V → ActionStore V) → Prop
  | replayed (h : CommittedFor base o.actionName o.idempotencyKey) :
      TxnOutcome o paymentRequested base (.ok .completed) [] id
  | superseded (hversion : base.current.version ≠ o.current.version) :
      TxnOutcome o paymentRequested base (.ok .concurrentUpdate) [] id
  | committed {held : List ActionKey} {write : ActionStore V → ActionStore V}
      (hversion : base.current.version = o.current.version)
      (hkey : ∀ v ∈ base.versions, v.idempotencyKey ≠ some o.idempotencyKey)
      (hheld : ActionKey.agreement ∈ held) (hwrite : ∀ s, write s = s.commit o paymentRequested) :
      TxnOutcome o paymentRequested base (.ok .completed) held write
  | conflict {name : String} (hname : name ≠ o.actionName)
      (h : CommittedFor base name o.idempotencyKey) :
      TxnOutcome o paymentRequested base (.error .conflict) [] id
  | refused {refusal : Refusal} {held : List ActionKey} {write : ActionStore V → ActionStore V}
      (hversion : base.current.version = o.current.version) :
      TxnOutcome o paymentRequested base (.error (.refused refusal)) held write

/-- The next version violates no index. -/
theorem violatedBy_next {s : ActionStore V} (hs : History s) {v : AgreementVersion V}
    (hversion : v.version = s.current.version + 1)
    (hkey : ∀ w ∈ s.versions, w.idempotencyKey ≠ v.idempotencyKey) (next : Agreement V) :
    violatedBy v { s with current := next } = none := by
  have hfirst : (s.versions.any fun w ↦
      w.agreementNumber = v.agreementNumber && w.version = v.version) = false := by
    refine List.any_eq_false.mpr fun w hw he ↦ ?_
    simp only [Bool.and_eq_true, decide_eq_true_eq] at he
    have := (hs.mem_range.mp ⟨w, hw, rfl⟩).2
    omega
  have hsecond : (s.versions.any fun w ↦ w.agreementNumber = v.agreementNumber &&
      w.idempotencyKey.isSome && w.idempotencyKey = v.idempotencyKey) = false := by
    refine List.any_eq_false.mpr fun w hw he ↦ ?_
    simp only [Bool.and_eq_true, decide_eq_true_eq] at he
    exact hkey w hw he.2
  simp only [violatedBy, hfirst, hsecond, Bool.false_eq_true, if_false]

section
variable {base : ActionStore V} {held : List ActionKey} {write : ActionStore V → ActionStore V}
  {Q : Except ActionFailure Unit → List ActionKey → (ActionStore V → ActionStore V) → Prop}

theorem leads_saveEvents (built : Except String Unit) (publications : List (Publication V)) :
    (saveEvents built publications).Leads base held write Q ↔ match built with
      | .ok () => Q (.ok ()) (held ++ [])
          ((fun s ↦ { s with outbox := s.outbox ++ publications }) ∘ write)
      | .error text => Q (.error (.refused (.other text))) held write := by
  cases built <;> simp [saveEvents, Session.leads_bind, Except.mapError]

theorem leads_writeAuditEvent (validated : Except String Unit) (audit : AgreementAudit) :
    (writeAuditEvent validated audit).Leads base held write Q ↔ match validated with
      | .ok () => Q (.ok ()) (held ++ [])
          ((fun s ↦ { s with audits := s.audits ++ [audit] }) ∘ write)
      | .error text => Q (.error (.refused (.other text))) held write := by
  cases validated <;> simp [writeAuditEvent, Session.leads_bind, Except.mapError]

end

theorem commitActionTransaction_outcome {o : CommitOptions V} (paymentRequested : Bool)
    {base : ActionStore V} (hb : History base)
    (hcurrent : o.current.agreementNumber = base.current.agreementNumber)
    (hnext : o.next.agreementNumber = o.current.agreementNumber)
    (hversion : o.next.version = o.current.version + 1) :
    (commitActionTransaction o paymentRequested).Leads base [] id
      (TxnOutcome o paymentRequested base) := by
  unfold commitActionTransaction
  simp only [Session.leads_bind, Session.leads_read, Session.leads_orThrow, id, hcurrent]
  rcases findCompleted_cases o.actionName o.idempotencyKey hb with
    ⟨hf, hc⟩ | ⟨hf, hkey⟩ | ⟨hf, name, hname, hc⟩
  · rw [hf]
    exact .replayed hc
  · simp only [hf, Bool.false_eq_true, if_false, Session.leads_bind]
    by_cases hmatch : base.current.version = o.current.version
    · -- the document is replaced, so taken, and the version is the next one
      have hfound : base.current.agreementNumber = o.next.agreementNumber ∧
          base.current.version = o.current.version := ⟨by rw [hnext, hcurrent], hmatch⟩
      have hunused : violatedBy o.version { base with current := o.next } = none :=
        violatedBy_next (v := o.version) hb (by rw [hmatch]; exact hversion) hkey o.next
      simp only [replaceCurrentAgreement, Session.Leads, id, hfound, and_self, if_true,
        decide_true, Bool.not_true, Bool.false_eq_true, if_false, Session.leads_bind,
        insertAgreementVersion, Session.leads_insert, Function.comp_apply, hunused,
        Session.leads_outside, leads_saveEvents, leads_writeAuditEvent]
      intro outside
      cases outside.publications with
      | error text => exact .refused hmatch
      | ok _ =>
        simp only
        cases outside.audit with
        | error text => exact .refused hmatch
        | ok _ =>
          simp only [Session.leads_pure]
          exact .committed hmatch hkey (by simp) fun s ↦ rfl
    · have hfound : ¬ (base.current.agreementNumber = o.next.agreementNumber ∧
          base.current.version = o.current.version) := fun h ↦ hmatch h.2
      simp only [replaceCurrentAgreement, Session.Leads, id, hfound, if_false, decide_false,
        Bool.not_false, if_true, Session.leads_pure, Act.none]
      exact .superseded hmatch
  · rw [hf]
    exact .conflict hname hc

/-! ### How a call ends -/

/-- Another action, with another key, was committed on the version. -/
def Superseded (s : ActionStore V) (executedOn : Nat) (idempotencyKey : String) : Prop :=
  ∃ w ∈ s.versions, ∃ x, w.version = executedOn + 1 ∧ w.actionExecution = some x ∧
    x.idempotencyKey ≠ idempotencyKey

/-- The one change commits an action under the key. -/
def CommitsOnce (own : List (ActionStore V × ActionStore V)) (idempotencyKey : String) : Prop :=
  ∃ actionName before after, own = [(before, after)] ∧
    Commits actionName idempotencyKey before after

/-- The action a request names; a status command leaves it to the definition. -/
def ActionRequest.actionName : ActionRequest → Option String
  | .action options => some options.actionName
  | .status _ => none

/-- What an error says of the request: lost to another key's action; the key committed for
another action; or a failure of the request's own. Nothing is stored but the record of the
failure, and not even that for an action that lost. -/
def FailsWell (request : ActionRequest) (own : List (ActionStore V × ActionStore V))
    (db : ActionStore V) : ActionFailure → Prop
  | .concurrencyLoss found executedOn => found = true ∧ Idle own ∧
      Superseded db executedOn request.key
  | .conflict => Quiet own ∧ ∃ name, (∀ n ∈ request.actionName, name ≠ n) ∧
      CommittedFor db name request.key
  | .duplicateKey _ => False
  | _ => Quiet own

/-- How a request may end. -/
def EndsWell (request : ActionRequest) :
    Report V → List (ActionStore V × ActionStore V) → ActionStore V → Prop
  | .completed, own, db => (∃ name, (∀ n ∈ request.actionName, name = n) ∧
      CommittedFor db name request.key) ∧ (Idle own ∨ CommitsOnce own request.key)
  | .replayed snapshot, own, db => own = [] ∧
      ∃ v ∈ db.versions, v.idempotencyKey = some request.key ∧ v.snapshot = snapshot
  | .invalid, own, _ => Quiet own
  | .failed error, own, db => FailsWell request own db error
  | .rejected error, own, db => FailsWell request own db error

/-- What a request promises. -/
def actionPromise (request : ActionRequest) : Promise (ActionStore V) Nat (Report V) where
  guar before after := after = before ∨ RecordsFailure before after ∨
    ∃ name, Commits name request.key before after
  post := EndsWell request
  allow _ _ := True

theorem CommittedFor.later {s s' : ActionStore V} {name key : String}
    (h : CommittedFor s name key) (hle : actionRely.le s s') : CommittedFor s' name key := by
  obtain ⟨v, hv, hx⟩ := h
  exact ⟨v, hle.1.subset hv, hx⟩

theorem FailsWell.later {request : ActionRequest} {own : List (ActionStore V × ActionStore V)}
    {s s' : ActionStore V} {error : ActionFailure} (h : FailsWell request own s error)
    (hle : actionRely.le s s') : FailsWell request own s' error := by
  cases error with
  | concurrencyLoss found executedOn =>
    obtain ⟨hfound, hidle, w, hw, hrest⟩ := h
    exact ⟨hfound, hidle, w, hle.1.subset hw, hrest⟩
  | conflict =>
    obtain ⟨hquiet, name, hname, hc⟩ := h
    exact ⟨hquiet, name, hname, hc.later hle⟩
  | _ => exact h

/-- How a request ended stays so. -/
theorem EndsWell.later {request : ActionRequest} {report : Report V}
    {own : List (ActionStore V × ActionStore V)} {s s' : ActionStore V}
    (h : EndsWell request report own s) (hle : actionRely.le s s') :
    EndsWell request report own s' := by
  cases report with
  | completed =>
    obtain ⟨⟨name, hname, hc⟩, hown⟩ := h
    exact ⟨⟨name, hname, hc.later hle⟩, hown⟩
  | replayed snapshot =>
    obtain ⟨hown, v, hv, hrest⟩ := h
    exact ⟨hown, v, hle.1.subset hv, hrest⟩
  | invalid => exact h
  | failed error => exact FailsWell.later h hle
  | rejected error => exact FailsWell.later h hle

theorem ret_ok {request : ActionRequest} {report : Report V}
    {own : List (ActionStore V × ActionStore V)} {s : ActionStore V}
    (h : EndsWell request report own s) :
    (UseCase.ret report : ActionUseCase V).Ok actionRely (actionPromise request) own s :=
  fun _ _ hle ↦ h.later hle

/-- An audit event more leaves the history as it is. -/
theorem History.record {s : ActionStore V} (h : History s) (audit : AgreementAudit) :
    History { s with audits := s.audits ++ [audit] } :=
  ⟨h.numbers, h.last, h.keys, h.owner, h.executed⟩

/-- Recording a failed attempt, when the report stands with or without the record. -/
theorem record_ok {request : ActionRequest} {audit : AgreementAudit} {report : Report V}
    {own : List (ActionStore V × ActionStore V)} {s : ActionStore V}
    (haudit : audit.status = .failure) (hquiet : Quiet own)
    (hreport : ∀ own', Quiet own' → EndsWell request report own' s) :
    (recordAgreementActionFailure audit report).Ok actionRely (actionPromise request) own s := by
  intro outside
  dsimp only
  split
  · intro db hdb hle
    have hrecords : RecordsFailure db { db with audits := db.audits ++ [audit] } :=
      ⟨audit, haudit, rfl⟩
    have hle' : actionRely.le db { db with audits := db.audits ++ [audit] } :=
      ⟨List.prefix_rfl, rfl⟩
    refine ⟨⟨hdb.record audit, hle', fun _ _ _ ↦ ⟨rfl, rfl⟩, .inr (.inl hrecords)⟩, ?_⟩
    refine ret_ok ((hreport _ fun c hc ↦ ?_).later (actionRely.le_trans hle hle'))
    rcases List.mem_append.mp hc with hc | hc
    · exact hquiet c hc
    · rw [List.mem_singleton.mp hc]
      exact .inr hrecords
  · exact ret_ok (hreport own hquiet)

/-- An attempt that fails well ends well, its failure recorded unless it lost. -/
theorem recordUnlessLost_ok {request : ActionRequest} {actionName key : String}
    {current : Agreement V} {attempted : Option Attempted} {error : ActionFailure}
    {report : Report V} {own : List (ActionStore V × ActionStore V)} {s : ActionStore V}
    (h : FailsWell request own s error)
    (hreport : report = .failed error ∨ report = .rejected error) :
    (recordUnlessLost actionName current attempted key error report).Ok actionRely
      (actionPromise request) own s := by
  have hends : ∀ own', FailsWell request own' s error → EndsWell request report own' s := by
    rcases hreport with rfl | rfl
    · exact fun _ h ↦ h
    · exact fun _ h ↦ h
  unfold recordUnlessLost
  cases error with
  | concurrencyLoss found executedOn => exact ret_ok (hends own h)
  | conflict =>
    refine record_ok rfl h.1 fun own' hquiet ↦ hends own' ⟨hquiet, h.2⟩
  | duplicateKey index => exact absurd h id
  | _ => exact record_ok rfl h fun own' hquiet ↦ hends own' hquiet

/-! ### The commit and its recovery -/

/-- How `commitAgreementAction` ends. -/
def CommitEnds (o : CommitOptions V) (own : List (ActionStore V × ActionStore V))
    (db : ActionStore V) : Except ActionFailure Unit → Prop
  | .ok () => CommittedFor db o.actionName o.idempotencyKey ∧
      (Idle own ∨ CommitsOnce own o.idempotencyKey)
  | .error (.concurrencyLoss found executedOn) => found = true ∧ Idle own ∧
      Superseded db executedOn o.idempotencyKey
  | .error .conflict => Idle own ∧ ∃ name, name ≠ o.actionName ∧
      CommittedFor db name o.idempotencyKey
  | .error (.duplicateKey _) => False
  | .error _ => Idle own

/-- A failure of the commit is one the request may fail with. -/
theorem CommitEnds.failsWell {request : ActionRequest} {o : CommitOptions V}
    {own : List (ActionStore V × ActionStore V)} {db : ActionStore V} {error : ActionFailure}
    (h : CommitEnds o own db (.error error)) (hkey : o.idempotencyKey = request.key)
    (hname : ∀ n ∈ request.actionName, o.actionName = n) : FailsWell request own db error := by
  cases error with
  | concurrencyLoss found executedOn =>
    obtain ⟨hfound, hidle, hsuperseded⟩ := h
    exact ⟨hfound, hidle, hkey ▸ hsuperseded⟩
  | conflict =>
    obtain ⟨hidle, name, hne, hc⟩ := h
    exact ⟨hidle.quiet, name, fun n hn ↦ hname n hn ▸ hne, hkey ▸ hc⟩
  | duplicateKey index => exact absurd h id
  | _ => exact Idle.quiet h

section
variable {request : ActionRequest} {o : CommitOptions V}
  {k : Except ActionFailure Unit → ActionUseCase V} {s : ActionStore V}

/-- The recovery of an action that was superseded: its key tells what it reports. -/
theorem resolveConcurrentUpdate_ok {own : List (ActionStore V × ActionStore V)}
    (hidle : Idle own) (hcurrent : Known o.current s)
    (hsuccessor : ∃ w ∈ s.versions, w.version = o.current.version + 1 ∧
      ∃ x, w.actionExecution = some x)
    (hk : ∀ r own db, History db → CommitEnds o own db r →
      (k r).Ok actionRely (actionPromise request) own db) :
    (resolveConcurrentUpdate o k).Ok actionRely (actionPromise request) own s := by
  intro db seen hdb hle _ _ hprimary
  obtain rfl := hprimary rfl
  have hnumber := (hcurrent.later hle).1
  dsimp only
  rw [hnumber]
  rcases findCompleted_cases o.actionName o.idempotencyKey hdb with
    ⟨hf, hc⟩ | ⟨hf, hkey⟩ | ⟨hf, name, hname, hc⟩
  · rw [hf]
    exact hk _ own seen hdb ⟨hc, .inl hidle⟩
  · rw [hf]
    intro db' seen' hdb' hle' _ _ hprimary'
    obtain rfl := hprimary' rfl
    have hfind : findAgreementByNumber seen.current.agreementNumber seen' =
        some seen'.current := if_pos hle'.2.symm
    dsimp only
    rw [hfind]
    obtain ⟨w, hw, hversion, x, hx⟩ := hsuccessor
    have hw' := hle.1.subset hw
    refine hk _ own seen' hdb' ⟨rfl, hidle, w, hle'.1.subset hw', x, hversion, hx, ?_⟩
    intro hsame
    exact hkey w hw' (by simp [AgreementVersion.idempotencyKey, hx, hsame])
  · rw [hf]
    exact hk _ own seen hdb ⟨hidle, name, hname, hc⟩

/-- Committing an action executed on an agreement the store has held. -/
theorem commitAgreementAction_ok (hkey : o.idempotencyKey = request.key) (hs : History s)
    (hcurrent : Known o.current s) (hnext : o.next.agreementNumber = o.current.agreementNumber)
    (hversion : o.next.version = o.current.version + 1)
    (hk : ∀ r own db, History db → CommitEnds o own db r →
      (k r).Ok actionRely (actionPromise request) own db) :
    (commitAgreementAction o k).Ok actionRely (actionPromise request) [] s := by
  unfold commitAgreementAction
  cases hops : hasPaymentCommitOperation o.commitOperations with
  | error error =>
    refine hk _ [] s hs ?_
    unfold hasPaymentCommitOperation at hops
    split at hops
    · rw [← Except.error.inj hops]
      exact idle_nil
    · split at hops
      · rw [← Except.error.inj hops]
        exact idle_nil
      · cases hops
  | ok paymentRequested =>
    intro base hbase hle _
    have hknown := hcurrent.later hle
    refine (commitActionTransaction_outcome paymentRequested hbase hknown.1 hnext hversion).mono ?_
    intro r held write hr db hdb hle'
    cases hr with
    | replayed hc =>
      intro _
      exact ⟨⟨hdb, actionRely.le_refl _, fun _ _ _ ↦ ⟨rfl, rfl⟩, .inl rfl⟩,
        hk _ _ _ hdb ⟨hc.later hle', .inl (idle_self db)⟩⟩
    | superseded hne =>
      intro _
      obtain ⟨w, hw, hrest⟩ := hknown.successor hbase hne
      exact ⟨⟨hdb, actionRely.le_refl _, fun _ _ _ ↦ ⟨rfl, rfl⟩, .inl rfl⟩,
        resolveConcurrentUpdate_ok (idle_self db) (hknown.later hle') ⟨w, hle'.1.subset hw, hrest⟩
          hk⟩
    | @committed held write hmatch hfree hheld hwrite =>
      intro hagree
      obtain ⟨hsame, hversions⟩ := hagree .agreement hheld rfl
      -- the version executed on is the current one, in the snapshot and in the store
      have hocurrent : o.current = db.current :=
        (hknown.later hle').eq_current hdb (by rw [← hsame, hmatch])
      have hhistory : History (db.commit o paymentRequested) :=
        hdb.commit hocurrent hversion hnext (hversions ▸ hfree)
      have hcommits : Commits o.actionName o.idempotencyKey db (db.commit o paymentRequested) := by
        refine ⟨o.next, o.commitOperations, paymentRequested, ?_, ?_, ?_⟩
        · rw [hversion, hocurrent]
        · rw [hnext, hocurrent]
        · rw [← hocurrent]
      rw [hwrite]
      refine ⟨⟨hhistory, ⟨List.prefix_append _ _, ?_⟩, ?_,
        .inr (.inr ⟨o.actionName, hkey ▸ hcommits⟩)⟩, hk _ _ _ hhistory ⟨?_, .inr ?_⟩⟩
      · rw [← hocurrent, ← hnext]
        rfl
      · intro key hnot hagreement
        exact absurd (hagreement ▸ hheld) hnot
      · exact ⟨o.version, List.mem_append_right _ (List.mem_singleton.mpr rfl), rfl⟩
      · exact ⟨o.actionName, db, _, rfl, hcommits⟩
    | conflict hname hc => exact hk _ _ _ hdb ⟨idle_nil, _, hname, hc.later hle'⟩
    | refused _ => exact hk _ _ _ hdb idle_nil

end

/-! ### The two use cases -/

/-- A refusal of the request's own ends well. -/
theorem failAttempt_ok (o : ActionOptions) {agreement : Agreement V}
    {attempted : Option Attempted} {error : ActionFailure}
    {own : List (ActionStore V × ActionStore V)} {s : ActionStore V}
    (h : FailsWell (.action o) own s error) :
    (failAttempt o agreement attempted error).Ok actionRely (actionPromise (.action o)) own s :=
  recordUnlessLost_ok h (.inl rfl)

theorem executeAndCommit_ok (o : ActionOptions) {agreement : Agreement V} (target : String)
    {s : ActionStore V} (hs : History s) (hknown : Known agreement s) :
    (executeAndCommit o agreement target).Ok actionRely (actionPromise (.action o)) [] s := by
  intro outside
  dsimp only
  cases outside.execution with
  | error refusal => exact failAttempt_ok o idle_nil.quiet
  | ok x =>
    refine commitAgreementAction_ok rfl hs hknown rfl rfl fun r own db _ hends ↦ ?_
    cases r with
    | ok _ => exact ret_ok ⟨⟨o.actionName, fun n hn ↦ Option.some.inj hn, hends.1⟩, hends.2⟩
    | error error =>
      exact failAttempt_ok o (hends.failsWell rfl fun n hn ↦ Option.some.inj hn)

theorem executeAgreementActionAttempt_ok (o : ActionOptions) {agreement : Agreement V}
    {s : ActionStore V} (hs : History s) (hknown : Known agreement s) :
    (executeAgreementActionAttempt o agreement).Ok actionRely (actionPromise (.action o)) [] s := by
  intro outside
  dsimp only
  cases outside.context with
  | error text => exact failAttempt_ok o idle_nil.quiet
  | ok context =>
    dsimp only
    split
    · exact failAttempt_ok o idle_nil.quiet
    · cases context.action with
      | error text => exact failAttempt_ok o idle_nil.quiet
      | ok action =>
        dsimp only
        split
        · exact failAttempt_ok o idle_nil.quiet
        · split
          · cases outside.page with
            | error text => exact failAttempt_ok o idle_nil.quiet
            | ok _ => exact record_ok rfl idle_nil.quiet fun own' hquiet ↦ hquiet
          · exact executeAndCommit_ok o action.target hs hknown

/-- What an access loads is the current agreement. -/
theorem loadAgreementForAction_eq_some {o : ActionOptions} {s : ActionStore V}
    {agreement : Agreement V} (h : loadAgreementForAction o s = some agreement) :
    agreement = s.current ∧ o.agreementNumber = s.current.agreementNumber := by
  have hfind := (Option.filter_eq_some_iff.mp h).1
  unfold findAgreementByNumber at hfind
  split at hfind
  · next hnumber => exact ⟨(Option.some.inj hfind).symm, hnumber.symm⟩
  · cases hfind

theorem executeAgreementAction_ok (o : ActionOptions) (s : ActionStore V) :
    (executeAgreementAction o).Ok actionRely (actionPromise (.action o)) [] s := by
  intro db seen hdb _ _ _ hprimary
  obtain rfl := hprimary rfl
  dsimp only
  cases hload : loadAgreementForAction o seen with
  | none => exact ret_ok idle_nil.quiet
  | some agreement =>
    obtain ⟨rfl, hnumber⟩ := loadAgreementForAction_eq_some hload
    intro db' seen' hdb' hle' _ _ hprimary'
    obtain rfl := hprimary' rfl
    dsimp only
    rw [hnumber, hle'.2]
    rcases findCompleted_cases o.actionName o.idempotencyKey hdb' with
      ⟨hf, hc⟩ | ⟨hf, _⟩ | ⟨hf, name, hname, hc⟩
    · rw [hf]
      exact ret_ok ⟨⟨o.actionName, fun n hn ↦ Option.some.inj hn, hc⟩, .inl idle_nil⟩
    · rw [hf]
      exact executeAgreementActionAttempt_ok o hdb' (hdb.current_known.later hle')
    · rw [hf]
      exact ret_ok ⟨idle_nil.quiet, name, fun n hn ↦ Option.some.inj hn ▸ hname, hc⟩

/-- A refusal of the command's own ends well, reported or dropped. -/
theorem failCommand_ok (command : StatusCommand) {agreement : Agreement V} {actionName : String}
    {error : ActionFailure} {own : List (ActionStore V × ActionStore V)} {s : ActionStore V}
    (h : FailsWell (.status command) own s error) :
    (failCommand command agreement actionName error).Ok actionRely
      (actionPromise (.status command)) own s := by
  refine recordUnlessLost_ok h ?_
  split
  · exact .inr rfl
  · exact .inl rfl

theorem executeStatusTransition_ok (command : StatusCommand) {agreement : Agreement V}
    {s : ActionStore V} (hs : History s) (hknown : Known agreement s) :
    (executeStatusTransition command agreement).Ok actionRely
      (actionPromise (.status command)) [] s := by
  intro outside
  dsimp only
  cases outside.actionForStatus with
  | error refusal => exact failCommand_ok command idle_nil.quiet
  | ok actionName =>
    intro outside
    dsimp only
    cases outside.execution with
    | error refusal => exact failCommand_ok command idle_nil.quiet
    | ok x =>
      refine commitAgreementAction_ok rfl hs hknown rfl rfl fun r own db _ hends ↦ ?_
      cases r with
      | ok _ =>
        exact ret_ok ⟨⟨actionName, fun n hn ↦ absurd hn (Option.not_mem_none n), hends.1⟩, hends.2⟩
      | error error =>
        exact failCommand_ok command
          (hends.failsWell rfl fun n hn ↦ absurd hn (Option.not_mem_none n))

theorem handleUpdateAgreementStatusCommand_ok (command : StatusCommand) (s : ActionStore V) :
    (handleUpdateAgreementStatusCommand command).Ok actionRely
      (actionPromise (.status command)) [] s := by
  intro db seen hdb _ _ _ hprimary
  obtain rfl := hprimary rfl
  dsimp only
  cases hfind : findVersionByIdempotencyKey command.agreementNumber command.id seen with
  | some found =>
    obtain ⟨v, x⟩ := found
    obtain ⟨hv, hx, hk⟩ := findVersion_eq_some hfind
    refine ret_ok ⟨rfl, v, hv, ?_, rfl⟩
    rw [AgreementVersion.idempotencyKey, hx, Option.map_some, hk]
    rfl
  | none =>
    intro db' seen' hdb' hle' _ _ hprimary'
    obtain rfl := hprimary' rfl
    dsimp only
    cases hload : findAgreementByNumber command.agreementNumber seen' with
    | none => exact ret_ok idle_nil.quiet
    | some agreement =>
      unfold findAgreementByNumber at hload
      split at hload
      · obtain rfl := Option.some.inj hload
        intro outside
        dsimp only
        cases outside.definition with
        | error text => exact ret_ok idle_nil.quiet
        | ok _ => exact executeStatusTransition_ok command hdb' hdb'.current_known
      · cases hload

theorem run_ok (request : ActionRequest) (s : ActionStore V) :
    (request.run : ActionUseCase V).Ok actionRely (actionPromise request) [] s := by
  cases request with
  | action options => exact executeAgreementAction_ok options s
  | status command => exact handleUpdateAgreementStatusCommand_ok command s

/-! ### All calls together -/

/-- The agreement as its creation left it. -/
def ActionStore.created (a : Agreement V) (outbox : List (Publication V))
    (audits : List AgreementAudit) : ActionStore V :=
  ⟨a, [AgreementVersion.create a a.createdAt], outbox, audits⟩

theorem history_created {a : Agreement V} (ha : a.version = 1) (outbox : List (Publication V))
    (audits : List AgreementAudit) : History (ActionStore.created a outbox audits) := by
  refine ⟨?_, ⟨_, rfl, rfl⟩, List.nodup_nil, ?_, ?_⟩
  · simp [ActionStore.created, AgreementVersion.create, ha]
  · intro v hv
    rw [List.mem_singleton.mp hv]
    rfl
  · intro v hv hne
    rw [List.mem_singleton.mp hv] at hne
    exact absurd ha hne

/-- The change stores what one action does: one version, one audit event, the two lifecycle
publications if and only if the state changed, and at most one payment request. -/
def StoresOnce (name key : String) (before after : ActionStore V) : Prop :=
  ∃ publications, after.outbox = before.outbox ++ publications ∧
      (∃ v, after.versions = before.versions ++ [v] ∧ v.actionExecution = some ⟨name, key⟩ ∧
        v.snapshot = after.current) ∧
      (∃ audit, after.audits = before.audits ++ [audit] ∧ audit.status = .success ∧
        audit.actionName = some name) ∧
      publications.filter (fun q ↦ !q.isPaymentRequest) =
        (if before.current.state = after.current.state then []
        else [createLifecyclePublication after.current,
          createAgreementStatusChangedReportingPublication after.current]) ∧
      (publications.filter Publication.isPaymentRequest).length ≤ 1

theorem Commits.storesOnce {name key : String} {before after : ActionStore V}
    (h : Commits name key before after) : StoresOnce name key before after := by
  obtain ⟨next, ops, paymentRequested, _, _, rfl⟩ := h
  have hlifecycle : ∀ q ∈ createLifecyclePublications before.current next,
      q.isPaymentRequest = false := by
    intro q hq
    unfold createLifecyclePublications at hq
    split at hq
    · exact absurd hq List.not_mem_nil
    · rcases List.mem_cons.mp hq with rfl | hq
      · rfl
      · rw [List.mem_singleton.mp hq]
        rfl
  have hkept : (createLifecyclePublications before.current next).filter
      (fun q ↦ !q.isPaymentRequest) = createLifecyclePublications before.current next :=
    List.filter_eq_self.mpr fun q hq ↦ by simp [hlifecycle q hq]
  have hnone : (createLifecyclePublications before.current next).filter
      Publication.isPaymentRequest = [] :=
    List.filter_eq_nil_iff.mpr fun q hq ↦ by simp [hlifecycle q hq]
  refine ⟨createActionPublications before.current next paymentRequested, rfl,
    ⟨_, rfl, rfl, rfl⟩, ⟨_, rfl, rfl, rfl⟩, ?_, ?_⟩
  · show _ = createLifecyclePublications before.current next
    cases paymentRequested
    · exact hkept
    · rw [createActionPublications, if_pos rfl, List.filter_append, hkept]
      exact List.append_nil _
  · cases paymentRequested
    · rw [createActionPublications, if_neg (by decide), hnone]
      exact Nat.zero_le 1
    · rw [createActionPublications, if_pos rfl, List.filter_append, hnone]
      exact Nat.le_refl 1

/-- How a call ends that lost the version it was executed on, by what its key was committed for:
with success for its own action, with a conflict for another one, and as stale when the version was
followed under another key. It has stored no more than the record of the conflict. -/
inductive LosesWell (request : ActionRequest) (executedOn : Nat)
    (own : List (ActionStore V × ActionStore V)) (db : ActionStore V) : Report V → Prop
  | completed {name : String} (hname : ∀ n ∈ request.actionName, name = n)
      (h : CommittedFor db name request.key) (hown : Idle own) :
      LosesWell request executedOn own db .completed
  | conflict {name : String} (hname : ∀ n ∈ request.actionName, name ≠ n)
      (h : CommittedFor db name request.key) (hown : Quiet own) :
      LosesWell request executedOn own db (.failed .conflict)
  | stale (h : Superseded db executedOn request.key) (hown : Idle own) :
      LosesWell request executedOn own db (request.lost true executedOn)

/-- A call that ends as one that lost, and ends well, loses well. -/
theorem Loses.losesWell {request : ActionRequest} {executedOn : Nat} {report : Report V}
    {own : List (ActionStore V × ActionStore V)} {db : ActionStore V}
    (h : Loses request executedOn report own) (hends : EndsWell request report own db) :
    LosesWell request executedOn own db report := by
  rcases h with ⟨rfl, hidle⟩ | ⟨rfl, hquiet⟩ | ⟨found, rfl, hidle⟩
  · obtain ⟨⟨name, hname, hc⟩, _⟩ := hends
    exact .completed hname hc hidle
  · obtain ⟨_, name, hname, hc⟩ := hends
    exact .conflict hname hc hquiet
  · have hfails : FailsWell request own db (.concurrencyLoss found executedOn) := by
      cases request with
      | action options => exact hends
      | status command => cases found <;> exact hends
    obtain ⟨rfl, _, hsuperseded⟩ := hfails
    exact .stale hsuperseded hidle

/-- A call whose own action the winner committed under its key reports success. -/
theorem LosesWell.completed_of_winner {request : ActionRequest} {executedOn : Nat}
    {report : Report V} {own : List (ActionStore V × ActionStore V)} {db : ActionStore V}
    (h : LosesWell request executedOn own db report) (hdb : History db) {w : AgreementVersion V}
    (hw : w ∈ db.versions) (hversion : w.version = executedOn + 1) {name : String}
    (hname : request.actionName = some name)
    (hx : w.actionExecution = some ⟨name, request.key⟩) : report = .completed := by
  cases h with
  | completed => rfl
  | conflict hother hc =>
    -- the key belongs to one version, which the winner committed for this action
    obtain ⟨v, hv, hvx⟩ := hc
    have hwkey : w.idempotencyKey = some request.key := by
      simp [AgreementVersion.idempotencyKey, hx]
    have hvkey : v.idempotencyKey = some request.key := by
      simp [AgreementVersion.idempotencyKey, hvx]
    have hsame : w = v := hdb.key_unique hw hv hwkey hvkey
    rw [hsame, hvx] at hx
    have hnames := congrArg ActionExecution.name (Option.some.inj hx)
    exact absurd hnames (hother name hname)
  | stale hsuperseded =>
    obtain ⟨v, hv, x, hvversion, hvx, hne⟩ := hsuperseded
    obtain rfl := hdb.version_unique hw hv (hversion.trans hvversion.symm)
    rw [hx] at hvx
    exact absurd (congrArg ActionExecution.idempotencyKey (Option.some.inj hvx)).symm hne

/-- Any number of actions and status commands on one agreement, in any interleaving: the
versions are 1 to n, the current agreement is the last snapshot, and a key occurs in one
version; every change is the commit of one action with what it stores, or the record of a
failed attempt; every call ends well; and a call whose commit starts when the version it was
executed on has been followed by another loses well, with success where the winner committed its
own action under its key. -/
theorem actions_commit_once {T : Type} [DecidableEq T] (a : Agreement V) (ha : a.version = 1)
    (outbox : List (Publication V)) (audits : List AgreementAudit) (requests : T → ActionRequest)
    {ls : List (T × Move (ActionOutside V))}
    {s : System ActionKey (ActionStore V) (ActionOutside V) ActionFailure Nat Committed
      (Report V) T}
    (h : Run System.step anyStep
      (System.start (ActionStore.created a outbox audits) fun t ↦ (requests t).run) ls s) :
    s.db.versions.map (·.version) = List.range' 1 s.db.versions.length ∧
    (∃ v, s.db.versions.getLast? = some v ∧ v.snapshot = s.db.current) ∧
    (s.db.versions.filterMap (·.idempotencyKey)).Nodup ∧
    (∀ c ∈ s.log, c.after = c.before ∨ RecordsFailure c.before c.after ∨
      ∃ name, Commits name (requests c.thread).key c.before c.after ∧
        StoresOnce name (requests c.thread).key c.before c.after) ∧
    (∀ t report, (s.threads t).result = some report →
      EndsWell (requests t) report (s.threads t).own s.db) ∧
    ∀ t executedOn, Sighted (System.start (ActionStore.created a outbox audits)
        fun t ↦ (requests t).run) ls s t (StartsLate executedOn) →
      ∀ report, (s.threads t).result = some report →
        LosesWell (requests t) executedOn (s.threads t).own s.db report ∧
        ∀ w ∈ s.db.versions, w.version = executedOn + 1 → ∀ name,
          (requests t).actionName = some name →
          w.actionExecution = some ⟨name, (requests t).key⟩ → report = .completed := by
  have hhistory₀ : History (ActionStore.created a outbox audits) :=
    history_created ha outbox audits
  have hsound : Sound actionRely (fun t ↦ actionPromise (requests t))
      (ActionStore.created a outbox audits) s :=
    run_sound hhistory₀ (fun t ↦ run_ok (requests t) _)
      (run_admitted (p := fun t ↦ actionPromise (requests t)) (fun _ _ _ ↦ trivial) h)
  have hhistory : History s.db := hsound.inv
  refine ⟨?_, hhistory.last, hhistory.keys, ?_, fun t report hph ↦ hsound.result hph, ?_⟩
  · rw [hhistory.numbers, hhistory.length]
  · intro c hc
    rcases hsound.log c hc with hsame | hfailure | ⟨name, hcommits⟩
    · exact .inl hsame
    · exact .inr (.inl hfailure)
    · exact .inr (.inr ⟨name, hcommits, hcommits.storesOnce⟩)
  · intro t executedOn hsighted report hresult
    have hloses : Loses (requests t) executedOn report (s.threads t).own :=
      hsighted.result (p := fun t ↦ actionPromise (requests t)) hhistory₀ (fun _ _ _ ↦ trivial)
        (fun t ↦ run_ok (requests t) _) (run_heeds (requests t) executedOn) hresult
    have hwell := hloses.losesWell (hsound.result hresult)
    exact ⟨hwell, fun w hw hversion name hname hx ↦
      hwell.completed_of_winner hhistory hw hversion hname hx⟩

/-- An agreement in its first version. -/
def offered : Agreement Unit :=
  ⟨"FPTT1", 1, "wmp", "app-1", "1.0.0", "corr-1", "106", (), "offered", "2026-10-01", "2026-10-01",
    none⟩

/-- An action on it by its holder. -/
def actionOn (actionName key : String) : ActionRequest :=
  .action ⟨actionName, "FPTT1", some "etag", key, "defra", "106"⟩

/-- A world in which every action leads to the state. -/
def leadsTo (state : String) : ActionOutside Unit where
  context := .ok ⟨"etag", .ok ⟨state, true⟩⟩
  definition := .ok ()
  actionForStatus := .ok "accept"
  page := .ok ()
  execution := .ok ⟨state, "2026-10-02", id, none, []⟩
  publications := .ok ()
  audit := .ok ()
  recorded := true

/-- Two actions under one key: both find the key unused, the first commits, the second
starts its transaction after that. -/
def racedActions : List (Bool × Move (ActionOutside Unit)) :=
  [(false, .look 0), (true, .look 0), (false, .look 0), (true, .look 0),
    (false, .ask (leadsTo "accepted")), (true, .ask (leadsTo "withdrawn")),
    (false, .ask (leadsTo "accepted")), (true, .ask (leadsTo "withdrawn")),
    (false, .go), (true, .go), (false, .go), (false, .go), (false, .go), (false, .go),
    (false, .ask (leadsTo "accepted")), (false, .go), (false, .go), (false, .go),
    (true, .go), (true, .go), (true, .go), (true, .ask (leadsTo "withdrawn")), (true, .go)]

/-- The requests of the race, for the first action and the second. -/
def racedRequests (first second : String) (t : Bool) : ActionRequest :=
  actionOn (if t then second else first) "key-1"

/-- A replay of the same action reports success and stores nothing. -/
theorem actions_commit_once_replayed :
    ∃ s, exec System.step (System.start (ActionStore.created offered [] [])
        fun t ↦ (racedRequests "accept" "accept" t).run) (racedActions.take 21) = some s ∧
      (s.threads true).result = some .completed ∧
      s.db.versions.map (·.version) = List.range' 1 s.db.versions.length := by
  have hexec : (exec System.step (System.start (ActionStore.created offered [] [])
      fun t ↦ (racedRequests "accept" "accept" t).run) (racedActions.take 21)).map
      (fun s ↦ (s.threads true).result) = some (some .completed) := by rfl
  obtain ⟨s, hs, hresult⟩ := Option.map_eq_some_iff.mp hexec
  exact ⟨s, hs, hresult, (actions_commit_once offered rfl [] []
    (racedRequests "accept" "accept") (Run.of_exec hs)).1⟩

/-- An action that lost to another action under its own key reports a conflict, neither
success nor a stale version, and its failure is recorded. -/
theorem conflict_reported :
    ∃ s, exec System.step (System.start (ActionStore.created offered [] [])
        fun t ↦ (racedRequests "accept" "withdraw" t).run) racedActions = some s ∧
      CommittedFor s.db "accept" "key-1" ∧
      (s.threads true).result = some (.failed .conflict) ∧
      s.db.audits.map (·.status) = [.success, .failure] := by
  have hexec : (exec System.step (System.start (ActionStore.created offered [] [])
      fun t ↦ (racedRequests "accept" "withdraw" t).run) racedActions).map
      (fun s ↦ ((s.threads true).result, s.db.versions.map (·.actionExecution),
        s.db.audits.map (·.status))) =
      some (some (.failed .conflict), [none, some ⟨"accept", "key-1"⟩], [.success, .failure]) := by
    rfl
  obtain ⟨s, hs, hfacts⟩ := Option.map_eq_some_iff.mp hexec
  simp only [Prod.mk.injEq] at hfacts
  obtain ⟨hresult, hversions, haudits⟩ := hfacts
  have hmem : some ⟨"accept", "key-1"⟩ ∈ s.db.versions.map (·.actionExecution) := by
    rw [hversions]
    exact List.mem_cons_of_mem _ (List.mem_singleton.mpr rfl)
  obtain ⟨v, hv, hx⟩ := List.mem_map.mp hmem
  exact ⟨s, hs, ⟨v, hv, hx⟩, hresult, haudits⟩

end FgGas.Agreements
