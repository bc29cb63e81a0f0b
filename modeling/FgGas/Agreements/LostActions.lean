import FgGas.Agreements.ActionHistory
import FgGas.Store.Sighted

/-!
# Actions that come too late

A transaction that starts when another version is current than the one its action was executed on
stores nothing. The call goes to the recovery, and what it reports then is success, a conflict or
a stale version, whatever else is committed meanwhile.
-/

namespace FgGas.Agreements

open Machine Store

variable {V : Type}

/-- The changes stored nothing. -/
def Idle (own : List (ActionStore V × ActionStore V)) : Prop := ∀ c ∈ own, c.2 = c.1

/-- The changes stored at most records of failed attempts. -/
def Quiet (own : List (ActionStore V × ActionStore V)) : Prop :=
  ∀ c ∈ own, c.2 = c.1 ∨ RecordsFailure c.1 c.2

theorem idle_nil : Idle ([] : List (ActionStore V × ActionStore V)) :=
  fun _ hc ↦ absurd hc List.not_mem_nil

theorem idle_self (s : ActionStore V) : Idle [(s, s)] := by
  intro c hc
  rw [List.mem_singleton.mp hc]

theorem Idle.quiet {own : List (ActionStore V × ActionStore V)} (h : Idle own) : Quiet own :=
  fun c hc ↦ .inl (h c hc)

/-- The transaction starts when another version has followed the one its action was executed
on. -/
def StartsLate (executedOn : Nat) : Sight (ActionStore V) Nat → Prop
  | .looked _ => False
  | .started note base => note = executedOn ∧ executedOn < base.current.version

/-- How a call reports that it lost the version it was executed on, or the agreement itself: the
handler of status commands logs a stale version and drops it. -/
def ActionRequest.lost (request : ActionRequest) (found : Bool) (executedOn : Nat) : Report V :=
  match request with
  | .action _ => .failed (.concurrencyLoss found executedOn)
  | .status _ =>
    if found then .rejected (.concurrencyLoss found executedOn)
    else .failed (.concurrencyLoss found executedOn)

/-- The ways a call that lost may end. -/
def Loses (request : ActionRequest) (executedOn : Nat) (report : Report V)
    (own : List (ActionStore V × ActionStore V)) : Prop :=
  report = .completed ∧ Idle own ∨ report = .failed .conflict ∧ Quiet own ∨
    ∃ found, report = request.lost found executedOn ∧ Idle own

/-- The only thing the lookup of a key throws. -/
theorem findCompleted_eq_error {agreementNumber actionName key : String} {s : ActionStore V}
    {error : ActionFailure} (h : findCompleted agreementNumber actionName key s = .error error) :
    error = .conflict := by
  unfold findCompleted at h
  split at h
  · cases h
  · split at h
    · exact (Except.error.inj h).symm
    · cases h

/-- How a transaction ends on another version than its action was executed on; it stores
nothing. -/
inductive LateOutcome :
    Except ActionFailure Committed → (ActionStore V → ActionStore V) → Prop
  | replayed : LateOutcome (.ok .completed) id
  | superseded : LateOutcome (.ok .concurrentUpdate) id
  | conflict : LateOutcome (.error .conflict) id

theorem commitActionTransaction_late {o : CommitOptions V} (paymentRequested : Bool)
    {base : ActionStore V} (hlate : o.current.version < base.current.version) :
    (commitActionTransaction o paymentRequested).Leads base [] id
      fun result _ write ↦ LateOutcome result write := by
  unfold commitActionTransaction
  simp only [Session.leads_bind, Session.leads_read, Session.leads_orThrow, id]
  cases hfind : findCompleted o.current.agreementNumber o.actionName o.idempotencyKey base with
  | error error =>
    obtain rfl := findCompleted_eq_error hfind
    exact .conflict
  | ok completed =>
    cases completed with
    | true => exact .replayed
    | false =>
      have hfound : ¬ (base.current.agreementNumber = o.next.agreementNumber ∧
          base.current.version = o.current.version) := fun h ↦ Nat.ne_of_gt hlate h.2
      simp only [Bool.false_eq_true, if_false, Session.leads_bind, replaceCurrentAgreement,
        Session.Leads, id, hfound, decide_false, Bool.not_false, if_true, Session.leads_pure,
        Act.none]
      exact .superseded

section
variable {request : ActionRequest} {executedOn : Nat} {o : CommitOptions V}
  {k : Except ActionFailure Unit → ActionUseCase V}

/-- What is left of a call after its commit ends as a call that lost does. -/
structure EndsLost (request : ActionRequest) (executedOn : Nat)
    (k : Except ActionFailure Unit → ActionUseCase V) : Prop where
  completed : ∀ own s, Idle own →
    (k (.ok ())).Yields actionRely .any (Loses request executedOn) own s
  conflict : ∀ own s, Idle own →
    (k (.error .conflict)).Yields actionRely .any (Loses request executedOn) own s
  lost : ∀ found own s, Idle own → (k (.error (.concurrencyLoss found executedOn))).Yields
    actionRely .any (Loses request executedOn) own s

/-- The recovery ends as a call that lost does. -/
theorem resolveConcurrentUpdate_yields (hk : EndsLost request o.current.version k)
    {own : List (ActionStore V × ActionStore V)} (hidle : Idle own) (s : ActionStore V) :
    (resolveConcurrentUpdate o k).Yields actionRely .any
      (Loses request o.current.version) own s := by
  intro db seen _ _ _ _ _ _
  dsimp only
  cases hfind : findCompleted o.current.agreementNumber o.actionName o.idempotencyKey seen with
  | error error =>
    obtain rfl := findCompleted_eq_error hfind
    exact hk.conflict own db hidle
  | ok completed =>
    cases completed with
    | true => exact hk.completed own db hidle
    | false =>
      intro db' seen' _ _ _ _ _ _
      dsimp only
      cases findAgreementByNumber o.current.agreementNumber seen' with
      | none => exact hk.lost false own db' hidle
      | some agreement => exact hk.lost true own db' hidle

/-- The transaction of a call that lost, run as often as it may be, leads to the end of a call
that lost. -/
theorem commit_yields (hk : EndsLost request o.current.version k) (paymentRequested : Bool)
    {base : ActionStore V} (hbase : History base)
    (hlate : o.current.version < base.current.version) :
    (Callback.body o.current.version (commitActionTransaction o paymentRequested)).Yields
      actionRely .any (thenYields actionRely .any (Loses request o.current.version)
        fun (result : Except ActionFailure Committed) ↦ match result with
          | .ok .completed => k (.ok ())
          | .ok .concurrentUpdate => resolveConcurrentUpdate o k
          | .error error =>
            if isConcurrentActionConflict error then resolveConcurrentUpdate o k
            else k (.error error)) [] base := by
  intro base' hbase' hle _
  -- the current version is the number of versions, which only grows
  have hversions : base.current.version ≤ base'.current.version := by
    rw [← hbase.length, ← hbase'.length]
    exact hle.1.length_le
  refine Session.Leads.under
    ((commitActionTransaction_late paymentRequested (by omega)).mono ?_)
  intro r held write hend before db _ _ _ _ _
  cases hend with
  | replayed => exact hk.completed _ db (idle_self before)
  | superseded => exact resolveConcurrentUpdate_yields hk (idle_self before) db
  | conflict => exact hk.conflict [] db idle_nil

/-- A commit heeds that it starts late. -/
theorem commitAgreementAction_heeds (hk : EndsLost request o.current.version k)
    (hheeds : ∀ r own, (k r).Heeds actionRely (StartsLate executedOn)
      (Loses request executedOn) own) :
    (commitAgreementAction o k).Heeds actionRely (StartsLate executedOn)
      (Loses request executedOn) [] := by
  have hresolve : ∀ own, (resolveConcurrentUpdate o k).Heeds actionRely (StartsLate executedOn)
      (Loses request executedOn) own := by
    intro own db seen _ _ _ _
    refine ⟨fun hlooked ↦ absurd hlooked id, ?_⟩
    dsimp only
    cases findCompleted o.current.agreementNumber o.actionName o.idempotencyKey seen with
    | error error => exact hheeds _ own
    | ok completed =>
      cases completed with
      | true => exact hheeds _ own
      | false =>
        intro db' seen' _ _ _ _
        refine ⟨fun hlooked ↦ absurd hlooked id, ?_⟩
        dsimp only
        cases findAgreementByNumber o.current.agreementNumber seen' <;> exact hheeds _ own
  unfold commitAgreementAction
  cases hasPaymentCommitOperation o.commitOperations with
  | error error => exact hheeds _ []
  | ok paymentRequested =>
    refine ⟨?_, fun error ↦ ?_, fun value change ↦ ?_⟩
    · rintro base hbase ⟨rfl, hlate⟩
      have hyields := commit_yields hk paymentRequested hbase hlate
      exact ⟨hyields, hyields base hbase (actionRely.le_refl base) trivial⟩
    · dsimp only
      split
      · exact hresolve []
      · exact hheeds _ []
    · cases value with
      | completed => exact hheeds _ _
      | concurrentUpdate => exact hresolve _

end

/-! ### The two use cases -/

section
variable {request : ActionRequest} {executedOn : Nat}
  {Q : Report V → List (ActionStore V × ActionStore V) → Prop}

theorem recordAgreementActionFailure_heeds (audit : AgreementAudit) (report : Report V)
    (own : List (ActionStore V × ActionStore V)) :
    (recordAgreementActionFailure audit report).Heeds actionRely (StartsLate executedOn) Q own := by
  intro outside
  dsimp only
  split
  · exact fun db ↦ trivial
  · trivial

theorem recordUnlessLost_heeds (actionName : String) (current : Agreement V)
    (attempted : Option Attempted) (key : String) (error : ActionFailure) (report : Report V)
    (own : List (ActionStore V × ActionStore V)) :
    (recordUnlessLost actionName current attempted key error report).Heeds actionRely
      (StartsLate executedOn) Q own := by
  unfold recordUnlessLost
  split
  · trivial
  · exact recordAgreementActionFailure_heeds _ report own

/-- What follows the commit ends as a call that lost does, when it completes or records the failure
and reports it as one that lost. -/
theorem endsLost_of_report {actionName key : String} {current : Agreement V}
    {attempted : Option Attempted} (report : ActionFailure → Report V)
    (hconflict : report .conflict = .failed .conflict)
    (hlost : ∀ found, report (.concurrencyLoss found executedOn) = request.lost found executedOn) :
    EndsLost request executedOn fun
      | .ok () => .ret .completed
      | .error error => recordUnlessLost actionName current attempted key error (report error) where
  completed own s hidle := .inl ⟨rfl, hidle⟩
  conflict own s hidle := by
    intro outside _
    dsimp only
    rw [hconflict]
    split
    · intro db _ _
      refine .inr (.inl ⟨rfl, fun c hc ↦ ?_⟩)
      rcases List.mem_append.mp hc with hc | hc
      · exact .inl (hidle c hc)
      · rw [List.mem_singleton.mp hc]
        exact .inr ⟨_, rfl, rfl⟩
    · exact .inr (.inl ⟨rfl, hidle.quiet⟩)
  lost found own s hidle := .inr (.inr ⟨found, hlost found, hidle⟩)

theorem executeAndCommit_heeds (o : ActionOptions) (agreement : Agreement V) (target : String) :
    (executeAndCommit o agreement target).Heeds actionRely (StartsLate executedOn)
      (Loses (.action o) executedOn) [] := by
  intro outside
  dsimp only
  cases outside.execution with
  | error refusal => exact recordUnlessLost_heeds ..
  | ok x =>
    refine commitAgreementAction_heeds (endsLost_of_report .failed rfl fun found ↦ rfl)
      fun r own ↦ ?_
    cases r with
    | ok _ => trivial
    | error error => exact recordUnlessLost_heeds ..

theorem executeAgreementActionAttempt_heeds (o : ActionOptions) (agreement : Agreement V) :
    (executeAgreementActionAttempt o agreement).Heeds actionRely (StartsLate executedOn)
      (Loses (.action o) executedOn) [] := by
  intro outside
  dsimp only
  cases outside.context with
  | error text => exact recordUnlessLost_heeds ..
  | ok context =>
    dsimp only
    split
    · exact recordUnlessLost_heeds ..
    · cases context.action with
      | error text => exact recordUnlessLost_heeds ..
      | ok action =>
        dsimp only
        split
        · exact recordUnlessLost_heeds ..
        · split
          · cases outside.page with
            | error text => exact recordUnlessLost_heeds ..
            | ok _ => exact recordAgreementActionFailure_heeds _ _ []
          · exact executeAndCommit_heeds o agreement action.target

theorem executeAgreementAction_heeds (o : ActionOptions) :
    (executeAgreementAction o : ActionUseCase V).Heeds actionRely (StartsLate executedOn)
      (Loses (.action o) executedOn) [] := by
  intro db seen _ _ _ _
  refine ⟨fun hlooked ↦ absurd hlooked id, ?_⟩
  dsimp only
  cases loadAgreementForAction o seen with
  | none => trivial
  | some agreement =>
    intro db' seen' _ _ _ _
    refine ⟨fun hlooked ↦ absurd hlooked id, ?_⟩
    dsimp only
    cases findCompleted o.agreementNumber o.actionName o.idempotencyKey seen' with
    | error error => trivial
    | ok completed =>
      cases completed with
      | true => trivial
      | false => exact executeAgreementActionAttempt_heeds o agreement

theorem executeStatusTransition_heeds (command : StatusCommand) (agreement : Agreement V) :
    (executeStatusTransition command agreement).Heeds actionRely (StartsLate executedOn)
      (Loses (.status command) executedOn) [] := by
  intro outside
  dsimp only
  cases outside.actionForStatus with
  | error refusal => exact recordUnlessLost_heeds ..
  | ok actionName =>
    intro outside
    dsimp only
    cases outside.execution with
    | error refusal => exact recordUnlessLost_heeds ..
    | ok x =>
      refine commitAgreementAction_heeds (endsLost_of_report
        (fun error ↦ if isRejectedTransition error then .rejected error else .failed error)
        rfl fun found ↦ rfl) fun r own ↦ ?_
      cases r with
      | ok _ => trivial
      | error error => exact recordUnlessLost_heeds ..

theorem handleUpdateAgreementStatusCommand_heeds (command : StatusCommand) :
    (handleUpdateAgreementStatusCommand command : ActionUseCase V).Heeds actionRely
      (StartsLate executedOn) (Loses (.status command) executedOn) [] := by
  intro db seen _ _ _ _
  refine ⟨fun hlooked ↦ absurd hlooked id, ?_⟩
  dsimp only
  cases findVersionByIdempotencyKey command.agreementNumber command.id seen with
  | some found => trivial
  | none =>
    intro db' seen' _ _ _ _
    refine ⟨fun hlooked ↦ absurd hlooked id, ?_⟩
    dsimp only
    cases findAgreementByNumber command.agreementNumber seen' with
    | none => trivial
    | some agreement =>
      intro outside
      dsimp only
      cases outside.definition with
      | error text => trivial
      | ok _ => exact executeStatusTransition_heeds command agreement

/-- Every call heeds that its commit starts late. -/
theorem run_heeds (request : ActionRequest) (executedOn : Nat) :
    (request.run : ActionUseCase V).Heeds actionRely (StartsLate executedOn)
      (Loses request executedOn) [] := by
  cases request with
  | action options => exact executeAgreementAction_heeds options
  | status command => exact handleUpdateAgreementStatusCommand_heeds command

end

end FgGas.Agreements
