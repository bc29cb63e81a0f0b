import Mathlib.Data.List.Basic

/-!
# Audited use cases inside a transaction

`withAudit` and `writeAuditEvent` (`src/events/with-audit.js`,
`src/events/write-audit-event.js`) inside `withTransaction`
(`src/common/with-transaction.js`), whose driver runs the whole callback again after a
transient abort. What the operation, the database and the driver do in each pass of the
callback is given; what is stored and what the caller sees is computed.
-/

namespace FgGas.Events

/-- `auditStatus`. -/
inductive AuditStatus
  | success
  | failure
  deriving DecidableEq, Repr

/-- A stored audit event: its status, and what the data builder gave. -/
structure AuditEvent (D : Type) where
  status : AuditStatus
  data : D
  deriving DecidableEq, Repr

/-- What a write or a commit comes to: done, done with its answer lost, or not done. -/
inductive DbReply (E : Type)
  | answered
  | unanswered (error : E)
  | refused (error : E)
  deriving DecidableEq, Repr

/-- What the caller of a write or a commit is thrown. -/
def DbReply.result {E : Type} : DbReply E → Except E Unit
  | .answered => .ok ()
  | .unanswered error => .error error
  | .refused error => .error error

/-- Whether it happened. -/
def DbReply.done {E : Type} : DbReply E → Bool
  | .refused _ => false
  | _ => true

/-- One pass of the callback: what the audited operation returns or throws, what
`validateAuditEvent` says of its event, what the event's insert comes to, what the rest of the
callback throws, what the commit comes to, and whether the driver has time left to rerun. -/
structure Pass (E R : Type) where
  operation : Except E R
  valid : Bool
  insert : DbReply E
  rest : Option E
  commit : DbReply E
  inTime : Bool

/-- An audited use case: its `dataBuilder` on its arguments, which may throw and may answer
nothing; the error of an event that fails validation; and whether an error carries the label
`TransientTransactionError`. -/
structure AuditedUseCase (E R D : Type) where
  dataBuilder : Option R → Option E → Except E (Option D)
  invalidEvent : E
  transient : E → Bool

/-- What a pass of the audited operation returns or throws, the events it inserted in its
session and those it inserted outside. -/
structure Audited (E R D : Type) where
  result : Except E R
  inSession : List (AuditEvent D)
  outside : List (AuditEvent D)

/-- What the caller sees, what is stored of the audit, and whether the operation's writes
committed. -/
structure Outcome (E R D : Type) where
  result : Except E R
  stored : List (AuditEvent D)
  committed : Bool

section
variable {E R D : Type} (u : AuditedUseCase E R D) (p : Pass E R)

/-- `writeAuditEvent`, with the event it inserted: inside a session an invalid event is an
error, outside it is skipped. -/
def writeAuditEvent (status : AuditStatus) (data : D) (session : Bool) :
    Except E Unit × List (AuditEvent D) :=
  if p.valid then (p.insert.result, if p.insert.done then [⟨status, data⟩] else [])
  else if session then (.error u.invalidEvent, [])
  else (.ok (), [])

/-- `writeAudit`: the error the caller must rethrow, which is none outside a session, and
the event inserted. -/
def writeAudit (result : Option R) (error : Option E) (status : AuditStatus) (session : Bool) :
    Option E × List (AuditEvent D) :=
  let written := match u.dataBuilder result error with
    | .ok (some data) => writeAuditEvent u p status data session
    | .ok none => (.ok (), [])
    | .error auditError => (.error auditError, [])
  match written.1 with
  | .ok () => (none, written.2)
  | .error auditError => (if session then some auditError else none, written.2)

/-- `withAudit`, called with a session: a failure is recorded outside it. -/
def withAudit : Audited E R D :=
  match p.operation with
  | .error error =>
      let written := writeAudit u p none (some error) .failure false
      ⟨.error error, [], written.2⟩
  | .ok result =>
      match writeAudit u p (some result) none .success true with
      | (some auditFailure, inserted) => ⟨.error auditFailure, inserted, []⟩
      | (none, inserted) => ⟨.ok result, inserted, []⟩

/-- The callback: the audited operation and whatever follows it. -/
def callback : Audited E R D :=
  let audited := withAudit u p
  match audited.result, p.rest with
  | .ok _, some error => { audited with result := .error error }
  | _, _ => audited

/-- How the driver ends a pass: with a result and whether its writes are in; `none` when it
aborts and runs the callback again. -/
def endPass : Option (Except E R × Bool) :=
  match (callback u p).result with
  | .error error =>
      if u.transient error && p.inTime then none else some (.error error, false)
  | .ok result =>
      match p.commit with
      | .answered => some (.ok result, true)
      | .unanswered error => some (.error error, true)
      | .refused error =>
          if u.transient error && p.inTime then none else some (.error error, false)

/-- `withTransaction` over the passes the driver reruns and the one it ends with; `none` when
the driver would do otherwise. An event inserted in a session is stored when it commits. -/
def withTransaction (u : AuditedUseCase E R D) :
    List (Pass E R) → Pass E R → Option (Outcome E R D)
  | [], last =>
      (endPass u last).map fun (result, committed) ↦
        { result := result
          stored := (callback u last).outside ++
            if committed then (callback u last).inSession else []
          committed := committed }
  | p :: rest, last =>
      match endPass u p with
      | some _ => none
      | none =>
          (withTransaction u rest last).map fun outcome ↦
            { outcome with stored := (callback u p).outside ++ outcome.stored }

end

/-- The operation throws, and the record of its failure goes through. -/
def Pass.recordsFailure {E R : Type} (p : Pass E R) : Bool :=
  match p.operation with
  | .error _ => p.valid && p.insert.done
  | .ok _ => false

/-- The operation returns, its event and the rest of the callback go through, and the commit
happens. -/
def Pass.commits {E R : Type} (p : Pass E R) : Bool :=
  match p.operation, p.insert, p.rest with
  | .ok _, .answered, none => p.valid && p.commit.done
  | _, _, _ => false

/-- The audit tells what became of the operation: failures are stored only of what did not
commit, successes exactly of what did, one event at most; and the caller sees what the
operation threw. -/
structure AuditedFaithfully {E R D : Type} (last : Pass E R) (outcome : Outcome E R D) :
    Prop where
  failure : (∃ event ∈ outcome.stored, event.status = .failure) → outcome.committed = false
  success : (∃ event ∈ outcome.stored, event.status = .success) ↔ outcome.committed = true
  once : outcome.stored.length ≤ 1
  error : ∀ error, last.operation = .error error → outcome.result = .error error

section
variable {E R D : Type} {u : AuditedUseCase E R D} {p : Pass E R}

/-- The audit data is there whatever the operation did. -/
def AuditedUseCase.Answers (u : AuditedUseCase E R D) : Prop :=
  ∀ result error, ∃ data, u.dataBuilder result error = .ok (some data)

/-- A failing operation is audited outside the session if its record goes through, and its
error goes on to the caller. -/
theorem callback_of_error (hu : u.Answers) {error : E} (h : p.operation = .error error) :
    (callback u p).result = .error error ∧ (callback u p).inSession = [] ∧
      ∃ data, (callback u p).outside = if p.recordsFailure then [⟨.failure, data⟩] else [] := by
  obtain ⟨data, hdata⟩ := hu none (some error)
  have hcallback : callback u p = withAudit u p := by
    simp only [callback, withAudit, h]
  rw [hcallback]
  refine ⟨by simp only [withAudit, h], by simp only [withAudit, h], data, ?_⟩
  by_cases hvalid : p.valid
  · cases hinsert : p.insert <;>
      simp [withAudit, writeAudit, writeAuditEvent, Pass.recordsFailure, h, hdata, hvalid, hinsert,
        DbReply.result, DbReply.done]
  · simp [withAudit, writeAudit, writeAuditEvent, Pass.recordsFailure, h, hdata, hvalid]

/-- An operation that returns is audited in its session: the callback returns with its event
there, and the commit is the database's, or it throws, and nothing commits. -/
theorem callback_of_ok (hu : u.Answers) {result : R} (h : p.operation = .ok result) :
    (callback u p).outside = [] ∧
      ((∃ data, callback u p = ⟨.ok result, [⟨.success, data⟩], []⟩ ∧ p.commits = p.commit.done) ∨
        ∃ error, (callback u p).result = .error error ∧ p.commits = false) := by
  obtain ⟨data, hdata⟩ := hu (some result) none
  by_cases hvalid : p.valid <;> cases hinsert : p.insert <;> cases hrest : p.rest <;>
    simp [callback, withAudit, writeAudit, writeAuditEvent, h, hdata, hvalid, hinsert, hrest,
      DbReply.result, DbReply.done, Pass.commits]

/-- What a pass stores outside its session. -/
theorem outside_statuses (hu : u.Answers) :
    (callback u p).outside.map AuditEvent.status = if p.recordsFailure then [.failure] else [] := by
  cases hop : p.operation with
  | error error =>
    obtain ⟨_, _, data, houtside⟩ := callback_of_error hu hop
    rw [houtside]
    split <;> rfl
  | ok result =>
    have hrecords : p.recordsFailure = false := by simp only [Pass.recordsFailure, hop]
    rw [(callback_of_ok hu hop).1, hrecords]
    rfl

/-- A pass commits only if its callback returns. -/
theorem commits_eq_false_of_error (hu : u.Answers) {error : E}
    (h : (callback u p).result = .error error) : p.commits = false := by
  cases hop : p.operation with
  | error e => simp only [Pass.commits, hop]
  | ok result =>
    rcases (callback_of_ok hu hop).2 with ⟨data, hreturns, _⟩ | ⟨_, _, hcommits⟩
    · rw [hreturns] at h
      cases h
    · exact hcommits

/-- A pass whose callback returns commits as the database says, its event in its session. -/
theorem commits_of_returns (hu : u.Answers) {result : R}
    (h : (callback u p).result = .ok result) : p.commits = p.commit.done ∧
      (callback u p).inSession.map AuditEvent.status = [.success] := by
  cases hop : p.operation with
  | error e =>
    rw [(callback_of_error hu hop).1] at h
    cases h
  | ok r =>
    rcases (callback_of_ok hu hop).2 with ⟨data, hreturns, hcommits⟩ | ⟨error, hthrows, _⟩
    · rw [hreturns]
      exact ⟨hcommits, rfl⟩
    · rw [hthrows] at h
      cases h

/-- A pass the driver reruns has not committed. -/
theorem endPass_eq_none (hu : u.Answers) (h : endPass u p = none) : p.commits = false := by
  cases hr : (callback u p).result with
  | error error => exact commits_eq_false_of_error hu hr
  | ok result =>
    rw [(commits_of_returns hu hr).1]
    simp only [endPass, hr] at h
    cases hc : p.commit with
    | answered => simp [hc] at h
    | unanswered error => simp [hc] at h
    | refused error => rfl

/-- The pass the driver ends with: whether it committed, and what it stored. -/
theorem endPass_eq_some (hu : u.Answers) {result : Except E R} {committed : Bool}
    (h : endPass u p = some (result, committed)) :
    committed = p.commits ∧
      ((if committed then (callback u p).inSession else []).map AuditEvent.status =
        if p.commits then [.success] else []) ∧
      ∀ error, p.operation = .error error → result = .error error := by
  cases hr : (callback u p).result with
  | error error =>
    have hcommits := commits_eq_false_of_error hu hr
    simp only [endPass, hr] at h
    split at h
    · cases h
    · cases h
      refine ⟨hcommits.symm, by rw [hcommits]; rfl, fun e he ↦ ?_⟩
      exact hr.symm.trans (callback_of_error hu he).1
  | ok r =>
    obtain ⟨hcommits, hin⟩ := commits_of_returns hu hr
    have hop : ∀ e, p.operation ≠ .error e := by
      intro e he
      rw [(callback_of_error hu he).1] at hr
      cases hr
    have hcommitted : committed = p.commit.done := by
      simp only [endPass, hr] at h
      cases hc : p.commit with
      | answered =>
        simp only [hc] at h
        cases h
        rfl
      | unanswered error =>
        simp only [hc] at h
        cases h
        rfl
      | refused error =>
        simp only [hc] at h
        split at h
        · cases h
        · cases h
          rfl
    refine ⟨hcommitted.trans hcommits.symm, ?_, fun e he ↦ absurd he (hop e)⟩
    rw [hcommits, hcommitted]
    cases p.commit.done with
    | true => exact hin
    | false => rfl

/-- What a run of the driver stores: a failure for every pass that threw and was recorded,
and a success if the last pass committed. No earlier pass did. -/
theorem withTransaction_eq_some (hu : u.Answers) {last : Pass E R} :
    ∀ {aborted : List (Pass E R)} {outcome : Outcome E R D},
      withTransaction u aborted last = some outcome →
      outcome.stored.map AuditEvent.status =
          ((aborted ++ [last]).filter Pass.recordsFailure).map (fun _ ↦ .failure) ++
            (if last.commits then [.success] else []) ∧
        outcome.committed = last.commits ∧
        (∀ p ∈ aborted, p.commits = false) ∧
        ∀ error, last.operation = .error error → outcome.result = .error error
  | [], outcome, h => by
    obtain ⟨⟨result, committed⟩, hend, rfl⟩ := Option.map_eq_some_iff.mp h
    obtain ⟨hcommitted, hin, herror⟩ := endPass_eq_some hu hend
    refine ⟨?_, hcommitted, by simp, herror⟩
    rw [List.map_append, outside_statuses hu, hin]
    cases hr : last.recordsFailure <;> simp [hr]
  | p :: rest, outcome, h => by
    cases hend : endPass u p with
    | some ended => simp [withTransaction, hend] at h
    | none =>
      simp only [withTransaction, hend] at h
      obtain ⟨later, hlater, rfl⟩ := Option.map_eq_some_iff.mp h
      obtain ⟨hstored, hcommitted, haborted, herror⟩ := withTransaction_eq_some hu hlater
      refine ⟨?_, hcommitted, ?_, herror⟩
      · rw [List.map_append, outside_statuses hu, hstored]
        cases hr : p.recordsFailure <;> simp [hr]
      · intro q hq
        rcases List.mem_cons.mp hq with rfl | hq
        · exact endPass_eq_none hu hend
        · exact haborted q hq

/-- No pass both throws and commits. -/
theorem commits_of_recordsFailure (h : p.recordsFailure = true) : p.commits = false := by
  cases hop : p.operation with
  | error error => simp only [Pass.commits, hop]
  | ok result => simp [Pass.recordsFailure, hop] at h

/-- The passes that leave a mark: those that record a failure, and the last one if it
commits. -/
theorem length_filter_marks {aborted : List (Pass E R)} {last : Pass E R}
    (haborted : ∀ p ∈ aborted, p.commits = false) :
    ((aborted ++ [last]).filter fun p ↦ p.recordsFailure || p.commits).length =
      ((aborted ++ [last]).filter Pass.recordsFailure).length + last.commits.toNat := by
  have hfilter : aborted.filter (fun p ↦ p.recordsFailure || p.commits) =
      aborted.filter Pass.recordsFailure :=
    List.filter_congr fun p hp ↦ by rw [haborted p hp, Bool.or_false]
  rw [List.filter_append, List.filter_append, hfilter, List.length_append, List.length_append]
  cases hr : last.recordsFailure with
  | true =>
    have hc := commits_of_recordsFailure hr
    simp [hr, hc]
  | false => cases hc : last.commits <;> simp [hr, hc]

end

/-- Whatever the passes of a transaction come to: its audit is faithful exactly when at most
one pass leaves a mark, by throwing with its failure recorded or by committing. -/
theorem audited_faithfully_iff {E R D : Type} (u : AuditedUseCase E R D) (hu : u.Answers)
    {aborted : List (Pass E R)} {last : Pass E R} {outcome : Outcome E R D}
    (h : withTransaction u aborted last = some outcome) :
    AuditedFaithfully last outcome ↔
      ((aborted ++ [last]).filter fun p ↦ p.recordsFailure || p.commits).length ≤ 1 := by
  obtain ⟨hstored, hcommitted, haborted, herror⟩ := withTransaction_eq_some hu h
  have hstatus : ∀ status, (∃ event ∈ outcome.stored, event.status = status) ↔
      status ∈ outcome.stored.map AuditEvent.status := fun _ ↦ List.mem_map.symm
  have hlength : outcome.stored.length =
      ((aborted ++ [last]).filter Pass.recordsFailure).length + last.commits.toNat := by
    have hmap := congrArg List.length hstored
    rw [List.length_map, List.length_append, List.length_map] at hmap
    rw [hmap]
    cases last.commits <;> rfl
  rw [length_filter_marks haborted, ← hlength]
  refine ⟨fun hfaithful ↦ hfaithful.once, fun honce ↦ ⟨?_, ?_, honce, herror⟩⟩
  · rw [hstatus, hstored, hcommitted]
    intro hmem
    cases hc : last.commits with
    | false => rfl
    | true =>
      -- a recorded failure beside the success makes two events
      rw [hlength, hc, Bool.toNat_true] at honce
      have hnil : (aborted ++ [last]).filter Pass.recordsFailure = [] :=
        List.eq_nil_of_length_eq_zero (by omega)
      rw [hnil, hc] at hmem
      simp at hmem
  · rw [hstatus, hstored, hcommitted]
    cases last.commits <;> simp

/-- A commit that had to be tried again, and then went through. -/
theorem audited_faithfully_recommitted :
    let u : AuditedUseCase String Nat String :=
      ⟨fun _ _ ↦ .ok (some "replace"), "invalid", fun error ↦ error = "WriteConflict"⟩
    let aborted : Pass String Nat := ⟨.ok 7, true, .answered, none, .refused "WriteConflict", true⟩
    let last : Pass String Nat := ⟨.ok 7, true, .answered, none, .answered, true⟩
    ∃ outcome, withTransaction u [aborted] last = some outcome ∧
      AuditedFaithfully last outcome := by
  intro u aborted last
  have h : withTransaction u [aborted] last =
      some ⟨.ok 7, [⟨.success, "replace"⟩], true⟩ := rfl
  exact ⟨_, h, (audited_faithfully_iff u (fun _ _ ↦ ⟨_, rfl⟩) h).mpr (by decide)⟩

/-- An operation that meets a write conflict in its first pass and goes through in its
second: its failure is on record beside its success. -/
theorem failure_stored_of_committed :
    let u : AuditedUseCase String Nat String :=
      ⟨fun _ _ ↦ .ok (some "replace"), "invalid", fun error ↦ error = "WriteConflict"⟩
    let aborted : Pass String Nat :=
      ⟨.error "WriteConflict", true, .answered, none, .answered, true⟩
    let last : Pass String Nat := ⟨.ok 7, true, .answered, none, .answered, true⟩
    let outcome : Outcome String Nat String :=
      ⟨.ok 7, [⟨.failure, "replace"⟩, ⟨.success, "replace"⟩], true⟩
    withTransaction u [aborted] last = some outcome ∧ ¬ AuditedFaithfully last outcome := by
  refine ⟨rfl, fun h ↦ ?_⟩
  have hcommitted := h.failure ⟨⟨.failure, "replace"⟩, by simp, rfl⟩
  cases hcommitted

end FgGas.Events
