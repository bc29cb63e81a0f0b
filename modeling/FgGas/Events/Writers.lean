import FgGas.Events.Row

/-!
# The repository writes on one row

Every update of `src/events/repositories/inbox.repository.js` and `outbox.repository.js`,
seen from one row: the new row when the update's filter matches it, and `none` when the
row is left alone. The two repositories write the same filters and updates; they differ
in their settings (`Config`) and in the model behind `update` (`Box`).
The operators' updates are those of `event-redrive.js`, `event-purge.js` and `event-edit.js`.
-/

namespace FgGas.Events

variable {P : Type}

/-- The row without its claim: the three claim columns written null together. -/
def Row.released (r : Row P) (status : Status) : Row P :=
  { r with status := status, claimedBy := none, claimedAt := none, claimExpiresAt := none }

/-- `REDRIVABLE_STATUSES`. -/
def redrivable : Status → Bool
  | .deadLetter => true
  | .purged => true
  | _ => false

/-- The statuses the expiry and dead-letter sweeps exclude by `$nin`. -/
def sweepExcluded : Status → Bool
  | .deadLetter => true
  | .completed => true
  | .purged => true
  | _ => false

/-- The filter `findNextMessage` shares with `claimEvents`. -/
def claimable (cfg : Config) (r : Row P) : Bool :=
  r.status = .published && r.claimedBy = none && r.completionAttempts < cfg.maxRetries

/-- `findNextMessage(lockIds)`: whether the row is a candidate to be found. -/
def findNextMessage (cfg : Config) (lockIds : List String) (r : Row P) : Bool :=
  claimable cfg r && r.segregationRef.all (· ∉ lockIds)

/-- One `findOneAndUpdate` of `claimEvents(claimedBy, segregationRef)`. -/
def claimEvents (cfg : Config) (claimedBy : Token) (segregationRef : String) (now : Nat)
    (r : Row P) : Option (Row P) :=
  if claimable cfg r && r.segregationRef = some segregationRef then
    some { r with
      status := .processing
      claimedBy := some claimedBy
      claimedAt := some now
      claimExpiresAt := some (now + cfg.expiresMs) }
  else none

/-- `deadLetterEvent(event)`: found by `_id` alone. -/
def deadLetterEvent (r : Row P) : Row P := r.released .deadLetter

/-- `processExpiredEvents` of the inbox, `updateExpiredEvents` of the outbox. -/
def processExpiredEvents (now : Nat) (r : Row P) : Option (Row P) :=
  if r.claimExpiresAt.any (· < now) && !sweepExcluded r.status then
    some { r.released .failed with
      lastError := some (claimExpiredAttempt now)
      attemptHistory := pushAttemptUpdate (claimExpiredAttempt now) r.attemptHistory
      completionAttempts := r.completionAttempts + 1 }
  else none

/-- `updateDeadEvents`. -/
def updateDeadEvents (cfg : Config) (r : Row P) : Option (Row P) :=
  if cfg.maxRetries ≤ r.completionAttempts && !sweepExcluded r.status then
    some (r.released .deadLetter)
  else none

/-- `updateFailedEvents`. -/
def updateFailedEvents (r : Row P) : Option (Row P) :=
  if r.status = .failed then some (r.released .resubmitted) else none

/-- `updateResubmittedEvents`. -/
def updateResubmittedEvents (r : Row P) : Option (Row P) :=
  if r.status = .resubmitted then some (r.released .published) else none

/-- `update(event, claimedBy)`: fenced by the claim token. -/
def update (box : Box) (event : Entry P) (claimedBy : Token) (r : Row P) : Option (Row P) :=
  if r.claimedBy = some claimedBy then some (event.setOn box r) else none

/-- `payloadRevisionOf`: a row never edited reads as revision 0. -/
def payloadRevisionOf (r : Row P) : Nat := r.payloadRevision.getD 0

/-- `redriveById`, with the `$inc` of `payloadRevision`. -/
def redriveById (operator : Option String) (now : Nat) (r : Row P) : Option (Row P) :=
  if redrivable r.status then
    some { r.released .resubmitted with
      retryable := some true
      completionAttempts := 0
      attemptHistory := []
      lastRedrive := some ⟨now, operator⟩
      expireAt := none
      payloadRevision := some (payloadRevisionOf r + 1) }
  else none

/-- `purgeById`: the claim columns are not among those it writes. -/
def purgeById (cfg : Config) (operator : Option String) (reasonCode : String)
    (note : Option String) (now : Nat) (r : Row P) : Option (Row P) :=
  if r.status = .deadLetter then
    some { r with
      status := .purged
      lastPurge := some ⟨now, operator, reasonCode, note⟩
      expireAt := some (expiryFrom now cfg.retentionDays)
      payloadRevision := some (payloadRevisionOf r + 1) }
  else none

/-- An edit as submitted: the revision it was opened at, and the original to keep if the
use case gave one. -/
structure Edit (P : Type) where
  revision : Nat
  event : P
  original : Option P
  operator : Option String
  note : String
  deriving DecidableEq, Repr

/-- `editPayloadById`; `revisionFilter` reads null and missing as revision 0. -/
def editPayloadById (edit : Edit P) (now : Nat) (r : Row P) : Option (Row P) :=
  if redrivable r.status && payloadRevisionOf r = edit.revision then
    some { r with
      event := edit.event
      payloadRevision := some (edit.revision + 1)
      lastEdit := some ⟨now, edit.operator, edit.note⟩
      originalPayload := edit.original.orElse fun _ ↦ r.originalPayload }
  else none

/-! ### What a matching write did -/

section
variable {cfg : Config} {box : Box} {r r' : Row P} {now : Nat}

theorem claimEvents_eq_some {token : Token} {ref : String}
    (h : claimEvents cfg token ref now r = some r') :
    r.status = .published ∧ r.claimedBy = none ∧ r.completionAttempts < cfg.maxRetries ∧
      r.segregationRef = some ref ∧
      r' = { r with
        status := .processing
        claimedBy := some token
        claimedAt := some now
        claimExpiresAt := some (now + cfg.expiresMs) } := by
  unfold claimEvents claimable at h
  split at h
  · next hc =>
    simp only [Bool.and_eq_true, decide_eq_true_eq] at hc
    obtain ⟨⟨⟨hp, hb⟩, ha⟩, hr⟩ := hc
    exact ⟨hp, hb, ha, hr, (Option.some.inj h).symm⟩
  · cases h

theorem processExpiredEvents_eq_some (h : processExpiredEvents now r = some r') :
    sweepExcluded r.status = false ∧ (∃ t, r.claimExpiresAt = some t ∧ t < now) ∧
      r' = { r.released .failed with
        lastError := some (claimExpiredAttempt now)
        attemptHistory := pushAttemptUpdate (claimExpiredAttempt now) r.attemptHistory
        completionAttempts := r.completionAttempts + 1 } := by
  unfold processExpiredEvents at h
  split at h
  · next hc =>
    simp only [Bool.and_eq_true, Option.any_eq_true, decide_eq_true_eq,
      Bool.not_eq_true'] at hc
    exact ⟨hc.2, hc.1, (Option.some.inj h).symm⟩
  · cases h

theorem updateDeadEvents_eq_some (h : updateDeadEvents cfg r = some r') :
    sweepExcluded r.status = false ∧ cfg.maxRetries ≤ r.completionAttempts ∧
      r' = r.released .deadLetter := by
  unfold updateDeadEvents at h
  split at h
  · next hc =>
    simp only [Bool.and_eq_true, decide_eq_true_eq, Bool.not_eq_true'] at hc
    exact ⟨hc.2, hc.1, (Option.some.inj h).symm⟩
  · cases h

theorem updateFailedEvents_eq_some (h : updateFailedEvents r = some r') :
    r.status = .failed ∧ r' = r.released .resubmitted := by
  unfold updateFailedEvents at h
  split at h
  · next hc => exact ⟨hc, (Option.some.inj h).symm⟩
  · cases h

theorem updateResubmittedEvents_eq_some (h : updateResubmittedEvents r = some r') :
    r.status = .resubmitted ∧ r' = r.released .published := by
  unfold updateResubmittedEvents at h
  split at h
  · next hc => exact ⟨hc, (Option.some.inj h).symm⟩
  · cases h

theorem update_eq_none {e : Entry P} {token : Token} (h : r.claimedBy ≠ some token) :
    update box e token r = none := by
  simp only [update, h, if_false]

theorem redriveById_eq_some {operator : Option String}
    (h : redriveById operator now r = some r') :
    redrivable r.status = true ∧
      r' = { r.released .resubmitted with
        retryable := some true
        completionAttempts := 0
        attemptHistory := []
        lastRedrive := some ⟨now, operator⟩
        expireAt := none
        payloadRevision := some (payloadRevisionOf r + 1) } := by
  unfold redriveById at h
  split at h
  · next hc => exact ⟨hc, (Option.some.inj h).symm⟩
  · cases h

theorem purgeById_eq_some {operator : Option String} {reasonCode : String}
    {note : Option String} (h : purgeById cfg operator reasonCode note now r = some r') :
    r.status = .deadLetter ∧
      r' = { r with
        status := .purged
        lastPurge := some ⟨now, operator, reasonCode, note⟩
        expireAt := some (expiryFrom now cfg.retentionDays)
        payloadRevision := some (payloadRevisionOf r + 1) } := by
  unfold purgeById at h
  split at h
  · next hc => exact ⟨hc, (Option.some.inj h).symm⟩
  · cases h

theorem editPayloadById_eq_some {edit : Edit P} (h : editPayloadById edit now r = some r') :
    redrivable r.status = true ∧ payloadRevisionOf r = edit.revision ∧
      r' = { r with
        event := edit.event
        payloadRevision := some (edit.revision + 1)
        lastEdit := some ⟨now, edit.operator, edit.note⟩
        originalPayload := edit.original.orElse fun _ ↦ r.originalPayload } := by
  unfold editPayloadById at h
  split at h
  · next hc =>
    simp only [Bool.and_eq_true, decide_eq_true_eq] at hc
    exact ⟨hc.1, hc.2, (Option.some.inj h).symm⟩
  · cases h

end

end FgGas.Events
