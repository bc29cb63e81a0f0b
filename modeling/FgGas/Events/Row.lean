import Mathlib.Data.List.Basic

/-!
# Inbox and outbox rows

The columns of an inbox or outbox document that the pollers and the operators read and
write, the in-memory `Inbox` / `Outbox` objects a handler works on, and the passage
between the two: `fromDocument`, `markAsComplete`, `markAsFailed`, `toDocument`
(`src/events/models/inbox.js`, `src/events/models/outbox.js`). Instants are milliseconds.
Columns that only order or label a row (`eventTime`, `publicationDate`, `type`, `source`,
`target`, `messageId`, the stamps) are left out: no write below depends on them.
-/

namespace FgGas.Events

/-- `InboxStatus` / `OutboxStatus`. -/
inductive Status
  | published
  | processing
  | failed
  | completed
  | resubmitted
  | deadLetter
  | purged
  deriving DecidableEq, Repr

/-- The two collections; they share their repository updates and differ in one transition. -/
inductive Box
  | inbox
  | outbox
  deriving DecidableEq, Repr

/-- `config.inbox` or `config.outbox`, with `config.events.retentionDays`. -/
structure Config where
  maxRetries : Nat
  expiresMs : Nat
  retentionDays : Nat

/-- A `randomUUID` drawn for one poll. -/
abbrev Token := Nat

/-- A truthy value a handler threw: what it says about retrying, and its text. -/
structure Failure where
  retryable : Option Bool
  text : String
  deriving DecidableEq, Repr

/-- Why an attempt ended: a throw, or the claim-expiry sweep naming itself. -/
inductive Cause
  | thrown (error : Failure)
  | claimExpired
  deriving DecidableEq, Repr

/-- One entry of `attemptHistory`, and equally a `lastError`. -/
structure Attempt where
  at_ : Nat
  cause : Cause
  deriving DecidableEq, Repr

/-- `lastRedrive`: when, and by whom. -/
structure RedriveRecord where
  at_ : Nat
  operator : Option String
  deriving DecidableEq, Repr

/-- `lastPurge`. -/
structure PurgeRecord where
  at_ : Nat
  operator : Option String
  reasonCode : String
  note : Option String
  deriving DecidableEq, Repr

/-- `lastEdit`. -/
structure EditRecord where
  at_ : Nat
  operator : Option String
  note : String
  deriving DecidableEq, Repr

/-- `MAX_ATTEMPT_HISTORY` of `src/events/last-error.js`. -/
def maxAttemptHistory : Nat := 10

/-- JavaScript's `history.slice(-n)` for a positive `n`: the last `n` entries. -/
def lastEntries {α : Type} (n : Nat) (history : List α) : List α :=
  history.drop (history.length - n)

/-- `normaliseAttemptHistory`: the ten most recent entries, oldest first. -/
def normaliseAttemptHistory (history : List Attempt) : List Attempt :=
  lastEntries maxAttemptHistory history

/-- `appendAttempt`: a missing entry appends nothing. -/
def appendAttempt (history : List Attempt) : Option Attempt → List Attempt
  | none => normaliseAttemptHistory history
  | some entry => normaliseAttemptHistory (history ++ [entry])

/-- `pushAttemptUpdate`: `$push` of one entry with `$slice: -10`. -/
def pushAttemptUpdate (entry : Attempt) (history : List Attempt) : List Attempt :=
  lastEntries maxAttemptHistory (history ++ [entry])

/-- `toAttemptEntry` and `toLastError`: nothing for a falsy throw. -/
def toAttemptEntry (error : Option Failure) (now : Nat) : Option Attempt :=
  error.map fun e ↦ ⟨now, .thrown e⟩

/-- `claimExpiredAttempt` and `claimExpiredError`. -/
def claimExpiredAttempt (now : Nat) : Attempt := ⟨now, .claimExpired⟩

/-- `isRetryableFailure`: only an explicit `false` says that trying again cannot work. -/
def isRetryableFailure : Option Failure → Bool
  | some ⟨some false, _⟩ => false
  | _ => true

/-- `expiryFrom`: the deadline the TTL index reads, `MS_PER_DAY` a day. -/
def expiryFrom (date days : Nat) : Nat := date + days * 86400000

/-- A stored document. `none` is a null or missing column. -/
structure Row (P : Type) where
  event : P
  segregationRef : Option String
  status : Status
  claimedBy : Option Token
  claimedAt : Option Nat
  claimExpiresAt : Option Nat
  completionAttempts : Nat
  attemptHistory : List Attempt
  lastError : Option Attempt
  lastResubmissionDate : Option Nat
  completionDate : Option Nat
  retryable : Option Bool
  expireAt : Option Nat
  lastRedrive : Option RedriveRecord
  lastPurge : Option PurgeRecord
  lastEdit : Option EditRecord
  originalPayload : Option P
  payloadRevision : Option Nat
  deriving DecidableEq, Repr

/-- An `Inbox` or `Outbox` object: the columns `toDocument` writes. Its three claim fields
are always null, so they are not carried. -/
structure Entry (P : Type) where
  event : P
  segregationRef : Option String
  status : Status
  completionAttempts : Nat
  attemptHistory : List Attempt
  lastError : Option Attempt
  lastResubmissionDate : Option Nat
  completionDate : Option Nat
  retryable : Option Bool
  expireAt : Option Nat
  lastRedrive : Option RedriveRecord
  deriving DecidableEq, Repr

variable {P : Type}

/-- `fromDocument`: over-long histories are trimmed, and the inbox reads a missing
`retryable` as true. -/
def Entry.fromDocument (box : Box) (doc : Row P) : Entry P where
  event := doc.event
  segregationRef := doc.segregationRef
  status := doc.status
  completionAttempts := doc.completionAttempts
  attemptHistory := normaliseAttemptHistory doc.attemptHistory
  lastError := doc.lastError
  lastResubmissionDate := doc.lastResubmissionDate
  completionDate := doc.completionDate
  retryable := match box with
    | .inbox => some (doc.retryable.getD true)
    | .outbox => doc.retryable
  expireAt := doc.expireAt
  lastRedrive := doc.lastRedrive

/-- `markAsComplete`: one clock reading for the completion and its deadline. -/
def Entry.markAsComplete (cfg : Config) (now : Nat) (e : Entry P) : Entry P :=
  { e with
    status := .completed
    completionDate := some now
    expireAt := some (expiryFrom now cfg.retentionDays) }

/-- What both models' `markAsFailed` record of a failure, with the status it leaves. -/
def Entry.recordFailure (status : Status) (error : Option Failure) (now : Nat)
    (e : Entry P) : Entry P :=
  { e with
    status := status
    expireAt := none
    lastResubmissionDate := some now
    lastError := (toAttemptEntry error now).orElse fun _ ↦ e.lastError
    attemptHistory := appendAttempt e.attemptHistory (toAttemptEntry error now)
    completionAttempts := e.completionAttempts + 1 }

/-- `Inbox.markAsFailed`: a failure retrying cannot fix goes straight to the dead letters. -/
def Inbox.markAsFailed (error : Option Failure) (now : Nat) (e : Entry P) : Entry P :=
  { e.recordFailure (if isRetryableFailure error then .failed else .deadLetter) error now with
    retryable := some (isRetryableFailure error) }

/-- `Outbox.markAsFailed`: always up for another try. -/
def Outbox.markAsFailed (error : Option Failure) (now : Nat) (e : Entry P) : Entry P :=
  e.recordFailure .failed error now

/-- `markAsFailed` of the collection's model. -/
def Entry.markAsFailed : Box → Option Failure → Nat → Entry P → Entry P
  | .inbox => Inbox.markAsFailed
  | .outbox => Outbox.markAsFailed

/-- The `$set` of a whole `toDocument`, stamps apart: the claim is given up, and the
columns the model does not know stay as stored. The outbox model has no `retryable`. -/
def Entry.setOn (box : Box) (e : Entry P) (doc : Row P) : Row P :=
  { doc with
    event := e.event
    segregationRef := e.segregationRef
    status := e.status
    claimedBy := none
    claimedAt := none
    claimExpiresAt := none
    completionAttempts := e.completionAttempts
    attemptHistory := e.attemptHistory
    lastError := e.lastError
    lastResubmissionDate := e.lastResubmissionDate
    completionDate := e.completionDate
    retryable := match box with
      | .inbox => e.retryable
      | .outbox => doc.retryable
    expireAt := e.expireAt
    lastRedrive := e.lastRedrive }

/-- The document of a newly built model: the constructor's defaults. `segregationRef` is
`none` only on rows older than its schema. -/
def Row.inserted (box : Box) (event : P) (segregationRef : Option String) : Row P where
  event := event
  segregationRef := segregationRef
  status := .published
  claimedBy := none
  claimedAt := none
  claimExpiresAt := none
  completionAttempts := 0
  attemptHistory := []
  lastError := none
  lastResubmissionDate := none
  completionDate := none
  retryable := match box with
    | .inbox => some true
    | .outbox => none
  expireAt := none
  lastRedrive := none
  lastPurge := none
  lastEdit := none
  originalPayload := none
  payloadRevision := none

/-- The schema's `segregationRef: Joi.string().required()`: present and not empty. -/
def validSegregationRef (segregationRef : Option String) : Bool :=
  match segregationRef with
  | none => false
  | some ref => ref ≠ ""

/-- The two finished statuses: the row waits for its deletion. -/
def Status.finished : Status → Bool
  | .completed => true
  | .purged => true
  | _ => false

/-! ### What the passages leave alone -/

section
variable (box : Box) (cfg : Config) (error : Option Failure) (now : Nat) (e : Entry P) (doc : Row P)

@[simp] theorem status_markAsComplete : (e.markAsComplete cfg now).status = .completed := rfl

@[simp] theorem expireAt_markAsComplete :
    (e.markAsComplete cfg now).expireAt = some (expiryFrom now cfg.retentionDays) := rfl

/-- A recorded failure leaves a row to retry, or a dead letter. -/
theorem status_markAsFailed :
    (e.markAsFailed box error now).status = .failed ∨
      (e.markAsFailed box error now).status = .deadLetter := by
  cases box with
  | inbox =>
    by_cases h : isRetryableFailure error
    · exact .inl (by simp [Entry.markAsFailed, Inbox.markAsFailed, Entry.recordFailure, h])
    · exact .inr (by simp [Entry.markAsFailed, Inbox.markAsFailed, Entry.recordFailure, h])
  | outbox => exact .inl rfl

@[simp] theorem expireAt_markAsFailed : (e.markAsFailed box error now).expireAt = none := by
  cases box <;> rfl

@[simp] theorem status_setOn : (e.setOn box doc).status = e.status := rfl

@[simp] theorem claimedBy_setOn : (e.setOn box doc).claimedBy = none := rfl

@[simp] theorem claimExpiresAt_setOn : (e.setOn box doc).claimExpiresAt = none := rfl

@[simp] theorem expireAt_setOn : (e.setOn box doc).expireAt = e.expireAt := rfl

@[simp] theorem segregationRef_setOn : (e.setOn box doc).segregationRef = e.segregationRef := rfl

@[simp] theorem segregationRef_fromDocument :
    (Entry.fromDocument box doc).segregationRef = doc.segregationRef := rfl

@[simp] theorem segregationRef_markAsComplete :
    (e.markAsComplete cfg now).segregationRef = e.segregationRef := rfl

@[simp] theorem segregationRef_markAsFailed :
    (e.markAsFailed box error now).segregationRef = e.segregationRef := by
  cases box <;> rfl

end

end FgGas.Events
