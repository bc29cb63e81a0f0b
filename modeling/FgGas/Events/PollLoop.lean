import Mathlib.Data.List.MinMax
import Mathlib.Data.Prod.Lex
import FgGas.Events.Queue

/-!
# The poll loop over a whole collection

`poll` of `src/events/subscribers/inbox.subscriber.js` and `outbox.subscriber.js`, for one
poller that has the collection to itself: the rows of every segregation reference, the locks
of the poller's actor, and the clock. A poll finds the earliest claimable row whose reference
is not locked, takes the lock, claims a batch, hands it to the handlers one by one and runs
the sweeps. The sort key is `eventTime` in the inbox and `publicationDate` in the outbox. The
database answers every call; a handler may throw.
-/

namespace FgGas.Events

variable {P : Type}

/-- The rows in the order they were stored, the locks of the poller's actor by their
reference, the clock, and what `dispatchEvent` or `deliver` was called with, row by row. -/
structure Collection (P : Type) where
  rows : List (Queued P)
  locks : List (String × FifoLock)
  now : Nat
  dispatched : List (Nat × P)
  deriving DecidableEq, Repr

/-- The order in which the database finds rows with equal sort keys. -/
abbrev TieOrder (P : Type) := List (Queued P) → Nat → Nat

/-- A query with `sort: { eventTime: 1 }`: the earliest row that matches the filter, and where
it is stored. `order` tells rows with equal times apart. -/
def earliest (order : TieOrder P) (filter : Row P → Bool) (rows : List (Queued P)) :
    Option (Queued P × Nat) :=
  (rows.zipIdx.filter fun x ↦ filter x.1.row).argmin fun x ↦ toLex (x.1.eventTime, order rows x.2)

/-- `updateMany`: the rows the update's filter matches are written. -/
def updateMany (write : Row P → Option (Row P)) (rows : List (Queued P)) : List (Queued P) :=
  rows.map fun q ↦ { q with row := (write q.row).getD q.row }

/-- A write of the row stored at one place. -/
def writeRow (i : Nat) (write : Row P → Row P) (rows : List (Queued P)) : List (Queued P) :=
  rows.modify i fun q ↦ { q with row := write q.row }

/-- `getFifoLocks(actor)`, as `getNextAvailable` reads it. -/
def Collection.lockIds (c : Collection P) : List String :=
  (c.locks.filter fun l ↦ l.2.locked).map Prod.fst

/-- The lock document of a reference written, or inserted. -/
def putLock (segregationRef : String) (lock : FifoLock) :
    List (String × FifoLock) → List (String × FifoLock)
  | [] => [(segregationRef, lock)]
  | l :: locks =>
      if l.1 = segregationRef then (segregationRef, lock) :: locks
      else l :: putLock segregationRef lock locks

/-- `getNextAvailable`: the reference to process, and the rows with those that were found
without one dead-lettered. Each call of itself dead-letters a row, so `fuel` above their number
is enough. -/
def getNextAvailable (cfg : Config) (order : TieOrder P) (lockIds : List String) :
    Nat → List (Queued P) → Option String × List (Queued P)
  | 0, rows => (none, rows)
  | fuel + 1, rows =>
      match earliest order (findNextMessage cfg lockIds) rows with
      | none => (none, rows)
      | some (available, i) =>
          if validSegregationRef available.row.segregationRef then
            (available.row.segregationRef, rows)
          else getNextAvailable cfg order lockIds fuel (writeRow i deadLetterEvent rows)

/-- `claimEvents(claimedBy, segregationRef, numRecords)`: the rows claimed, each with where it
is stored, and the rows after. -/
def claimBatch (cfg : Config) (order : TieOrder P) (claimedBy : Token) (segregationRef : String)
    (now : Nat) : Nat → List (Queued P) → List (Nat × Row P) × List (Queued P)
  | 0, rows => ([], rows)
  | numRecords + 1, rows =>
      let claim := claimEvents cfg claimedBy segregationRef now
      match earliest order (fun r ↦ (claim r).isSome) rows with
      -- a null document is filtered out, and the loop goes on
      | none => claimBatch cfg order claimedBy segregationRef now numRecords rows
      | some (found, i) =>
          let doc := (claim found.row).getD found.row
          let (docs, rows) := claimBatch cfg order claimedBy segregationRef now numRecords
            (writeRow i (fun _ ↦ doc) rows)
          ((i, doc) :: docs, rows)

/-- The entry as its handler leaves it: complete, or failed with what it threw. -/
def Entry.handled (box : Box) (cfg : Config) (now : Nat) (e : Entry P) :
    Option (Option Failure) → Entry P
  | none => e.markAsComplete cfg now
  | some error => e.markAsFailed box error now

/-- `handleEvent` of the inbox, `sendEvent` of the outbox: the event goes to its handler, and
the fenced write follows. `thrown` is what the handlers threw, where they did. -/
def handleEvent (box : Box) (cfg : Config) (claimedBy : Token)
    (thrown : Nat → Option (Option Failure)) (c : Collection P) (doc : Nat × Row P) :
    Collection P :=
  let entry := Entry.fromDocument box doc.2
  let marked := entry.handled box cfg c.now (thrown doc.1)
  { c with
    rows := writeRow doc.1 (fun r ↦ (update box marked claimedBy r).getD r) c.rows
    dispatched := c.dispatched ++ [(doc.1, entry.event)] }

/-- `processWithLock`; `none` when `setFifoLock` throws. -/
def processWithLock (box : Box) (cfg : QueueConfig) (order : TieOrder P) (claimToken : Token)
    (thrown : Nat → Option (Option Failure)) (segregationRef : String) (c : Collection P) :
    Option (Collection P) :=
  (setFifoLock c.now (c.locks.lookup segregationRef)).map fun lock ↦
    let (docs, rows) := claimBatch cfg.toConfig order claimToken segregationRef c.now
      cfg.claimMaxRecords c.rows
    let handled := docs.foldl (handleEvent box cfg.toConfig claimToken thrown)
      { c with rows := rows, locks := putLock segregationRef lock c.locks }
    match freeFifoLock (handled.locks.lookup segregationRef) with
    | none => handled
    | some freed => { handled with locks := putLock segregationRef freed handled.locks }

/-- The sweeps that end a poll, in the order they run. -/
def Collection.sweeps (cfg : QueueConfig) (c : Collection P) : Collection P :=
  { c with
    rows := updateMany (processExpiredEvents c.now) (updateMany (updateDeadEvents cfg.toConfig)
      (updateMany updateFailedEvents (updateMany updateResubmittedEvents c.rows)))
    locks := c.locks.filterMap fun l ↦
      (cleanupStaleLocks cfg.lockTtlMs c.now (some l.2)).map fun lock ↦ (l.1, lock) }

/-- One pass of `poll`. -/
def poll (box : Box) (cfg : QueueConfig) (order : TieOrder P) (claimToken : Token)
    (thrown : Nat → Option (Option Failure)) (c : Collection P) : Collection P :=
  match getNextAvailable cfg.toConfig order c.lockIds (c.rows.length + 1) c.rows with
  | (none, rows) => ({ c with rows := rows } : Collection P).sweeps cfg
  | (some segregationRef, rows) =>
      match processWithLock box cfg order claimToken thrown segregationRef
          { c with rows := rows } with
      | some c => c.sweeps cfg
      -- the error is logged, and the sweeps wait for the next pass
      | none => { c with rows := rows }

/-- Time passes, or the poller polls and the handlers of its batch throw or not. -/
inductive Turn
  | wait (ms : Nat)
  | poll (thrown : Nat → Option (Option Failure))

/-- What a poller takes from outside. -/
structure Outside (P : Type) where
  order : TieOrder P
  randomUUID : Collection P → Token

/-- The collection after a turn. -/
def turn (box : Box) (cfg : QueueConfig) (out : Outside P) (c : Collection P) :
    Turn → Collection P
  | .wait ms => { c with now := c.now + ms }
  | .poll thrown => poll box cfg out.order (out.randomUUID c) thrown c

end FgGas.Events
