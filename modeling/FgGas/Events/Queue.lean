import FgGas.Events.FifoLock
import FgGas.Events.Poller

/-!
# The queue of one ordering key

The inbox rows of one segregation reference, its lock, and any number of pollers
(`src/events/subscribers/inbox.subscriber.js`). A poller that is answered the reference takes the
lock, claims a batch one row at a time, earliest event first, and hands the batch to the handlers
one by one. Sweeps and operators write any row at any time. The order column of a row is that of
its event's time; `update` writes it back as it was.
-/

namespace FgGas.Events

variable {P : Type}

/-- `config.inbox` with the batch size, and the life of a lock. -/
structure QueueConfig extends Config where
  claimMaxRecords : Nat
  lockTtlMs : Nat

/-- A row and its `eventTime`. -/
structure Queued (P : Type) where
  eventTime : Nat
  row : Row P
  deriving DecidableEq, Repr

/-- A row as it was claimed: where it is stored, its `eventTime`, and how many rows were stored. -/
structure BatchItem (P : Type) where
  index : Nat
  eventTime : Nat
  stored : Nat
  doc : Row P
  deriving DecidableEq, Repr

/-- Where a poller is with this reference. `left` claims of the batch are still to be tried;
`caught` says that the write of a completion threw. -/
inductive Phase (P : Type)
  | idle
  | chosen
  | working (token : Token) (left : Nat) (batch : List (BatchItem P))
  | handling (token : Token) (current : BatchItem P) (entry : Entry P) (caught : Bool)
      (batch : List (BatchItem P))
  | releasing
  deriving DecidableEq, Repr

/-- The rows in the order they were stored, the lock, the pollers and the clock. -/
structure Queue (P : Type) where
  rows : List (Queued P)
  lock : Option FifoLock
  pollers : List (Phase P)
  now : Nat
  deriving DecidableEq, Repr

/-- The writes of sweeps and operators. -/
inductive RowWrite (P : Type)
  | expire
  | dead
  | failed
  | resubmitted
  | redrive (operator : Option String)
  | purge (operator : Option String) (reasonCode : String) (note : Option String)
  | edit (change : Edit P) (eventTime : Nat)
  deriving DecidableEq, Repr

/-- The steps. -/
inductive QueueLabel (P : Type)
  | tick (ms : Nat)
  | insert (event : P) (eventTime : Nat)
  | available (w : Nat) (lockIds : List String)
  | setFifoLock (w : Nat) (token : Token)
  | claim (w i : Nat)
  | claimNothing (w : Nat)
  | claimThrows (w : Nat)
  | dispatch (w : Nat)
  | complete (w : Nat) (reply : Reply)
  | fail (w : Nat) (error : Option Failure) (reply : Reply)
  | freeFifoLock (w : Nat)
  | crash (w : Nat)
  | write (i : Nat) (x : RowWrite P)
  | cleanupStaleLocks
  deriving DecidableEq, Repr

/-- The row after a write whose filter matches it. -/
def RowWrite.apply (cfg : Config) (now : Nat) (q : Queued P) : RowWrite P → Option (Queued P)
  | .expire => (processExpiredEvents now q.row).map fun r ↦ { q with row := r }
  | .dead => (updateDeadEvents cfg q.row).map fun r ↦ { q with row := r }
  | .failed => (updateFailedEvents q.row).map fun r ↦ { q with row := r }
  | .resubmitted => (updateResubmittedEvents q.row).map fun r ↦ { q with row := r }
  | .redrive operator => (redriveById operator now q.row).map fun r ↦ { q with row := r }
  | .purge operator reasonCode note =>
      (purgeById cfg operator reasonCode note now q.row).map fun r ↦ { q with row := r }
  | .edit change eventTime =>
      (editPayloadById change now q.row).map fun r ↦ { q with row := r, eventTime := eventTime }

/-- `update(inboxEvent, claimedBy)` of a claimed row. -/
def Queue.update (s : Queue P) (i : Nat) (entry : Entry P) (token : Token) : List (Queued P) :=
  s.rows.modify i fun q ↦ { q with row := (Events.update .inbox entry token q.row).getD q.row }

/-- The queue with a poller elsewhere. -/
def Queue.setPhase (s : Queue P) (w : Nat) (phase : Phase P) : Queue P :=
  { s with pollers := s.pollers.set w phase }

/-- One step. -/
def queueStep (cfg : QueueConfig) (ref : String) (s : Queue P) :
    QueueLabel P → Option (Queue P)
  | .tick ms => some { s with now := s.now + ms }
  | .insert event eventTime =>
      some { s with rows := s.rows ++ [⟨eventTime, Row.inserted .inbox event (some ref)⟩] }
  -- `getNextAvailable`, which read the locks some time before
  | .available w lockIds =>
      match s.pollers[w]? with
      | some .idle =>
          if s.rows.any fun q ↦ findNextMessage cfg.toConfig lockIds q.row then
            some (s.setPhase w .chosen)
          else none
      | _ => none
  | .setFifoLock w token =>
      match s.pollers[w]? with
      | some .chosen =>
          match setFifoLock s.now s.lock with
          | some lock =>
              some { s.setPhase w (.working token cfg.claimMaxRecords []) with lock := some lock }
          | none => some (s.setPhase w .idle)
      | _ => none
  -- one `findOneAndUpdate`, sorted by `eventTime`
  | .claim w i =>
      match s.pollers[w]?, s.rows[i]? with
      | some (.working token (left + 1) batch), some q =>
          if ∀ p ∈ s.rows, claimable cfg.toConfig p.row = true → q.eventTime ≤ p.eventTime then
            (claimEvents cfg.toConfig token ref s.now q.row).map fun r ↦
              { s with
                rows := s.rows.set i { q with row := r }
                pollers := s.pollers.set w
                  (.working token left (batch ++ [⟨i, q.eventTime, s.rows.length, r⟩])) }
          else none
      | _, _ => none
  | .claimNothing w =>
      match s.pollers[w]? with
      | some (.working token (left + 1) batch) =>
          if s.rows.any fun q ↦ claimable cfg.toConfig q.row then none
          else some (s.setPhase w (.working token left batch))
      | _ => none
  | .claimThrows w =>
      match s.pollers[w]? with
      | some (.working _ (_ + 1) _) => some (s.setPhase w .releasing)
      | _ => none
  | .dispatch w =>
      match s.pollers[w]? with
      | some (.working token 0 (c :: batch)) =>
          some (s.setPhase w
            (.handling token c (Entry.fromDocument .inbox c.doc) false batch))
      | _ => none
  | .complete w reply =>
      match s.pollers[w]? with
      | some (.handling token c entry false batch) =>
          let marked := entry.markAsComplete cfg.toConfig s.now
          match reply with
          | .answered => some
              { s.setPhase w (.working token 0 batch) with
                rows := s.update c.index marked token }
          -- the throw leads into the `catch`, with the entry as already marked
          | .unanswered => some
              { s.setPhase w (.handling token c marked true batch) with
                rows := s.update c.index marked token }
          | .refused => some (s.setPhase w (.handling token c marked true batch))
      | _ => none
  -- a throw from the `catch` ends the batch
  | .fail w error reply =>
      match s.pollers[w]? with
      | some (.handling token c entry _ batch) =>
          let marked := entry.markAsFailed .inbox error s.now
          match reply with
          | .answered => some
              { s.setPhase w (.working token 0 batch) with
                rows := s.update c.index marked token }
          | .unanswered => some
              { s.setPhase w .releasing with rows := s.update c.index marked token }
          | .refused => some (s.setPhase w .releasing)
      | _ => none
  | .freeFifoLock w =>
      match s.pollers[w]? with
      | some (.working _ 0 []) => some { s.setPhase w .idle with lock := freeFifoLock s.lock }
      | some .releasing => some { s.setPhase w .idle with lock := freeFifoLock s.lock }
      | _ => none
  | .crash w => (s.pollers[w]?).map fun _ ↦ s.setPhase w .idle
  | .write i x =>
      (s.rows[i]?).bind fun q ↦
        (x.apply cfg.toConfig s.now q).map fun q' ↦ { s with rows := s.rows.set i q' }
  | .cleanupStaleLocks =>
      some { s with lock := cleanupStaleLocks cfg.lockTtlMs s.now s.lock }

/-- Nothing stored, every poller idle. -/
def Queue.start (pollers now : Nat) : Queue P := ⟨[], none, List.replicate pollers .idle, now⟩

end FgGas.Events
