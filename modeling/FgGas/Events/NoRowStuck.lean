import Mathlib.Algebra.Order.BigOperators.Group.List
import Mathlib.Algebra.Order.Group.Nat
import FgGas.Events.Consistency
import FgGas.Events.PollPass

/-!
# No row is stuck

Between them the filters of the poll loop cover every row that is not finished: a stale claim
expires, a failed row is resubmitted, a resubmitted one published, a published one claimed,
and at the attempt limit each of them is dead-lettered. A published row waits for the rows
ahead of it; every pass that finds one closes it, so the number of open rows measures the wait.
Conversely a poller's step that records no failure only ever moves a row up in `rank`.
-/

namespace FgGas.Events

open Machine

variable {P : Type}

/-- The event of the row at a place has been dispatched, or the row is a dead letter. -/
def HadTurn (c : Collection P) (i : Nat) (event : P) : Prop :=
  (i, event) ∈ c.dispatched ∨ ∃ r, rowAt c.rows i = some r ∧ r.status = .deadLetter

/-- A sequence of turns dispatches the event of the row at a place, or dead-letters the row. -/
def HasTurn (box : Box) (cfg : QueueConfig) (out : Outside P) (c : Collection P) (i : Nat)
    (event : P) : Prop :=
  ∃ ts : List Turn, HadTurn (ts.foldl (turn box cfg out) c) i event

/-! ### The sweeps take a row to its turn -/

/-- The row is unclaimed, with a status and an event. -/
structure Waiting (status : Status) (event : P) (r : Row P) : Prop where
  status_eq : r.status = status
  event_eq : r.event = event
  claimedBy : r.claimedBy = none
  claimExpiresAt : r.claimExpiresAt = none

section
variable {cfg : Config} {now : Nat} {event : P} {r : Row P}

/-- A published row is at the attempt limit, or may be claimed. -/
theorem Waiting.swept_published (cfg : Config) (now : Nat) (h : Waiting .published event r) :
    (swept cfg now r).status = .deadLetter ∨ swept cfg now r = r ∧ claimable cfg r = true := by
  by_cases hcap : cfg.maxRetries ≤ r.completionAttempts
  · refine .inl ?_
    simp [swept, updateResubmittedEvents, updateFailedEvents, updateDeadEvents,
      processExpiredEvents, h.status_eq, hcap, sweepExcluded, Row.released]
  · refine .inr ⟨?_, by simp [claimable, h.status_eq, h.claimedBy, Nat.lt_of_not_le hcap]⟩
    simp [swept, updateResubmittedEvents, updateFailedEvents, updateDeadEvents,
      processExpiredEvents, h.status_eq, hcap, h.claimExpiresAt]

/-- A resubmitted row is at the attempt limit, or published. -/
theorem Waiting.swept_resubmitted (h : Waiting .resubmitted event r) :
    (swept cfg now r).status = .deadLetter ∨ Waiting .published event (swept cfg now r) := by
  by_cases hcap : cfg.maxRetries ≤ r.completionAttempts
  · refine .inl ?_
    simp [swept, updateResubmittedEvents, updateFailedEvents, updateDeadEvents,
      processExpiredEvents, h.status_eq, hcap, sweepExcluded, Row.released]
  · have hrow : swept cfg now r = r.released .published := by
      simp [swept, updateResubmittedEvents, updateFailedEvents, updateDeadEvents,
        processExpiredEvents, h.status_eq, hcap, Row.released]
    exact .inr (hrow ▸ ⟨rfl, h.event_eq, rfl, rfl⟩)

/-- A failed row is at the attempt limit, or resubmitted. -/
theorem Waiting.swept_failed (h : Waiting .failed event r) :
    (swept cfg now r).status = .deadLetter ∨ Waiting .resubmitted event (swept cfg now r) := by
  by_cases hcap : cfg.maxRetries ≤ r.completionAttempts
  · refine .inl ?_
    simp [swept, updateResubmittedEvents, updateFailedEvents, updateDeadEvents,
      processExpiredEvents, h.status_eq, hcap, sweepExcluded, Row.released]
  · have hrow : swept cfg now r = r.released .resubmitted := by
      simp [swept, updateResubmittedEvents, updateFailedEvents, updateDeadEvents,
        processExpiredEvents, h.status_eq, hcap, Row.released]
    exact .inr (hrow ▸ ⟨rfl, h.event_eq, rfl, rfl⟩)

/-- A claimed row whose claim has expired is at the attempt limit, or failed. -/
theorem swept_processing (hstatus : r.status = .processing) (hevent : r.event = event) {t : Nat}
    (hexpires : r.claimExpiresAt = some t) (hpast : t < now) :
    (swept cfg now r).status = .deadLetter ∨ Waiting .failed event (swept cfg now r) := by
  by_cases hcap : cfg.maxRetries ≤ r.completionAttempts
  · refine .inl ?_
    simp [swept, updateResubmittedEvents, updateFailedEvents, updateDeadEvents,
      processExpiredEvents, hstatus, hcap, sweepExcluded, Row.released]
  · have hresubmitted : updateResubmittedEvents r = none := by
      simp [updateResubmittedEvents, hstatus]
    have hfailed : updateFailedEvents r = none := by simp [updateFailedEvents, hstatus]
    have hdead : updateDeadEvents cfg r = none := by simp [updateDeadEvents, hcap]
    refine .inr ?_
    simp only [swept, hresubmitted, hfailed, hdead, Option.getD_none]
    simp only [processExpiredEvents, hexpires, Option.any_some, hpast, hstatus, sweepExcluded,
      decide_true, Bool.not_false, Bool.and_self, if_true, Option.getD_some]
    exact ⟨rfl, hevent, rfl, rfl⟩

end

/-! ### Every open row has its turn -/

/-- The locks that are set have outlived their time. -/
def LocksStale (cfg : QueueConfig) (c : Collection P) : Prop :=
  ∀ l ∈ c.locks, l.2.locked = true → ∃ t, l.2.lockedAt = some t ∧ t + cfg.lockTtlMs < c.now

/-- The document is one that the workers of its reference and the cleanup left. -/
def LockReached (ttlMs : Nat) (lock : FifoLock) : Prop :=
  ∃ (start : Nat) (ls : List (LockLabel Nat)) (s : Locking Nat),
    Run (lockStep ttlMs) anyStep (Locking.start start) ls s ∧ s.doc = some lock

/-- A lock that is set says since when. -/
theorem LockReached.lockedAt {ttlMs : Nat} {lock : FifoLock} (h : LockReached ttlMs lock)
    (hlocked : lock.locked = true) : ∃ t, lock.lockedAt = some t := by
  obtain ⟨start, ls, s, hrun, hdoc⟩ := h
  have hinv : ∀ doc ∈ s.doc, doc.locked = true → ∃ t, doc.lockedAt = some t := by
    refine hrun.invariant (fun s ↦ ∀ doc ∈ s.doc, doc.locked = true →
      ∃ t, doc.lockedAt = some t) (fun _ h ↦ by cases h) ?_
    intro s l s' hs _ hstep
    cases l with
    | tick ms =>
      cases hstep
      exact hs
    | setFifoLock worker =>
      simp only [lockStep] at hstep
      split at hstep
      · cases hstep
      · obtain ⟨doc, hset, rfl⟩ := Option.map_eq_some_iff.mp hstep
        rintro _ ⟨⟩ _
        unfold setFifoLock at hset
        split at hset
        · cases hset
        · obtain rfl := Option.some.inj hset
          exact ⟨_, rfl⟩
    | freeFifoLock worker =>
      simp only [lockStep] at hstep
      split at hstep
      · obtain rfl := Option.some.inj hstep
        rintro doc hfreed hset
        obtain ⟨_, _, rfl⟩ := Option.map_eq_some_iff.mp hfreed
        cases hset
      · cases hstep
    | cleanupStaleLocks =>
      obtain rfl := Option.some.inj hstep
      rintro doc hcleaned hset
      obtain ⟨before, hbefore, rfl⟩ := Option.map_eq_some_iff.mp hcleaned
      split at hset
      · cases hset
      · next hkept =>
        rw [if_neg hkept]
        exact hs before hbefore hset
    | crash worker =>
      simp only [lockStep] at hstep
      split at hstep
      · obtain rfl := Option.some.inj hstep
        exact hs
      · cases hstep
  exact hinv lock hdoc hlocked

section
variable {box : Box} {cfg : QueueConfig} {out : Outside P} {c : Collection P} {i : Nat}
  {event : P} {r : Row P}

theorem HasTurn.of_turn (t : Turn) (h : HasTurn box cfg out (turn box cfg out c t) i event) :
    HasTurn box cfg out c i event := by
  obtain ⟨ts, hts⟩ := h
  exact ⟨t :: ts, hts⟩

theorem locksStale_of_lockIds (h : c.lockIds = []) : LocksStale cfg c := by
  intro l hl hlocked
  have hmem : l.1 ∈ c.lockIds :=
    List.mem_map.mpr ⟨l, List.mem_filter.mpr ⟨hl, hlocked⟩, rfl⟩
  rw [h] at hmem
  exact absurd hmem List.not_mem_nil

/-- A pass gives a row its turn or sweeps it. -/
theorem poll_turn_or_swept (box : Box) (cfg : QueueConfig) (order : TieOrder P) (token : Token)
    (thrown : Nat → Option (Option Failure)) (hr : rowAt c.rows i = some r) :
    HadTurn (poll box cfg order token thrown c) i r.event ∨
      rowAt (poll box cfg order token thrown c).rows i = some (swept cfg.toConfig c.now r) := by
  rcases poll_row box cfg order token thrown c i with
    hrow | ⟨r', _, _, _, hrow⟩ | ⟨r', _, _, hr', _, _, hlog, _⟩
  · exact .inr (hrow.trans (congrArg (Option.map _) hr))
  · exact .inl (.inr ⟨_, hrow, rfl⟩)
  · obtain rfl := Option.some.inj (hr.symm.trans hr')
    exact .inl (.inl hlog)

/-- One poll gives a row its turn, or takes it where the sweeps take it, the locks all free. -/
theorem HasTurn.of_poll (hr : rowAt c.rows i = some r) (hevent : r.event = event)
    (hstale : LocksStale cfg c)
    (hnext : (swept cfg.toConfig c.now r).status = .deadLetter ∨
      ∀ c' : Collection P, rowAt c'.rows i = some (swept cfg.toConfig c.now r) →
        c'.lockIds = [] → HasTurn box cfg out c' i event) :
    HasTurn box cfg out c i event := by
  refine .of_turn (.poll fun _ ↦ none) ?_
  rcases poll_turn_or_swept box cfg out.order (out.randomUUID c) (fun _ ↦ none) hr with hturn | hrow
  · exact ⟨[], hevent ▸ hturn⟩
  · rcases hnext with hdead | hnext
    · exact ⟨[], .inr ⟨_, hrow, hdead⟩⟩
    · exact hnext _ hrow (poll_lockIds hstale)

/-- A row that is neither finished nor given up on. -/
def isOpen (r : Row P) : Bool := !sweepExcluded r.status

theorem isOpen_of_claimable {cfg : Config} (h : claimable cfg r = true) : isOpen r = true := by
  simp only [claimable, Bool.and_eq_true, decide_eq_true_eq] at h
  rw [isOpen, h.1.1]
  rfl

/-- A row whose handler does not throw is closed. -/
theorem isOpen_swept_written {cfg : Config} {now : Nat} {doc : Row P} :
    isOpen (swept cfg now (written box cfg now doc none)) = false := by
  rw [swept_of_sweepExcluded rfl]
  rfl

/-- The rows still open after a pass whose handlers do not throw were open before it. -/
theorem places_isOpen_poll (order : TieOrder P) (token : Token) :
    places isOpen (poll box cfg order token (fun _ ↦ none) c).rows ⊆ places isOpen c.rows := by
  intro k hk
  obtain ⟨r', hr', hopen⟩ := mem_places.mp hk
  rcases poll_row box cfg order token (fun _ ↦ none) c k with
    hrow | ⟨_, _, _, _, hrow⟩ | ⟨_, _, _, _, _, _, _, hrow⟩
  · obtain ⟨r, hr, hswept⟩ := Option.map_eq_some_iff.mp (hrow.symm.trans hr')
    refine mem_places.mpr ⟨r, hr, ?_⟩
    by_contra hclosed
    have hexcluded : sweepExcluded r.status = true := by simpa [isOpen] using hclosed
    rw [swept_of_sweepExcluded hexcluded] at hswept
    exact hclosed (hswept ▸ hopen)
  · obtain rfl := Option.some.inj (hrow.symm.trans hr')
    cases hopen
  · obtain rfl := Option.some.inj (hrow.symm.trans hr')
    rw [isOpen_swept_written] at hopen
    cases hopen

/-- A pass that finds something to do leaves fewer rows open. -/
theorem card_isOpen_poll (hrecords : 0 < cfg.claimMaxRecords) (hfree : c.lockIds = [])
    (hr : rowAt c.rows i = some r) (hclaim : claimable cfg.toConfig r = true)
    (box : Box) (order : TieOrder P) (token : Token) :
    (places isOpen (poll box cfg order token (fun _ ↦ none) c).rows).card <
      (places isOpen c.rows).card := by
  obtain ⟨j, r', hr', hclaim', htaken⟩ := poll_takes box order token (fun _ ↦ none)
    hrecords hfree hr hclaim
  refine card_places_lt (i := j) (places_isOpen_poll order token)
    (mem_places.mpr ⟨r', hr', isOpen_of_claimable hclaim'⟩) ?_
  intro hmem
  obtain ⟨r'', hr'', hopen⟩ := mem_places.mp hmem
  rcases htaken with hrow | ⟨_, hrow⟩
  · obtain rfl := Option.some.inj (hrow.symm.trans hr'')
    cases hopen
  · obtain rfl := Option.some.inj (hrow.symm.trans hr'')
    rw [isOpen_swept_written] at hopen
    cases hopen

/-- A published row waits for at most as many polls as there are open rows. -/
theorem hasTurn_published (hrecords : 0 < cfg.claimMaxRecords) (hfree : c.lockIds = [])
    (hr : rowAt c.rows i = some r) (hwaiting : Waiting .published event r) :
    HasTurn box cfg out c i event := by
  -- induction on the number of open rows
  generalize hn : (places isOpen c.rows).card = n
  induction n using Nat.strong_induction_on generalizing c with
  | _ n ih =>
    refine .of_turn (.poll fun _ ↦ none) ?_
    rcases poll_turn_or_swept box cfg out.order (out.randomUUID c) (fun _ ↦ none) hr with
      hturn | hrow
    · exact ⟨[], hwaiting.event_eq ▸ hturn⟩
    · rcases hwaiting.swept_published cfg.toConfig c.now with
        hdead | ⟨hsame, hclaim⟩
      · exact ⟨[], .inr ⟨_, hrow, hdead⟩⟩
      · -- the pass took other rows
        rw [hsame] at hrow
        have hless := card_isOpen_poll hrecords hfree hr hclaim box out.order
          (out.randomUUID c)
        exact ih _ (hn ▸ hless) (poll_lockIds (locksStale_of_lockIds hfree)) hrow rfl

theorem hasTurn_resubmitted (hrecords : 0 < cfg.claimMaxRecords) (hstale : LocksStale cfg c)
    (hr : rowAt c.rows i = some r) (hwaiting : Waiting .resubmitted event r) :
    HasTurn box cfg out c i event :=
  .of_poll hr hwaiting.event_eq hstale <| hwaiting.swept_resubmitted.imp_right
    fun hpublished _ hr' hfree ↦ hasTurn_published hrecords hfree hr' hpublished

theorem hasTurn_failed (hrecords : 0 < cfg.claimMaxRecords) (hstale : LocksStale cfg c)
    (hr : rowAt c.rows i = some r) (hwaiting : Waiting .failed event r) :
    HasTurn box cfg out c i event :=
  .of_poll hr hwaiting.event_eq hstale <| hwaiting.swept_failed.imp_right
    fun hresubmitted _ hr' hfree ↦
      hasTurn_resubmitted hrecords (locksStale_of_lockIds hfree) hr' hresubmitted

/-- A row whose claim, if it has one, has expired has its turn, once the locks are stale. -/
theorem hasTurn_of_stale {s : Life P} {ref : Option String} (hrecords : 0 < cfg.claimMaxRecords)
    (hs : Consistent ref s) (hopen : sweepExcluded s.row.status = false)
    (hr : rowAt c.rows i = some s.row) (hstale : LocksStale cfg c)
    (hexpired : ∀ t ∈ s.row.claimExpiresAt, t < c.now) :
    HasTurn box cfg out c i s.row.event := by
  have hwaiting : ∀ status, s.row.status = status → status ≠ .processing →
      Waiting status s.row.event s.row := by
    rintro status rfl hne
    exact ⟨rfl, rfl, (hs.atRest hne).claimedBy, (hs.atRest hne).claimExpiresAt⟩
  cases hstatus : s.row.status with
  | published =>
    refine .of_poll hr rfl hstale <|
      ((hwaiting _ hstatus (by simp)).swept_published _ _).imp_right fun hsame c' hr' hfree ↦ ?_
    rw [hsame.1] at hr'
    exact hasTurn_published hrecords hfree hr' (hwaiting _ hstatus (by simp))
  | processing =>
    obtain ⟨t, ht⟩ := Option.ne_none_iff_exists'.mp (hs.claimed hstatus).claimExpiresAt
    exact .of_poll hr rfl hstale <| (swept_processing hstatus rfl ht (hexpired t ht)).imp_right
      fun hfailed c' hr' hfree ↦
        hasTurn_failed hrecords (locksStale_of_lockIds hfree) hr' hfailed
  | failed => exact hasTurn_failed hrecords hstale hr (hwaiting _ hstatus (by simp))
  | resubmitted => exact hasTurn_resubmitted hrecords hstale hr (hwaiting _ hstatus (by simp))
  | completed => simp [hstatus, sweepExcluded] at hopen
  | deadLetter => simp [hstatus, sweepExcluded] at hopen
  | purged => simp [hstatus, sweepExcluded] at hopen

end

/-! ### No idle cycle -/

/-- Where a status stands on the way that the pollers take a row. -/
def rank : Status → Nat
  | .failed => 0
  | .resubmitted => 1
  | .published => 2
  | .processing => 3
  | .completed => 4
  | .purged => 4
  | .deadLetter => 5

/-- The step records a failure on the row. -/
def recordsFailure (s : Life P) : Label P → Bool
  | .expire _ => true
  | .fail i _ _ reply =>
      reply ≠ .refused && s.handlers[i]?.any fun k ↦ s.row.claimedBy = some k.token
  | _ => false

/-- A poller's step that records no failure. -/
def idleStep (s : Life P) (l : Label P) : Prop := l.byPoller = true ∧ recordsFailure s l = false

/-- Such a step leaves the row, moves it up in rank, or dead-letters it once more. -/
theorem idleStep_rank {box : Box} {cfg : Config} {ref : Option String} {s s' : Life P}
    {l : Label P} (hs : Consistent ref s) (hidle : idleStep s l)
    (h : step box cfg s l = some s') :
    s'.row = s.row ∨ rank s.row.status < rank s'.row.status ∨
      (s.row.status = .deadLetter ∧ s'.row.status = .deadLetter) := by
  obtain ⟨hpoller, hquiet⟩ := hidle
  cases l with
  | claim token key now =>
    obtain ⟨_, r, hr, rfl⟩ := claim_step h
    obtain ⟨hp, _, _, _, rfl⟩ := claimEvents_eq_some hr
    exact .inr (.inl (by simp [hp, rank]))
  | complete i now reply =>
    obtain ⟨k, hk⟩ := complete_step h
    rcases hk.row with he | he
    · exact .inl he
    · rcases afterUpdate_cases box s (k.entry.markAsComplete cfg now) k.token with
        ⟨hown, ha⟩ | ⟨_, ha⟩
      · have hstatus := (hs.claimed_of_owner hown).status
        exact .inr (.inl (by simp [he, ha, hstatus, rank]))
      · exact .inl (he.trans ha)
  | fail i error now reply =>
    obtain ⟨k, hk, rfl⟩ := Option.map_eq_some_iff.mp h
    refine .inl ?_
    have hlost : reply ≠ .refused → s.row.claimedBy ≠ some k.token := by
      intro hreply hown
      simp [recordsFailure, hk, hreply, hown] at hquiet
    have hkept : reply ≠ .refused →
        s.afterUpdate box (k.entry.markAsFailed box error now) k.token = s.row := by
      intro hreply
      rw [Life.afterUpdate, update_eq_none (hlost hreply), Option.getD_none]
    cases reply with
    | answered => exact hkept (by simp)
    | unanswered => exact hkept (by simp)
    | refused => rfl
  | crash i =>
    obtain ⟨_, _, rfl⟩ := Option.map_eq_some_iff.mp h
    exact .inl rfl
  | expire now => cases hquiet
  | dead =>
    obtain ⟨r, hr, rfl⟩ := Option.map_eq_some_iff.mp h
    obtain ⟨hx, _, rfl⟩ := updateDeadEvents_eq_some hr
    refine .inr (.inl ?_)
    cases hstatus : s.row.status <;> simp_all [Life.swept, Row.released, rank, sweepExcluded]
  | failed =>
    obtain ⟨r, hr, rfl⟩ := Option.map_eq_some_iff.mp h
    obtain ⟨hf, rfl⟩ := updateFailedEvents_eq_some hr
    exact .inr (.inl (by simp [hf, Row.released, rank]))
  | resubmitted =>
    obtain ⟨r, hr, rfl⟩ := Option.map_eq_some_iff.mp h
    obtain ⟨hf, rfl⟩ := updateResubmittedEvents_eq_some hr
    exact .inr (.inl (by simp [hf, Row.released, rank]))
  | redrive operator now => cases hpoller
  | purge operator reasonCode note now => cases hpoller
  | edit edit now => cases hpoller
  | find lockIds =>
    obtain ⟨_, rfl⟩ := find_step h
    exact .inl rfl
  | deadLetter =>
    obtain ⟨_, rfl⟩ := deadLetter_step h
    by_cases hstatus : s.row.status = .deadLetter
    · exact .inr (.inr ⟨hstatus, rfl⟩)
    · refine .inr (.inl ?_)
      cases hs : s.row.status <;> simp_all [deadLetterEvent, Row.released, rank]

/-- Along such steps the rank of an open row never falls, and while it stays so does the row. -/
theorem idle_run_rank {box : Box} {cfg : Config} {ref : Option String} {s t : Life P}
    {ls : List (Label P)} (hs : Consistent ref s) (h : Run (step box cfg) idleStep s ls t) :
    Consistent ref t ∧ rank s.row.status ≤ rank t.row.status ∧
      (rank t.row.status = rank s.row.status → s.row.status ≠ .deadLetter → t.row = s.row) := by
  refine h.invariant (fun t ↦ Consistent ref t ∧ rank s.row.status ≤ rank t.row.status ∧
    (rank t.row.status = rank s.row.status → s.row.status ≠ .deadLetter → t.row = s.row))
    ⟨hs, Nat.le_refl _, fun _ _ ↦ rfl⟩ ?_
  rintro t l t' ⟨ht, hle, hsame⟩ hidle hstep
  refine ⟨step_consistent ht hstep, ?_⟩
  rcases idleStep_rank ht hidle hstep with hrow | hup | ⟨hdead, hdead'⟩
  · rw [hrow]
    exact ⟨hle, hsame⟩
  · exact ⟨by omega, fun heq ↦ by omega⟩
  · rw [hdead']
    rw [hdead] at hle hsame
    refine ⟨hle, fun heq hne ↦ absurd ?_ hne⟩
    rw [← hsame heq hne, hdead]

/-- In every state that pollers, sweeps, crashing handlers and operators can bring a row to,
and whatever the other rows and the locks of the poller are: a row that is neither finished nor
a dead letter has its event dispatched or is dead-lettered after finitely many turns of a
poller, and any steps of pollers that record no failure and bring it back to its status leave
it as it was throughout. -/
theorem no_row_stuck (box : Box) (cfg : QueueConfig) (hrecords : 0 < cfg.claimMaxRecords)
    (out : Outside P) (event : P) (ref : Option String) {ls : List (Label P)} {s : Life P}
    (h : Run (step box cfg.toConfig) anyStep (Life.inserted box event ref) ls s)
    (hopen : sweepExcluded s.row.status = false) :
    (∀ (rows : List (Queued P)) (locks : List (String × FifoLock)) (now i : Nat),
      rowAt rows i = some s.row → (∀ l ∈ locks, LockReached cfg.lockTtlMs l.2) →
      HasTurn box cfg out ⟨rows, locks, now, []⟩ i s.row.event) ∧
    (∀ (before after : List (Label P)) (t s' : Life P),
      Run (step box cfg.toConfig) idleStep s before t →
      Run (step box cfg.toConfig) idleStep t after s' →
      s'.row.status = s.row.status → t.row = s.row) := by
  have hs := run_consistent h
  refine ⟨?_, ?_⟩
  · intro rows locks now i hr hreached
    -- long enough for every lock and for the claim
    let ms := (locks.map fun l ↦ l.2.lockedAt.getD 0 + cfg.lockTtlMs + 1).sum +
      (s.row.claimExpiresAt.getD 0 + 1)
    refine .of_turn (.wait ms) (hasTurn_of_stale hrecords hs hopen hr ?_ ?_)
    · intro l hl hlocked
      obtain ⟨t, ht⟩ := (hreached l hl).lockedAt hlocked
      refine ⟨t, ht, ?_⟩
      have hle : l.2.lockedAt.getD 0 + cfg.lockTtlMs + 1 ≤
          (locks.map fun l ↦ l.2.lockedAt.getD 0 + cfg.lockTtlMs + 1).sum :=
        List.le_sum_of_mem (List.mem_map_of_mem hl)
      rw [ht, Option.getD_some] at hle
      show t + cfg.lockTtlMs < now + ms
      omega
    · intro t ht
      show t < now + ms
      have hms : t + 1 ≤ ms := by
        simp only [ms, Option.mem_def.mp ht, Option.getD_some]
        omega
      omega
  · intro before after t s' hbefore hafter hback
    obtain ⟨ht, hle, hsame⟩ := idle_run_rank hs hbefore
    obtain ⟨_, hle', _⟩ := idle_run_rank ht hafter
    rw [hback] at hle'
    refine hsame (Nat.le_antisymm hle' hle) ?_
    intro hdead
    simp [hdead, sweepExcluded] at hopen

/-- A row whose poller crashed and left the lock set, behind an earlier row of its reference. -/
theorem no_row_stuck_crashed :
    let cfg : QueueConfig := ⟨⟨3, 1000, 90⟩, 2, 5000⟩
    ∃ s, exec (step .inbox cfg.toConfig) (Life.inserted .inbox () (some "app-1"))
        [.claim 1 "app-1" 5, .crash 0] = some s ∧ s.row.status = .processing ∧
      HasTurn .inbox cfg ⟨fun _ i ↦ i, fun c ↦ c.now⟩
        ⟨[⟨4, Row.inserted .inbox () (some "app-1")⟩, ⟨7, s.row⟩],
          [("app-1", ⟨true, some 5⟩)], 6, []⟩ 1 () := by
  refine ⟨_, rfl, rfl, ?_⟩
  have hrun : Run (step .inbox ⟨3, 1000, 90⟩) anyStep (Life.inserted .inbox () (some "app-1"))
      [.claim 1 "app-1" 5, .crash 0] _ := .of_exec rfl
  refine (no_row_stuck .inbox ⟨⟨3, 1000, 90⟩, 2, 5000⟩ (by decide) _ () (some "app-1") hrun
    rfl).1 _ _ 6 1 rfl ?_
  intro l hl
  obtain rfl := List.mem_singleton.mp hl
  exact ⟨5, [.setFifoLock 0], _, .of_exec rfl, rfl⟩

end FgGas.Events
