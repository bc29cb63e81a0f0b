import FgGas.Machine.Run

/-!
# The lock of one ordering key

The `fifo_locks` document of one (actor, segregationRef)
(`src/events/repositories/fifo-lock.repository.js`) under any number of workers running
`processWithLock` and the stale-lock cleanup. The unique index keeps it to one document.
The document does not say who holds the lock: a worker that outlives its lock frees
whichever lock stands when it ends. Instants are milliseconds.
-/

namespace FgGas.Events

open Machine

/-- The columns of a lock document. -/
structure FifoLock where
  locked : Bool
  lockedAt : Option Nat
  deriving DecidableEq, Repr

/-- `setFifoLock`: modifies a free lock, inserts a missing one, and fails with a duplicate
key on a lock that is set, which its filter does not find but the unique index does. -/
def setFifoLock (now : Nat) : Option FifoLock → Option FifoLock
  | some ⟨true, _⟩ => none
  | _ => some ⟨true, some now⟩

/-- `freeFifoLock`: found by (segregationRef, actor) alone. -/
def freeFifoLock (doc : Option FifoLock) : Option FifoLock :=
  doc.map fun _ ↦ ⟨false, none⟩

/-- `cleanupStaleLocks`: frees a lock set before `now - ttlMs`. -/
def cleanupStaleLocks (ttlMs now : Nat) (doc : Option FifoLock) : Option FifoLock :=
  doc.map fun lock ↦
    if lock.locked && lock.lockedAt.any (· + ttlMs < now) then ⟨false, none⟩ else lock

/-- The latest successful `setFifoLock`, and whether its worker has freed it. -/
structure Acquisition (W : Type) where
  worker : W
  lockedAt : Nat
  freed : Bool
  deriving DecidableEq, Repr

/-- The document, the clock, the workers between their `setFifoLock` and their
`freeFifoLock`, and the latest acquisition. -/
structure Locking (W : Type) where
  doc : Option FifoLock
  now : Nat
  working : List W
  recent : Option (Acquisition W)
  deriving DecidableEq, Repr

/-- The steps; a worker that crashes never runs its `finally`. Reading the clock and writing the
lock are one step, so a lock is held from its recorded `lockedAt`, not from when its write lands. -/
inductive LockLabel (W : Type)
  | tick (ms : Nat)
  | setFifoLock (worker : W)
  | freeFifoLock (worker : W)
  | cleanupStaleLocks
  | crash (worker : W)
  deriving DecidableEq, Repr

variable {W : Type} [DecidableEq W]

/-- The worker's own `freeFifoLock` ends its acquisition, if that is the latest one. -/
def Acquisition.freedBy (worker : W) (a : Acquisition W) : Acquisition W :=
  { a with freed := a.freed || a.worker = worker }

/-- One step. A `setFifoLock` that fails is no step. -/
def lockStep (ttlMs : Nat) (s : Locking W) : LockLabel W → Option (Locking W)
  | .tick ms => some { s with now := s.now + ms }
  | .setFifoLock worker =>
      if worker ∈ s.working then none
      else (setFifoLock s.now s.doc).map fun doc ↦
        { s with
          doc := some doc
          working := worker :: s.working
          recent := some ⟨worker, s.now, false⟩ }
  | .freeFifoLock worker =>
      if worker ∈ s.working then
        some { s with
          doc := freeFifoLock s.doc
          working := s.working.erase worker
          recent := s.recent.map (Acquisition.freedBy worker) }
      else none
  | .cleanupStaleLocks => some { s with doc := cleanupStaleLocks ttlMs s.now s.doc }
  | .crash worker =>
      if worker ∈ s.working then some { s with working := s.working.erase worker } else none

/-- No document yet, nobody at work. -/
def Locking.start (now : Nat) : Locking W := ⟨none, now, [], none⟩

/-- The acquisition is the latest, younger than the TTL, and its worker has not freed it. -/
structure Holds (ttlMs : Nat) (s : Locking W) (a : Acquisition W) : Prop where
  recent : s.recent = some a
  kept : a.freed = false
  fresh : s.now < a.lockedAt + ttlMs

/-- No worker frees the lock while it is held for an acquisition of another worker. -/
def freesOwnLock (ttlMs : Nat) (s : Locking W) : LockLabel W → Prop
  | .freeFifoLock worker =>
      ∀ a ∈ s.recent, a.freed = false → s.now < a.lockedAt + ttlMs → a.worker = worker
  | _ => True

instance (ttlMs : Nat) (s : Locking W) (l : LockLabel W) : Decidable (freesOwnLock ttlMs s l) := by
  cases l <;> unfold freesOwnLock <;> infer_instance

/-- A held lock is set, since the instant of its acquisition. -/
def LockSet (ttlMs : Nat) (s : Locking W) : Prop :=
  ∀ a, Holds ttlMs s a → s.doc = some ⟨true, some a.lockedAt⟩

/-- The cleanup leaves a lock younger than the TTL alone. -/
theorem cleanupStaleLocks_fresh {ttlMs now t : Nat} (h : now < t + ttlMs) :
    cleanupStaleLocks ttlMs now (some ⟨true, some t⟩) = some ⟨true, some t⟩ := by
  have hn : ¬ t + ttlMs < now := by omega
  simp [cleanupStaleLocks, hn]

omit [DecidableEq W] in
/-- What is held after time has passed was held before. -/
theorem Holds.of_tick {ttlMs ms : Nat} {s : Locking W} {a : Acquisition W}
    (h : Holds ttlMs { s with now := s.now + ms } a) : Holds ttlMs s a :=
  ⟨h.recent, h.kept, Nat.lt_of_le_of_lt (Nat.le_add_right s.now ms) h.fresh⟩

/-- Every step but a late free keeps a held lock set. -/
theorem lockStep_lockSet {ttlMs : Nat} {s s' : Locking W} {l : LockLabel W}
    (hs : LockSet ttlMs s) (hok : freesOwnLock ttlMs s l)
    (h : lockStep ttlMs s l = some s') : LockSet ttlMs s' := by
  intro a ha
  cases l with
  | tick ms =>
    cases h
    exact hs a ha.of_tick
  | setFifoLock worker =>
    simp only [lockStep] at h
    split at h
    · cases h
    · obtain ⟨doc, hd, rfl⟩ := Option.map_eq_some_iff.mp h
      obtain rfl : (⟨worker, s.now, false⟩ : Acquisition W) = a := Option.some.inj ha.recent
      unfold setFifoLock at hd
      split at hd
      · cases hd
      · rw [← Option.some.inj hd]
  | freeFifoLock worker =>
    simp only [lockStep] at h
    split at h
    · obtain rfl := Option.some.inj h
      obtain ⟨b, hb, rfl⟩ := Option.map_eq_some_iff.mp ha.recent
      have hkept := ha.kept
      simp only [Acquisition.freedBy, Bool.or_eq_false_iff, decide_eq_false_iff_not] at hkept
      -- the lock was held for `b` before the step, and `b` is another worker's
      have hheld : Holds ttlMs s b := ⟨hb, hkept.1, ha.fresh⟩
      exact absurd (hok b hheld.recent hheld.kept hheld.fresh) hkept.2
    · cases h
  | cleanupStaleLocks =>
    cases h
    have hheld : Holds ttlMs s a := ⟨ha.recent, ha.kept, ha.fresh⟩
    have hdoc := hs a hheld
    show cleanupStaleLocks ttlMs s.now s.doc = _
    rw [hdoc, cleanupStaleLocks_fresh ha.fresh]
  | crash worker =>
    simp only [lockStep] at h
    split at h
    · obtain rfl := Option.some.inj h
      exact hs a ⟨ha.recent, ha.kept, ha.fresh⟩
    · cases h

/-- As long as no worker frees the lock while it is held for another, nobody else's
`setFifoLock` succeeds while it is held. -/
theorem setFifoLock_excluded (ttlMs start : Nat) {ls : List (LockLabel W)} {s : Locking W}
    (h : Run (lockStep ttlMs) (freesOwnLock ttlMs) (Locking.start start) ls s)
    {a : Acquisition W} (ha : Holds ttlMs s a) (worker : W) (_ : worker ≠ a.worker) :
    lockStep ttlMs s (.setFifoLock worker) = none := by
  have hset : LockSet ttlMs s :=
    h.invariant (LockSet ttlMs) (fun _ hstart ↦ by cases hstart.recent)
      fun _ _ _ hs hok hst ↦ lockStep_lockSet hs hok hst
  simp only [lockStep, hset a ha, setFifoLock, Option.map_none, ite_self]

/-- A worker overruns, is cleaned up and ends before the next one starts; the next one
then keeps a third out. -/
theorem setFifoLock_excluded_reclaimed :
    ∃ s : Locking Nat, exec (lockStep 10) (Locking.start 0) [.setFifoLock 1, .tick 11,
        .cleanupStaleLocks, .freeFifoLock 1, .setFifoLock 2, .tick 5] = some s ∧
      lockStep 10 s (.setFifoLock 3) = none := by
  have hrun : Run (lockStep 10) (freesOwnLock 10) (Locking.start (W := Nat) 0)
      [.setFifoLock 1, .tick 11, .cleanupStaleLocks, .freeFifoLock 1, .setFifoLock 2, .tick 5] _ :=
    .of_exec_guarded rfl
  exact ⟨_, rfl, setFifoLock_excluded 10 0 hrun (a := ⟨2, 11, false⟩) ⟨rfl, rfl, by decide⟩ 3
    (by decide)⟩

/-- The first worker overruns the TTL and is reclaimed; the second acquires; the first
frees; the third acquires too, while the second has held the lock for no time at all. -/
theorem freeFifoLock_unfenced :
    ∃ s : Locking Nat, exec (lockStep 10) (Locking.start 0) [.setFifoLock 1, .tick 11,
        .cleanupStaleLocks, .setFifoLock 2, .freeFifoLock 1] = some s ∧
      Holds 10 s ⟨2, 11, false⟩ ∧ lockStep 10 s (.setFifoLock 3) ≠ none :=
  ⟨_, rfl, ⟨rfl, rfl, by decide⟩, by decide⟩

end FgGas.Events
