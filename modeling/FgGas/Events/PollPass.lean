import Mathlib.Data.Finset.Card
import FgGas.Machine.Lookup
import FgGas.Events.PollLoop

/-!
# What one pass of the poll loop does

A pass takes some rows, to dispatch their events or to dead-letter them for want of a
segregation reference, sweeps the others and frees the locks that have outlived their time.
Row by row, it is nothing but steps of the row's own machine.
-/

namespace FgGas.Events

open Machine

variable {P : Type}

/-! ### The rows by their places -/

/-- The row stored at a place. -/
def rowAt (rows : List (Queued P)) (i : Nat) : Option (Row P) := rows[i]?.map Queued.row

/-- The places of the rows that meet `p`. -/
def places (p : Row P → Bool) (rows : List (Queued P)) : Finset Nat :=
  (Finset.range rows.length).filter fun i ↦ (rowAt rows i).any p

section
variable {rows rows' : List (Queued P)} {p : Row P → Bool} {i k : Nat} {r : Row P}

theorem rowAt_writeRow (write : Row P → Row P) :
    rowAt (writeRow i write rows) k =
      if i = k then (rowAt rows k).map write else rowAt rows k := by
  unfold rowAt writeRow
  rw [List.getElem?_modify]
  split <;> cases rows[k]? <;> rfl

theorem rowAt_updateMany (write : Row P → Option (Row P)) :
    rowAt (updateMany write rows) k = (rowAt rows k).map fun r ↦ (write r).getD r := by
  unfold rowAt updateMany
  rw [List.getElem?_map]
  cases rows[k]? <;> rfl

theorem mem_places : i ∈ places p rows ↔ ∃ r, rowAt rows i = some r ∧ p r = true := by
  simp only [places, Finset.mem_filter, Finset.mem_range, Option.any_eq_true]
  refine and_iff_right_of_imp ?_
  rintro ⟨r, hr, _⟩
  obtain ⟨q, hq, _⟩ := Option.map_eq_some_iff.mp hr
  exact (List.getElem?_eq_some_iff.mp hq).1

/-- Rows that only ever leave `p`, and one that does, are fewer. -/
theorem card_places_lt (hsub : places p rows' ⊆ places p rows) (hi : i ∈ places p rows)
    (hi' : i ∉ places p rows') : (places p rows').card < (places p rows).card :=
  Finset.card_lt_card ⟨hsub, fun h ↦ hi' (h hi)⟩

variable {order : TieOrder P}

/-- The row found matches the filter. -/
theorem earliest_eq_some {q : Queued P} (h : earliest order p rows = some (q, i)) :
    rowAt rows i = some q.row ∧ p q.row = true := by
  obtain ⟨hmem, hp⟩ := List.mem_filter.mp (List.argmin_mem h)
  rw [List.mem_zipIdx_iff_getElem?] at hmem
  exact ⟨by simp only [rowAt, hmem, Option.map_some], hp⟩

/-- A row is found as long as one matches. -/
theorem exists_earliest (order : TieOrder P) (hr : rowAt rows k = some r) (hp : p r = true) :
    ∃ q i, earliest order p rows = some (q, i) := by
  cases hfound : earliest order p rows with
  | some found => exact ⟨found.1, found.2, rfl⟩
  | none =>
    obtain ⟨q, hq, rfl⟩ := Option.map_eq_some_iff.mp hr
    have hmem : (q, k) ∈ rows.zipIdx.filter fun x ↦ p x.1.row :=
      List.mem_filter.mpr ⟨List.mem_zipIdx_iff_getElem?.mpr hq, hp⟩
    rw [List.argmin_eq_none.mp hfound] at hmem
    exact absurd hmem List.not_mem_nil

end

/-! ### Finding the next reference -/

section
variable {cfg : Config} {order : TieOrder P} {lockIds : List String} {rows : List (Queued P)}
  {k : Nat} {r : Row P}

theorem claimable_of_findNextMessage (h : findNextMessage cfg lockIds r = true) :
    claimable cfg r = true := by
  simp only [findNextMessage, Bool.and_eq_true] at h
  exact h.1

/-- A row is left alone, or found without a reference and dead-lettered. -/
theorem getNextAvailable_row (cfg : Config) (order : TieOrder P) (lockIds : List String)
    (fuel : Nat) (rows : List (Queued P)) (k : Nat) :
    rowAt (getNextAvailable cfg order lockIds fuel rows).2 k = rowAt rows k ∨
      ∃ r, rowAt rows k = some r ∧ findNextMessage cfg lockIds r = true ∧
        validSegregationRef r.segregationRef = false ∧
        rowAt (getNextAvailable cfg order lockIds fuel rows).2 k =
          some (deadLetterEvent r) := by
  induction fuel generalizing rows with
  | zero => exact .inl rfl
  | succ fuel ih =>
    unfold getNextAvailable
    split
    · exact .inl rfl
    · next q i hfound =>
      split
      · exact .inl rfl
      next hinvalid =>
      obtain ⟨hi, hq⟩ := earliest_eq_some hfound
      rcases ih (writeRow i deadLetterEvent rows) with hrow | ⟨r, hr, hfind, hrest⟩
      · rw [rowAt_writeRow] at hrow
        split at hrow
        · next hik =>
          subst hik
          rw [hi] at hrow
          exact .inr ⟨q.row, hi, hq, Bool.eq_false_of_not_eq_true hinvalid, hrow⟩
        · exact .inl hrow
      · rw [rowAt_writeRow] at hr
        split at hr
        · next hik =>
          subst hik
          rw [hi] at hr
          obtain rfl := Option.some.inj hr
          cases claimable_of_findNextMessage hfind
        · exact .inr ⟨r, hr, hfind, hrest⟩

/-- The reference answered is that of a row to claim, and not locked. -/
theorem getNextAvailable_some {fuel : Nat} {ref : String} {rows' : List (Queued P)}
    (h : getNextAvailable cfg order lockIds fuel rows = (some ref, rows')) :
    ref ≠ "" ∧ ref ∉ lockIds ∧
      ∃ k r, rowAt rows' k = some r ∧ claimable cfg r = true ∧ r.segregationRef = some ref := by
  induction fuel generalizing rows with
  | zero => simp [getNextAvailable] at h
  | succ fuel ih =>
    unfold getNextAvailable at h
    split at h
    · simp at h
    · next q i hfound =>
      split at h
      · next hvalid =>
        obtain ⟨hi, hq⟩ := earliest_eq_some hfound
        obtain ⟨href, rfl⟩ := Prod.mk.inj h
        have hclaim := claimable_of_findNextMessage hq
        simp only [findNextMessage, href, Bool.and_eq_true, Option.all_some,
          decide_eq_true_eq] at hq
        simp only [href, validSegregationRef, decide_eq_true_eq] at hvalid
        exact ⟨hvalid, hq.2, i, q.row, hi, hclaim, href⟩
      · exact ih h

/-- As long as there is a row to find, a reference is answered or a row dead-lettered. -/
theorem getNextAvailable_finds (order : TieOrder P) (fuel : Nat) (hr : rowAt rows k = some r)
    (hfind : findNextMessage cfg lockIds r = true) :
    (∃ ref, (getNextAvailable cfg order lockIds (fuel + 1) rows).1 = some ref) ∨
      ∃ j r, rowAt rows j = some r ∧ claimable cfg r = true ∧
        rowAt (getNextAvailable cfg order lockIds (fuel + 1) rows).2 j =
          some (deadLetterEvent r) := by
  obtain ⟨q, i, hfound⟩ := exists_earliest order hr hfind
  obtain ⟨hi, hq⟩ := earliest_eq_some hfound
  simp only [getNextAvailable, hfound]
  split
  · next hvalid =>
    cases href : q.row.segregationRef with
    | none => simp [href, validSegregationRef] at hvalid
    | some ref => exact .inl ⟨ref, rfl⟩
  · refine .inr ⟨i, q.row, hi, claimable_of_findNextMessage hq, ?_⟩
    have hdead : rowAt (writeRow i deadLetterEvent rows) i = some (deadLetterEvent q.row) := by
      rw [rowAt_writeRow, if_pos rfl, hi, Option.map_some]
    rcases getNextAvailable_row cfg order lockIds fuel (writeRow i deadLetterEvent rows) i with
      hrow | ⟨r, hr, hfind, _⟩
    · exact hrow.trans hdead
    · rw [hdead] at hr
      obtain rfl := Option.some.inj hr
      cases claimable_of_findNextMessage hfind

/-- With fuel for every row there is none left to find when no reference is answered. -/
theorem getNextAvailable_none {fuel : Nat} {rows' : List (Queued P)}
    (hfuel : (places (claimable cfg) rows).card < fuel)
    (h : getNextAvailable cfg order lockIds fuel rows = (none, rows'))
    (hr : rowAt rows' k = some r) : findNextMessage cfg lockIds r = false := by
  induction fuel generalizing rows with
  | zero => exact absurd hfuel (Nat.not_lt_zero _)
  | succ fuel ih =>
    cases hfound : earliest order (findNextMessage cfg lockIds) rows with
    | none =>
      simp only [getNextAvailable, hfound, Prod.mk.injEq, true_and] at h
      subst h
      by_contra hfind
      obtain ⟨q, i, hq⟩ := exists_earliest order hr (Bool.not_eq_false _ ▸ hfind)
      rw [hfound] at hq
      cases hq
    | some found =>
      obtain ⟨q, i⟩ := found
      obtain ⟨hi, hq⟩ := earliest_eq_some hfound
      simp only [getNextAvailable, hfound] at h
      split at h
      · next hvalid =>
        rw [(Prod.mk.inj h).1] at hvalid
        cases hvalid
      · refine ih ?_ h
        have hless : (places (claimable cfg) (writeRow i deadLetterEvent rows)).card <
            (places (claimable cfg) rows).card := by
          refine card_places_lt (i := i) ?_ ?_ ?_
          · intro j hj
            obtain ⟨r, hrow, hclaim⟩ := mem_places.mp hj
            rw [rowAt_writeRow] at hrow
            split at hrow
            · obtain ⟨_, _, rfl⟩ := Option.map_eq_some_iff.mp hrow
              cases hclaim
            · exact mem_places.mpr ⟨r, hrow, hclaim⟩
          · exact mem_places.mpr ⟨q.row, hi, claimable_of_findNextMessage hq⟩
          · intro hmem
            obtain ⟨r, hrow, hclaim⟩ := mem_places.mp hmem
            rw [rowAt_writeRow, if_pos rfl, hi] at hrow
            obtain rfl := Option.some.inj hrow
            cases hclaim
        omega

end


/-! ### Taking a batch -/

section
variable {cfg : Config} {order : TieOrder P} {token : Token} {ref : String} {now : Nat}
  {rows : List (Queued P)} {k : Nat}

/-- A row is left alone, or claimed and in the batch, once. -/
theorem claimBatch_row (cfg : Config) (order : TieOrder P) (token : Token) (ref : String)
    (now n : Nat) (rows : List (Queued P)) (k : Nat) :
    (rowAt (claimBatch cfg order token ref now n rows).2 k = rowAt rows k ∧
        ∀ doc, (k, doc) ∉ (claimBatch cfg order token ref now n rows).1) ∨
      ∃ r doc, rowAt rows k = some r ∧ claimEvents cfg token ref now r = some doc ∧
        rowAt (claimBatch cfg order token ref now n rows).2 k = some doc ∧
        ∀ d, (k, d) ∈ (claimBatch cfg order token ref now n rows).1 ↔ d = doc := by
  induction n generalizing rows with
  | zero => exact .inl ⟨rfl, fun _ ↦ List.not_mem_nil⟩
  | succ n ih =>
    cases hfound : earliest order (fun r ↦ (claimEvents cfg token ref now r).isSome) rows with
    | none =>
      simp only [claimBatch, hfound]
      exact ih rows
    | some found =>
      obtain ⟨q, i⟩ := found
      obtain ⟨hi, hq⟩ := earliest_eq_some hfound
      obtain ⟨doc, hdoc⟩ := Option.isSome_iff_exists.mp hq
      simp only [claimBatch, hfound, hdoc, Option.getD_some]
      rcases ih (writeRow i (fun _ ↦ doc) rows) with
        ⟨hrow, hnot⟩ | ⟨r, doc', hr, hclaim, hrow, hmem⟩
      · rw [rowAt_writeRow] at hrow
        split at hrow
        · next hik =>
          subst hik
          rw [hi] at hrow
          exact .inr ⟨q.row, doc, hi, hdoc, hrow, fun d ↦ by simp [hnot d]⟩
        · next hik =>
          refine .inl ⟨hrow, fun d hd ↦ ?_⟩
          rcases List.mem_cons.mp hd with he | hd
          · exact hik (Prod.mk.inj he).1.symm
          · exact hnot d hd
      · rw [rowAt_writeRow] at hr
        split at hr
        · next hik =>
          -- a row just claimed is not claimed again
          subst hik
          rw [hi] at hr
          obtain rfl := Option.some.inj hr
          obtain ⟨_, _, _, _, rfl⟩ := claimEvents_eq_some hdoc
          obtain ⟨hpublished, _⟩ := claimEvents_eq_some hclaim
          cases hpublished
        · next hik =>
          refine .inr ⟨r, doc', hr, hclaim, hrow, fun d ↦ ?_⟩
          rw [List.mem_cons, Prod.mk.injEq, hmem]
          exact or_iff_right fun he ↦ hik he.1.symm

/-- A batch is not empty as long as there is a row to claim. -/
theorem claimBatch_finds (order : TieOrder P) (token : Token) (now n : Nat) {r : Row P}
    (hr : rowAt rows k = some r)
    (hclaim : claimable cfg r = true) (href : r.segregationRef = some ref) :
    ∃ j doc, (j, doc) ∈ (claimBatch cfg order token ref now (n + 1) rows).1 := by
  have hsome : (claimEvents cfg token ref now r).isSome = true := by
    simp [claimEvents, hclaim, href]
  obtain ⟨q, i, hfound⟩ := exists_earliest order
    (p := fun r ↦ (claimEvents cfg token ref now r).isSome) hr hsome
  simp only [claimBatch, hfound]
  exact ⟨i, _, List.mem_cons_self⟩

end

/-! ### Handling a batch -/

section
variable {box : Box} {cfg : Config} {token : Token} {thrown : Nat → Option (Option Failure)}
  {docs : List (Nat × Row P)} {k : Nat} {r : Row P}

/-- The log takes in every row of the batch, with the event it was claimed with. -/
theorem handled_dispatched (c : Collection P) :
    (docs.foldl (handleEvent box cfg token thrown) c).dispatched =
      c.dispatched ++ docs.map fun d ↦ (d.1, d.2.event) := by
  induction docs generalizing c with
  | nil => simp
  | cons d docs ih =>
    rw [List.foldl_cons, ih]
    simp [handleEvent, Entry.fromDocument]

theorem handled_now (c : Collection P) :
    (docs.foldl (handleEvent box cfg token thrown) c).now = c.now := by
  induction docs generalizing c with
  | nil => rfl
  | cons d docs ih => exact ih _

theorem handled_locks (c : Collection P) :
    (docs.foldl (handleEvent box cfg token thrown) c).locks = c.locks := by
  induction docs generalizing c with
  | nil => rfl
  | cons d docs ih => exact ih _

/-- A handler's write is fenced: a row with another owner, or none, is left alone. -/
theorem handleEvent_row_of_unowned {c : Collection P} (d : Nat × Row P)
    (hr : rowAt c.rows k = some r) (howner : r.claimedBy ≠ some token) :
    rowAt (handleEvent box cfg token thrown c d).rows k = some r := by
  unfold handleEvent
  rw [rowAt_writeRow]
  split
  · rw [hr, Option.map_some, update_eq_none howner, Option.getD_none]
  · exact hr

theorem handled_row_of_unowned {c : Collection P} (hr : rowAt c.rows k = some r)
    (howner : r.claimedBy ≠ some token) :
    rowAt (docs.foldl (handleEvent box cfg token thrown) c).rows k = some r := by
  induction docs generalizing c with
  | nil => exact hr
  | cons d docs ih => exact ih (handleEvent_row_of_unowned d hr howner)

/-- A row that is not in the batch is left alone. -/
theorem handled_row_of_not_mem {c : Collection P} (h : ∀ doc, (k, doc) ∉ docs) :
    rowAt (docs.foldl (handleEvent box cfg token thrown) c).rows k = rowAt c.rows k := by
  induction docs generalizing c with
  | nil => rfl
  | cons d docs ih =>
    rw [List.foldl_cons, ih fun doc hd ↦ h doc (List.mem_cons_of_mem _ hd)]
    have hne : d.1 ≠ k := fun he ↦ h d.2 (he ▸ List.mem_cons_self)
    unfold handleEvent
    rw [rowAt_writeRow, if_neg hne]

/-- A claimed row of the batch is written as its handler leaves it. -/
theorem handled_row_of_mem {c : Collection P} {doc : Row P}
    (hmem : ∀ d, (k, d) ∈ docs ↔ d = doc) (hr : rowAt c.rows k = some r)
    (howner : r.claimedBy = some token) :
    rowAt (docs.foldl (handleEvent box cfg token thrown) c).rows k =
      some (((Entry.fromDocument box doc).handled box cfg c.now (thrown k)).setOn box r) := by
  induction docs generalizing c with
  | nil => exact absurd ((hmem doc).mpr rfl) List.not_mem_nil
  | cons d docs ih =>
    rw [List.foldl_cons]
    by_cases hd : d.1 = k
    · -- the first write gives the claim up, and the fence keeps the row so
      obtain rfl : d.2 = doc := (hmem d.2).mp (hd ▸ List.mem_cons_self)
      refine handled_row_of_unowned ?_ (by simp)
      unfold handleEvent
      rw [rowAt_writeRow, if_pos hd, hr, hd]
      simp only [Option.map_some, update, howner, if_true, Option.getD_some]
    · have hrest : ∀ e, (k, e) ∈ docs ↔ e = doc := by
        intro e
        rw [← hmem e, List.mem_cons]
        exact (or_iff_right fun he ↦ hd (congrArg Prod.fst he).symm).symm
      refine ih hrest ?_
      unfold handleEvent
      rw [rowAt_writeRow, if_neg hd]
      exact hr

end

/-! ### The locks -/

section
variable {ref : String} {locks : List (String × FifoLock)}

theorem lookup_putLock (lock : FifoLock) : (putLock ref lock locks).lookup ref = some lock := by
  induction locks with
  | nil => simp [putLock]
  | cons l locks ih =>
    unfold putLock
    split
    · simp
    · next hne => rw [List.lookup_cons, beq_eq_false_iff_ne.mpr (Ne.symm hne), ih]

theorem putLock_putLock (lock lock' : FifoLock) :
    putLock ref lock' (putLock ref lock locks) = putLock ref lock' locks := by
  induction locks with
  | nil => simp [putLock]
  | cons l locks ih => by_cases h : l.1 = ref <;> simp [putLock, h, ih]

theorem mem_putLock {lock : FifoLock} {l : String × FifoLock} (h : l ∈ putLock ref lock locks) :
    l = (ref, lock) ∨ l ∈ locks := by
  induction locks with
  | nil => exact .inl (List.mem_singleton.mp h)
  | cons l' locks ih =>
    unfold putLock at h
    split at h
    · exact (List.mem_cons.mp h).imp_right (List.mem_cons_of_mem _)
    · rcases List.mem_cons.mp h with rfl | h
      · exact .inr List.mem_cons_self
      · exact (ih h).imp_right (List.mem_cons_of_mem _)

/-- The lock of a reference that is not among the locked ones can be taken. -/
theorem setFifoLock_of_not_mem {c : Collection P} (h : ref ∉ c.lockIds) :
    ∃ lock, setFifoLock c.now (c.locks.lookup ref) = some lock := by
  cases hlookup : c.locks.lookup ref with
  | none => exact ⟨_, rfl⟩
  | some lock =>
    obtain ⟨locked, lockedAt⟩ := lock
    cases locked with
    | false => exact ⟨_, rfl⟩
    | true =>
      have hmem : (ref, (⟨true, lockedAt⟩ : FifoLock)) ∈ c.locks.filter fun l ↦ l.2.locked :=
        List.mem_filter.mpr ⟨mem_of_lookup hlookup, rfl⟩
      exact absurd (List.mem_map.mpr ⟨_, hmem, rfl⟩) h

end

/-! ### One pass of the loop -/

/-- The row after the sweeps. -/
def swept (cfg : Config) (now : Nat) (r : Row P) : Row P :=
  let r := (updateResubmittedEvents r).getD r
  let r := (updateFailedEvents r).getD r
  let r := (updateDeadEvents cfg r).getD r
  (processExpiredEvents now r).getD r

/-- The row after the write of its handler, when it was claimed as `doc`. -/
def written (box : Box) (cfg : Config) (now : Nat) (doc : Row P)
    (thrown : Option (Option Failure)) : Row P :=
  ((Entry.fromDocument box doc).handled box cfg now thrown).setOn box doc

/-- No sweep writes a row that is finished or given up on. -/
theorem swept_of_sweepExcluded {cfg : Config} {now : Nat} {r : Row P}
    (h : sweepExcluded r.status = true) : swept cfg now r = r := by
  have hresubmitted : r.status ≠ .resubmitted := fun he ↦ by simp [he, sweepExcluded] at h
  have hfailed : r.status ≠ .failed := fun he ↦ by simp [he, sweepExcluded] at h
  simp [swept, updateResubmittedEvents, updateFailedEvents, updateDeadEvents,
    processExpiredEvents, h, hresubmitted, hfailed]

section
variable {box : Box} {cfg : QueueConfig} {order : TieOrder P} {token : Token}
  {thrown : Nat → Option (Option Failure)} {c c' : Collection P} {ref : String} {k : Nat}

theorem sweeps_row :
    rowAt (c.sweeps cfg).rows k = (rowAt c.rows k).map (swept cfg.toConfig c.now) := by
  simp only [Collection.sweeps, rowAt_updateMany, Option.map_map]
  rfl

/-- `processWithLock` claims a batch and hands it to its handlers, and the lock is free again. -/
theorem processWithLock_eq_some
    (h : processWithLock box cfg order token thrown ref c = some c') :
    c'.now = c.now ∧
    (∀ l ∈ c'.locks, l = (ref, ⟨false, none⟩) ∨ l ∈ c.locks) ∧
    ∃ docs rows, claimBatch cfg.toConfig order token ref c.now cfg.claimMaxRecords c.rows =
        (docs, rows) ∧
      c'.dispatched = c.dispatched ++ docs.map (fun d ↦ (d.1, d.2.event)) ∧
      ∃ before : Collection P, before.rows = rows ∧ before.now = c.now ∧
        c'.rows = (docs.foldl (handleEvent box cfg.toConfig token thrown) before).rows := by
  obtain ⟨lock, _, rfl⟩ := Option.map_eq_some_iff.mp h
  simp only [handled_locks, lookup_putLock, freeFifoLock, Option.map_some, putLock_putLock]
  exact ⟨handled_now _, fun l hl ↦ mem_putLock hl, _, _, rfl, handled_dispatched _,
    { c with rows := _, locks := putLock ref lock c.locks }, rfl, rfl, rfl⟩

/-- A row is left alone, or claimed, its event dispatched and its handler's write made. -/
theorem processWithLock_row
    (h : processWithLock box cfg order token thrown ref c = some c') :
    rowAt c'.rows k = rowAt c.rows k ∨
      ∃ r doc, rowAt c.rows k = some r ∧
        claimEvents cfg.toConfig token ref c.now r = some doc ∧
        (k, r.event) ∈ c'.dispatched ∧
        rowAt c'.rows k = some (written box cfg.toConfig c.now doc (thrown k)) := by
  obtain ⟨_, _, docs, rows, hbatch, hlog, before, rfl, hnow, hrows⟩ := processWithLock_eq_some h
  have hcases := claimBatch_row cfg.toConfig order token ref c.now cfg.claimMaxRecords c.rows k
  rw [hbatch] at hcases
  rcases hcases with ⟨hrow, hnot⟩ | ⟨r, doc, hr, hclaim, hrow, hmem⟩
  · exact .inl (by rw [hrows, handled_row_of_not_mem hnot, hrow])
  · obtain ⟨_, _, _, _, hdoc⟩ := claimEvents_eq_some hclaim
    have howner : doc.claimedBy = some token := by rw [hdoc]
    have hevent : doc.event = r.event := by rw [hdoc]
    refine .inr ⟨r, doc, hr, hclaim, ?_, ?_⟩
    · rw [hlog, ← hevent]
      exact List.mem_append_right _ (List.mem_map.mpr ⟨_, (hmem doc).mpr rfl, rfl⟩)
    · rw [hrows, handled_row_of_mem hmem hrow howner, hnow]
      rfl

/-- As long as there is a row of the reference to claim, one is taken. -/
theorem processWithLock_takes (hrecords : 0 < cfg.claimMaxRecords)
    (h : processWithLock box cfg order token thrown ref c = some c') {r : Row P}
    (hr : rowAt c.rows k = some r) (hclaim : claimable cfg.toConfig r = true)
    (href : r.segregationRef = some ref) :
    ∃ j r doc, rowAt c.rows j = some r ∧
      claimEvents cfg.toConfig token ref c.now r = some doc ∧
      rowAt c'.rows j = some (written box cfg.toConfig c.now doc (thrown j)) := by
  obtain ⟨n, hn⟩ := Nat.exists_eq_add_one_of_ne_zero hrecords.ne'
  obtain ⟨_, _, docs, rows, hbatch, _, before, rfl, hnow, hrows⟩ := processWithLock_eq_some h
  obtain ⟨j, doc, hmem⟩ := claimBatch_finds order token c.now n hr hclaim href
  have hcases := claimBatch_row cfg.toConfig order token ref c.now cfg.claimMaxRecords c.rows j
  rw [← hn, hbatch] at hmem
  rw [hbatch] at hcases
  rcases hcases with ⟨_, hnot⟩ | ⟨r, doc', hr, hclaim, hrow, hunique⟩
  · exact absurd hmem (hnot doc)
  · obtain ⟨_, _, _, _, hdoc⟩ := claimEvents_eq_some hclaim
    refine ⟨j, r, doc', hr, hclaim, ?_⟩
    rw [hrows, handled_row_of_mem hunique hrow (by rw [hdoc]), hnow]
    rfl

/-- A pass ends with the sweeps, whether or not it found a reference to process. -/
theorem poll_cases (box : Box) (cfg : QueueConfig) (order : TieOrder P) (token : Token)
    (thrown : Nat → Option (Option Failure)) (c : Collection P) :
    ∃ available rows c₁,
      getNextAvailable cfg.toConfig order c.lockIds (c.rows.length + 1) c.rows =
        (available, rows) ∧
      poll box cfg order token thrown c = c₁.sweeps cfg ∧
      ((available = none ∧ c₁ = { c with rows := rows }) ∨
        ∃ ref, available = some ref ∧
          processWithLock box cfg order token thrown ref { c with rows := rows } = some c₁) := by
  unfold poll
  split
  · next rows hnext => exact ⟨_, _, _, hnext, rfl, .inl ⟨rfl, rfl⟩⟩
  · next ref rows hnext =>
    obtain ⟨lock, hlock⟩ := setFifoLock_of_not_mem (getNextAvailable_some hnext).2.1
    have hsome : (processWithLock box cfg order token thrown ref
        { c with rows := rows }).isSome := by
      simp only [processWithLock, hlock, Option.map_some, Option.isSome_some]
    obtain ⟨c₁, hc₁⟩ := Option.isSome_iff_exists.mp hsome
    refine ⟨_, _, c₁, hnext, ?_, .inr ⟨ref, rfl, hc₁⟩⟩
    rw [hc₁]

/-- What a pass does to a row: it sweeps it, dead-letters it for want of a reference, or claims
it, dispatches its event, makes its handler's write and sweeps it. -/
theorem poll_row (box : Box) (cfg : QueueConfig) (order : TieOrder P) (token : Token)
    (thrown : Nat → Option (Option Failure)) (c : Collection P) (k : Nat) :
    rowAt (poll box cfg order token thrown c).rows k =
        (rowAt c.rows k).map (swept cfg.toConfig c.now) ∨
      (∃ r, rowAt c.rows k = some r ∧ findNextMessage cfg.toConfig c.lockIds r = true ∧
        validSegregationRef r.segregationRef = false ∧
        rowAt (poll box cfg order token thrown c).rows k = some (deadLetterEvent r)) ∨
      ∃ r doc ref, rowAt c.rows k = some r ∧ ref ≠ "" ∧
        claimEvents cfg.toConfig token ref c.now r = some doc ∧
        (k, r.event) ∈ (poll box cfg order token thrown c).dispatched ∧
        rowAt (poll box cfg order token thrown c).rows k =
          some (swept cfg.toConfig c.now (written box cfg.toConfig c.now doc (thrown k))) := by
  obtain ⟨available, rows, c₁, hnext, hpoll, hcase⟩ := poll_cases box cfg order token thrown c
  have hfound := getNextAvailable_row cfg.toConfig order c.lockIds (c.rows.length + 1) c.rows k
  rw [hnext] at hfound
  rw [hpoll, sweeps_row]
  -- a dead letter is not swept
  have hdead : ∀ r : Row P, swept cfg.toConfig c.now (deadLetterEvent r) = deadLetterEvent r :=
    fun r ↦ swept_of_sweepExcluded rfl
  rcases hcase with ⟨_, rfl⟩ | ⟨ref, rfl, hlock⟩
  · refine hfound.imp (fun hrow ↦ congrArg (Option.map _) hrow) fun hrow ↦ .inl ?_
    obtain ⟨r, hr, hfind, hinvalid, hrow⟩ := hrow
    refine ⟨r, hr, hfind, hinvalid, ?_⟩
    exact (congrArg (Option.map _) hrow).trans (congrArg some (hdead r))
  · rw [(processWithLock_eq_some hlock).1]
    rcases processWithLock_row (k := k) hlock with hkept | ⟨r, doc, hr, hclaim, hlog, hrow⟩
    · rw [hkept]
      refine hfound.imp (fun hrow ↦ congrArg (Option.map _) hrow) fun hrow ↦ .inl ?_
      obtain ⟨r, hr, hfind, hinvalid, hrow⟩ := hrow
      refine ⟨r, hr, hfind, hinvalid, ?_⟩
      exact (congrArg (Option.map _) hrow).trans (congrArg some (hdead r))
    · rcases hfound with hkept | ⟨r', _, _, _, hletter⟩
      · refine .inr (.inr ⟨r, doc, ref, hkept.symm.trans hr, (getNextAvailable_some hnext).1,
          hclaim, hlog, ?_⟩)
        rw [hrow]
        rfl
      · obtain rfl := Option.some.inj (hr.symm.trans hletter)
        obtain ⟨hpublished, _⟩ := claimEvents_eq_some hclaim
        cases hpublished

/-- A pass over a collection with no lock set takes a row, as long as one can be claimed. -/
theorem poll_takes (box : Box) (order : TieOrder P) (token : Token)
    (thrown : Nat → Option (Option Failure)) (hrecords : 0 < cfg.claimMaxRecords)
    (hfree : c.lockIds = []) {r : Row P} (hr : rowAt c.rows k = some r)
    (hclaim : claimable cfg.toConfig r = true) :
    ∃ j r, rowAt c.rows j = some r ∧ claimable cfg.toConfig r = true ∧
      (rowAt (poll box cfg order token thrown c).rows j = some (deadLetterEvent r) ∨
        ∃ doc, rowAt (poll box cfg order token thrown c).rows j =
          some (swept cfg.toConfig c.now (written box cfg.toConfig c.now doc (thrown j)))) := by
  obtain ⟨available, rows, c₁, hnext, hpoll, hcase⟩ := poll_cases box cfg order token thrown c
  have hfind : findNextMessage cfg.toConfig c.lockIds r = true := by
    simp [findNextMessage, hclaim, hfree]
  have hfinds := getNextAvailable_finds order c.rows.length hr hfind
  rw [hnext] at hfinds
  rw [hpoll]
  rcases hcase with ⟨rfl, rfl⟩ | ⟨ref, rfl, hlock⟩
  · rcases hfinds with ⟨ref, href⟩ | ⟨j, r, hr, hclaim, hrow⟩
    · cases href
    · refine ⟨j, r, hr, hclaim, .inl ?_⟩
      rw [sweeps_row]
      exact (congrArg (Option.map _) hrow).trans (congrArg some (swept_of_sweepExcluded rfl))
  · obtain ⟨_, _, j, r, hr, hclaim, href⟩ := getNextAvailable_some hnext
    obtain ⟨i, r, doc, hr, hclaim, hrow⟩ := processWithLock_takes hrecords hlock hr hclaim href
    obtain ⟨hp, hb, ha, _⟩ := claimEvents_eq_some hclaim
    refine ⟨i, r, ?_, by simp [claimable, hp, hb, ha], .inr ⟨doc, ?_⟩⟩
    · have hfound := getNextAvailable_row cfg.toConfig order c.lockIds (c.rows.length + 1)
        c.rows i
      rw [hnext] at hfound
      rcases hfound with hkept | ⟨r', _, _, _, hletter⟩
      · exact hkept.symm.trans hr
      · obtain rfl := Option.some.inj (hr.symm.trans hletter)
        cases hp
    · rw [sweeps_row, hrow, (processWithLock_eq_some hlock).1]
      rfl

/-- After a pass no lock is set, if those that were have outlived the lock's time. -/
theorem poll_lockIds (hstale : ∀ l ∈ c.locks, l.2.locked = true →
      ∃ t, l.2.lockedAt = some t ∧ t + cfg.lockTtlMs < c.now) :
    (poll box cfg order token thrown c).lockIds = [] := by
  obtain ⟨available, rows, c₁, _, hpoll, hcase⟩ := poll_cases box cfg order token thrown c
  have hlocks : c₁.now = c.now ∧ ∀ l ∈ c₁.locks, l.2.locked = true → l ∈ c.locks := by
    rcases hcase with ⟨_, rfl⟩ | ⟨ref, _, hlock⟩
    · exact ⟨rfl, fun l hl _ ↦ hl⟩
    · obtain ⟨hnow, hmem, _⟩ := processWithLock_eq_some hlock
      refine ⟨hnow, fun l hl hlocked ↦ ?_⟩
      rcases hmem l hl with rfl | hl
      · cases hlocked
      · exact hl
  rw [hpoll, Collection.lockIds, List.map_eq_nil_iff, List.filter_eq_nil_iff]
  intro l hl hlocked
  obtain ⟨l₁, hl₁, heq⟩ := List.mem_filterMap.mp hl
  simp only [cleanupStaleLocks, Option.map_some, Option.some.injEq] at heq
  subst heq
  dsimp only at hlocked
  split at hlocked
  · cases hlocked
  · next hkept =>
    obtain ⟨t, ht, hpast⟩ := hstale l₁ (hlocks.2 l₁ hl₁ hlocked) hlocked
    rw [← hlocks.1] at hpast
    simp [hlocked, ht, hpast] at hkept

end

/-! ### The steps of a pass -/

/-- A poller's step. -/
def pollerStep (_ : Life P) (l : Label P) : Prop := l.byPoller = true

section
variable (box : Box) (cfg : Config)

/-- A sweep of a row is a step of its machine, or none. -/
theorem sweep_steps (s : Life P) (write : Row P → Option (Row P)) (l : Label P)
    (hl : l.byPoller = true) (hstep : ∀ r, write s.row = some r →
      ∃ s', step box cfg s l = some s' ∧ s'.row = r) :
    ∃ ls s', Run (step box cfg) pollerStep s ls s' ∧ s'.row = (write s.row).getD s.row := by
  cases hwrite : write s.row with
  | none => exact ⟨[], s, .nil, rfl⟩
  | some r =>
    obtain ⟨s', hs', hrow⟩ := hstep r hwrite
    exact ⟨[l], s', .snoc .nil hl hs', hrow⟩

/-- The sweeps of a pass are steps of the row's machine. -/
theorem swept_steps (now : Nat) (s : Life P) :
    ∃ ls s', Run (step box cfg) pollerStep s ls s' ∧ s'.row = swept cfg now s.row := by
  obtain ⟨ls₁, s₁, hrun₁, hrow₁⟩ := sweep_steps box cfg s updateResubmittedEvents .resubmitted rfl
    fun r hr ↦ ⟨{ s with row := r }, by simp [step, hr], rfl⟩
  obtain ⟨ls₂, s₂, hrun₂, hrow₂⟩ := sweep_steps box cfg s₁ updateFailedEvents .failed rfl
    fun r hr ↦ ⟨{ s₁ with row := r }, by simp [step, hr], rfl⟩
  obtain ⟨ls₃, s₃, hrun₃, hrow₃⟩ := sweep_steps box cfg s₂ (updateDeadEvents cfg) .dead rfl
    fun r hr ↦ ⟨s₂.swept r, by simp [step, hr], rfl⟩
  obtain ⟨ls₄, s₄, hrun₄, hrow₄⟩ := sweep_steps box cfg s₃ (processExpiredEvents now)
    (.expire now) rfl fun r hr ↦ ⟨s₃.swept r, by simp [step, hr], rfl⟩
  refine ⟨_, s₄, ((hrun₁.append hrun₂).append hrun₃).append hrun₄, ?_⟩
  rw [hrow₄, hrow₃, hrow₂, hrow₁]
  rfl

/-- A claim and its handler's write are steps of the row's machine. -/
theorem written_steps {token : Token} {ref : String} {now : Nat} {doc : Row P} {s : Life P}
    (href : ref ≠ "") (hclaim : claimEvents cfg token ref now s.row = some doc)
    (thrown : Option (Option Failure)) :
    ∃ ls s', Run (step box cfg) pollerStep s ls s' ∧ s'.row = written box cfg now doc thrown := by
  obtain ⟨_, _, _, _, hdoc⟩ := claimEvents_eq_some hclaim
  have howner : doc.claimedBy = some token := by rw [hdoc]
  have hclaimed : step box cfg s (.claim token ref now) = some ⟨doc,
      ⟨token, Entry.fromDocument box doc, false⟩ :: s.handlers.map Handler.lose, s.found⟩ := by
    simp only [step, href, if_false, hclaim, Option.map_some]
  have hrun : Run (step box cfg) pollerStep s [.claim token ref now] _ := .snoc .nil rfl hclaimed
  cases thrown with
  | none =>
    refine ⟨_, _, hrun.snoc (l := Label.complete 0 now .answered) rfl rfl, ?_⟩
    simp only [Life.afterUpdate, update, howner, if_true, Option.getD_some]
    rfl
  | some error =>
    refine ⟨_, _, hrun.snoc (l := Label.fail 0 error now .answered) rfl rfl, ?_⟩
    simp only [Life.afterUpdate, update, howner, if_true, Option.getD_some]
    rfl

end

/-- What a turn does to a row are poller's steps of the row's own machine. -/
theorem turn_steps (box : Box) (cfg : QueueConfig) (out : Outside P) (c : Collection P)
    (t : Turn) {k : Nat} {s : Life P} (hs : rowAt c.rows k = some s.row) :
    ∃ ls s', Run (step box cfg.toConfig) pollerStep s ls s' ∧
      rowAt (turn box cfg out c t).rows k = some s'.row := by
  cases t with
  | wait ms => exact ⟨[], s, .nil, hs⟩
  | poll thrown =>
    rcases poll_row box cfg out.order (out.randomUUID c) thrown c k with
      hrow | ⟨r, hr, hfind, hinvalid, hrow⟩ | ⟨r, doc, ref, hr, href, hclaim, _, hrow⟩
    · obtain ⟨ls, s', hrun, hswept⟩ := swept_steps box cfg.toConfig c.now s
      refine ⟨ls, s', hrun, ?_⟩
      rw [hswept]
      exact hrow.trans (congrArg (Option.map _) hs)
    · obtain rfl := Option.some.inj (hs.symm.trans hr)
      have hfound : step box cfg.toConfig s (.find c.lockIds) =
          some { s with found := s.found + 1 } := by
        simp only [step, hfind, hinvalid, Bool.not_false, Bool.and_self, if_true]
      have hrun : Run (step box cfg.toConfig) pollerStep s [.find c.lockIds] _ :=
        .snoc .nil rfl hfound
      exact ⟨_, _, hrun.snoc (l := Label.deadLetter) rfl rfl, hrow⟩
    · obtain rfl := Option.some.inj (hs.symm.trans hr)
      obtain ⟨ls₁, s₁, hrun₁, hrow₁⟩ := written_steps box cfg.toConfig href hclaim (thrown k)
      obtain ⟨ls₂, s₂, hrun₂, hrow₂⟩ := swept_steps box cfg.toConfig c.now s₁
      refine ⟨_, s₂, hrun₁.append hrun₂, ?_⟩
      rw [hrow₂, hrow₁]
      exact hrow

/-- So are those of any number of turns. -/
theorem turns_steps (box : Box) (cfg : QueueConfig) (out : Outside P) (ts : List Turn)
    {c : Collection P} {k : Nat} {s : Life P} (hs : rowAt c.rows k = some s.row) :
    ∃ ls s', Run (step box cfg.toConfig) pollerStep s ls s' ∧
      rowAt (ts.foldl (turn box cfg out) c).rows k = some s'.row := by
  induction ts generalizing c s with
  | nil => exact ⟨[], s, .nil, hs⟩
  | cons t ts ih =>
    obtain ⟨ls₁, s₁, hrun₁, hrow₁⟩ := turn_steps box cfg out c t hs
    obtain ⟨ls₂, s₂, hrun₂, hrow₂⟩ := ih hrow₁
    exact ⟨_, s₂, hrun₁.append hrun₂, hrow₂⟩

end FgGas.Events
