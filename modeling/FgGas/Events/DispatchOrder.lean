import FgGas.Events.Queue

/-!
# The order of dispatch

An event is dispatched in order when every earlier event that was stored as it was claimed is
settled. Claims are made earliest first, but only among the rows that can be claimed, and a batch
goes on whatever becomes of its events: order is kept as long as nothing earlier is passed over by
a claim, left behind by the batch, or brought back by an operator.
-/

namespace FgGas.Events

open Machine

variable {P : Type}

/-- Completed, dead-lettered or purged. -/
def Queued.settled (q : Queued P) : Bool := sweepExcluded q.row.status

/-- The row was stored when the item was claimed, and its event is earlier. -/
def BatchItem.After (c : BatchItem P) (i : Nat) (q : Queued P) : Prop :=
  i < c.stored ∧ q.eventTime < c.eventTime

instance (c : BatchItem P) (i : Nat) (q : Queued P) : Decidable (c.After i q) :=
  inferInstanceAs (Decidable (_ ∧ _))

/-- What a poller has claimed and not yet dispatched. -/
def Phase.waiting : Phase P → List (BatchItem P)
  | .working _ _ batch => batch
  | .handling _ _ _ _ batch => batch
  | _ => []

/-- What a poller has dispatched last, its handler running. -/
def Phase.current : Phase P → List Nat
  | .handling _ c _ _ _ => [c.index]
  | _ => []

/-- The event that the poller dispatches next is in order. -/
def InOrder (s : Queue P) (w : Nat) : Prop :=
  ∀ token c batch, s.pollers[w]? = some (.working token 0 (c :: batch)) →
    ∀ i q, s.rows[i]? = some q → c.After i q → q.settled = true

/-- A handler's end leaves its row as it should, if a later event waits in the batch. -/
def EndsInTurn (s : Queue P) (w : Nat) (ok : Token → Queued P → Bool) : Prop :=
  match s.pollers[w]? with
  | some (.handling token c _ _ batch) =>
      ∀ q ∈ s.rows[c.index]?, (∃ d ∈ batch, d.After c.index q) → ok token q = true
  | _ => True

instance (s : Queue P) (w : Nat) (ok : Token → Queued P → Bool) :
    Decidable (EndsInTurn s w ok) := by
  unfold EndsInTurn
  split <;> infer_instance

/-- The steps that keep the order. A claim passes no earlier row over: each is settled, can itself
be claimed, or waits in the same batch. A batch in which a later event waits goes on only from an
event that its handler's end leaves settled. A row is redriven only while no later event waits. -/
def InTurn (cfg : QueueConfig) (s : Queue P) : QueueLabel P → Prop
  | .claim w i =>
      ∀ phase ∈ s.pollers[w]?, ∀ q ∈ s.rows[i]?, ∀ j < s.rows.length, ∀ p ∈ s.rows[j]?,
        p.eventTime < q.eventTime → p.settled = true ∨ claimable cfg.toConfig p.row = true ∨
          j ∈ phase.waiting.map BatchItem.index
  | .complete w .answered =>
      EndsInTurn s w fun token q ↦ q.row.claimedBy = some token || q.settled
  | .fail w error .answered =>
      EndsInTurn s w fun token q ↦
        if q.row.claimedBy = some token then !isRetryableFailure error else q.settled
  | .write i (.redrive _) =>
      ∀ q ∈ s.rows[i]?, ∀ phase ∈ s.pollers, ∀ c ∈ phase.waiting, ¬ c.After i q
  | _ => True

instance (cfg : QueueConfig) (s : Queue P) (l : QueueLabel P) : Decidable (InTurn cfg s l) := by
  unfold InTurn
  split <;> infer_instance

/-- The waiting events are in order but for the rows dispatched before them in the same batch. -/
def ClearAfter (rows : List (Queued P)) : List Nat → List (BatchItem P) → Prop
  | _, [] => True
  | before, c :: cs =>
      (∀ i q, rows[i]? = some q → c.After i q → q.settled = true ∨ i ∈ before) ∧
        ClearAfter rows (c.index :: before) cs

/-- What keeps the order: a claimed row is being processed, and the events that wait are clear. -/
structure Orderly (s : Queue P) : Prop where
  claimed : ∀ q ∈ s.rows, q.row.claimedBy ≠ none → q.row.status = .processing
  stored : ∀ phase ∈ s.pollers, ∀ c ∈ phase.waiting, c.stored ≤ s.rows.length
  clear : ∀ phase ∈ s.pollers, ClearAfter s.rows phase.current phase.waiting

/-! ## Clear batches -/

section
variable {rows rows' : List (Queued P)} {before before' : List Nat} {cs : List (BatchItem P)}

/-- A batch stays clear when the rows it waits for were so before. -/
theorem ClearAfter.of_rows (h : ClearAfter rows before cs)
    (hrows : ∀ c ∈ cs, ∀ i q', rows'[i]? = some q' → c.After i q' → q'.settled = false →
      ∃ q, rows[i]? = some q ∧ c.After i q ∧ q.settled = false) :
    ClearAfter rows' before cs := by
  induction cs generalizing before with
  | nil => trivial
  | cons c cs ih =>
    refine ⟨fun i q' hq' hafter ↦ ?_, ih h.2 fun d hd ↦ hrows d (List.mem_cons_of_mem _ hd)⟩
    by_cases hset : q'.settled = true
    · exact .inl hset
    · obtain ⟨q, hq, hafter', hunset⟩ :=
        hrows c List.mem_cons_self i q' hq' hafter (by simpa using hset)
      refine (h.1 i q hq hafter').imp_left fun hs ↦ ?_
      rw [hunset] at hs
      cases hs

/-- A row of the batch that is settled, or that no waiting event is later than, may be left out. -/
theorem ClearAfter.of_before (i : Nat) (h : ClearAfter rows before cs)
    (hbefore : ∀ j ∈ before, j = i ∨ j ∈ before')
    (hi : ∀ c ∈ cs, ∀ q, rows[i]? = some q → c.After i q → q.settled = true) :
    ClearAfter rows before' cs := by
  induction cs generalizing before before' with
  | nil => trivial
  | cons c cs ih =>
    refine ⟨fun j q hq hafter ↦ ?_, ih h.2 ?_ fun d hd ↦ hi d (List.mem_cons_of_mem _ hd)⟩
    · rcases h.1 j q hq hafter with hs | hmem
      · exact .inl hs
      · rcases hbefore j hmem with rfl | hmem
        · exact .inl (hi c List.mem_cons_self q hq hafter)
        · exact .inr hmem
    · intro j hj
      rcases List.mem_cons.mp hj with rfl | hj
      · exact .inr List.mem_cons_self
      · exact (hbefore j hj).imp_right (List.mem_cons_of_mem _)

/-- An event joins a batch whose rows are all that it may have to wait for. -/
theorem ClearAfter.concat {c : BatchItem P} (h : ClearAfter rows before cs)
    (hc : ∀ i q, rows[i]? = some q → c.After i q →
      q.settled = true ∨ i ∈ before ∨ i ∈ cs.map BatchItem.index) :
    ClearAfter rows before (cs ++ [c]) := by
  induction cs generalizing before with
  | nil =>
    refine ⟨fun i q hq hafter ↦ (hc i q hq hafter).imp_right fun h ↦ ?_, trivial⟩
    exact h.resolve_right List.not_mem_nil
  | cons d cs ih =>
    refine ⟨h.1, ih h.2 fun i q hq hafter ↦ (hc i q hq hafter).imp_right fun h ↦ ?_⟩
    rw [List.map_cons, List.mem_cons] at h
    rw [List.mem_cons]
    tauto

end

/-! ## Rows that do not come back -/

/-- No row that was settled is unsettled, and no unsettled row has moved in the order. -/
def Kept (rows rows' : List (Queued P)) : Prop :=
  ∀ i < rows.length, ∀ q', rows'[i]? = some q' → q'.settled = false →
    ∃ q, rows[i]? = some q ∧ q.settled = false ∧ q.eventTime = q'.eventTime

section
variable {rows rows' : List (Queued P)}

theorem Kept.refl (rows : List (Queued P)) : Kept rows rows :=
  fun _ _ q' hq' hset ↦ ⟨q', hq', hset, rfl⟩

theorem kept_append (rows : List (Queued P)) (q : Queued P) : Kept rows (rows ++ [q]) := by
  intro i hi q' hq' hset
  rw [List.getElem?_append_left hi] at hq'
  exact ⟨q', hq', hset, rfl⟩

/-- One row is written: settled, or left unsettled where it was. -/
theorem kept_set {i : Nat} {q q' : Queued P} (hq : rows[i]? = some q)
    (h : q'.settled = true ∨ q.settled = false ∧ q.eventTime = q'.eventTime) :
    Kept rows (rows.set i q') := by
  intro j hj p hp hset
  by_cases hij : i = j
  · subst hij
    rw [List.getElem?_set_self hj] at hp
    obtain rfl := Option.some.inj hp
    refine ⟨q, hq, h.resolve_left fun hs ↦ ?_⟩
    rw [hset] at hs
    cases hs
  · rw [List.getElem?_set_ne hij] at hp
    exact ⟨p, hp, hset, rfl⟩

theorem ClearAfter.kept {before : List Nat} {cs : List (BatchItem P)}
    (h : ClearAfter rows before cs) (hkept : Kept rows rows')
    (hstored : ∀ c ∈ cs, c.stored ≤ rows.length) : ClearAfter rows' before cs := by
  refine h.of_rows fun c hc i q' hq' hafter hset ↦ ?_
  have hi := Nat.lt_of_lt_of_le hafter.1 (hstored c hc)
  obtain ⟨q, hq, hunset, htime⟩ := hkept i hi q' hq' hset
  exact ⟨q, hq, ⟨hafter.1, htime ▸ hafter.2⟩, hunset⟩

end

/-- Rows that do not come back, with a poller gone to a phase that is clear, keep the order. -/
theorem Orderly.of_kept {s s' : Queue P} (hs : Orderly s) (hkept : Kept s.rows s'.rows)
    (hlen : s.rows.length ≤ s'.rows.length)
    (hclaimed : ∀ q ∈ s'.rows, q.row.claimedBy ≠ none → q.row.status = .processing)
    (hphase : ∀ phase ∈ s'.pollers, phase ∈ s.pollers ∨
      (∀ c ∈ phase.waiting, c.stored ≤ s'.rows.length) ∧
        ClearAfter s'.rows phase.current phase.waiting) : Orderly s' where
  claimed := hclaimed
  stored := by
    intro phase hmem c hc
    rcases hphase phase hmem with hold | hnew
    · exact Nat.le_trans (hs.stored phase hold c hc) hlen
    · exact hnew.1 c hc
  clear := by
    intro phase hmem
    rcases hphase phase hmem with hold | hnew
    · exact (hs.clear phase hold).kept hkept (hs.stored phase hold)
    · exact hnew.2

/-- A poller goes to a phase that is clear of the same rows. -/
theorem Orderly.setPhase {s : Queue P} (hs : Orderly s) (w : Nat) {phase : Phase P}
    (hstored : ∀ c ∈ phase.waiting, c.stored ≤ s.rows.length)
    (hclear : ClearAfter s.rows phase.current phase.waiting) : Orderly (s.setPhase w phase) :=
  hs.of_kept (Kept.refl _) (Nat.le_refl _) hs.claimed fun p hp ↦ by
    rcases List.mem_or_eq_of_mem_set hp with hold | rfl
    · exact .inl hold
    · exact .inr ⟨hstored, hclear⟩

/-- A poller that waits for nothing is clear. -/
theorem Orderly.setPhase_nil {s : Queue P} (hs : Orderly s) (w : Nat) {phase : Phase P}
    (hnil : phase.waiting = []) : Orderly (s.setPhase w phase) := by
  refine hs.setPhase w (fun c hc ↦ ?_) ?_
  · rw [hnil] at hc
    cases hc
  · rw [hnil]
    trivial

/-- The lock and the clock do not matter. -/
theorem Orderly.congr {s s' : Queue P} (hs : Orderly s) (hrows : s'.rows = s.rows)
    (hpollers : s'.pollers = s.pollers) : Orderly s' where
  claimed := hrows ▸ hs.claimed
  stored := hrows ▸ hpollers ▸ hs.stored
  clear := hrows ▸ hpollers ▸ hs.clear

/-! ## What a write does -/

/-- A write of a sweep or an operator, a redrive apart, settles the row or leaves it where it is. -/
theorem RowWrite.settled_or {cfg : Config} {now : Nat} {q q' : Queued P} {x : RowWrite P}
    (h : x.apply cfg now q = some q') (hx : ∀ operator, x ≠ .redrive operator) :
    q'.settled = true ∨ q.settled = false ∧ q.eventTime = q'.eventTime := by
  cases x with
  | expire =>
    obtain ⟨r, hr, rfl⟩ := Option.map_eq_some_iff.mp h
    exact .inr ⟨(processExpiredEvents_eq_some hr).1, rfl⟩
  | dead =>
    obtain ⟨r, hr, rfl⟩ := Option.map_eq_some_iff.mp h
    exact .inr ⟨(updateDeadEvents_eq_some hr).1, rfl⟩
  | failed =>
    obtain ⟨r, hr, rfl⟩ := Option.map_eq_some_iff.mp h
    refine .inr ⟨?_, rfl⟩
    rw [Queued.settled, (updateFailedEvents_eq_some hr).1]
    rfl
  | resubmitted =>
    obtain ⟨r, hr, rfl⟩ := Option.map_eq_some_iff.mp h
    refine .inr ⟨?_, rfl⟩
    rw [Queued.settled, (updateResubmittedEvents_eq_some hr).1]
    rfl
  | redrive operator => exact absurd rfl (hx operator)
  | purge operator reasonCode note =>
    obtain ⟨r, hr, rfl⟩ := Option.map_eq_some_iff.mp h
    left
    rw [Queued.settled, (purgeById_eq_some hr).2]
    rfl
  | edit change eventTime =>
    obtain ⟨r, hr, rfl⟩ := Option.map_eq_some_iff.mp h
    obtain ⟨hstatus, -, rfl⟩ := editPayloadById_eq_some hr
    left
    show sweepExcluded q.row.status = true
    revert hstatus
    cases q.row.status <;> decide

/-- A write of a sweep or an operator leaves no claim, where only a row that is being processed
had one. -/
theorem RowWrite.claimed {cfg : Config} {now : Nat} {q q' : Queued P} {x : RowWrite P}
    (h : x.apply cfg now q = some q')
    (hq : q.row.claimedBy ≠ none → q.row.status = .processing) :
    q'.row.claimedBy = none := by
  cases x with
  | expire =>
    obtain ⟨r, hr, rfl⟩ := Option.map_eq_some_iff.mp h
    obtain ⟨-, -, rfl⟩ := processExpiredEvents_eq_some hr
    rfl
  | dead =>
    obtain ⟨r, hr, rfl⟩ := Option.map_eq_some_iff.mp h
    obtain ⟨-, -, rfl⟩ := updateDeadEvents_eq_some hr
    rfl
  | failed =>
    obtain ⟨r, hr, rfl⟩ := Option.map_eq_some_iff.mp h
    obtain ⟨-, rfl⟩ := updateFailedEvents_eq_some hr
    rfl
  | resubmitted =>
    obtain ⟨r, hr, rfl⟩ := Option.map_eq_some_iff.mp h
    obtain ⟨-, rfl⟩ := updateResubmittedEvents_eq_some hr
    rfl
  | redrive operator =>
    obtain ⟨r, hr, rfl⟩ := Option.map_eq_some_iff.mp h
    obtain ⟨-, rfl⟩ := redriveById_eq_some hr
    rfl
  | purge operator reasonCode note =>
    obtain ⟨r, hr, rfl⟩ := Option.map_eq_some_iff.mp h
    obtain ⟨hstatus, rfl⟩ := purgeById_eq_some hr
    by_contra hne
    rw [hq hne] at hstatus
    cases hstatus
  | edit change eventTime =>
    obtain ⟨r, hr, rfl⟩ := Option.map_eq_some_iff.mp h
    obtain ⟨hstatus, -, rfl⟩ := editPayloadById_eq_some hr
    by_contra hne
    rw [hq hne] at hstatus
    cases hstatus

/-- The row a handler's write leaves: the marked entry's when the claim still stands. -/
theorem Queue.update_get {s : Queue P} {i j : Nat} {entry : Entry P} {token : Token}
    {q' : Queued P} (h : (s.update i entry token)[j]? = some q') :
    ∃ q, s.rows[j]? = some q ∧ q.eventTime = q'.eventTime ∧
      if i = j ∧ q.row.claimedBy = some token then q'.row = entry.setOn .inbox q.row
      else q' = q := by
  rw [Queue.update, List.getElem?_modify] at h
  obtain ⟨q, hq, rfl⟩ := Option.map_eq_some_iff.mp h
  refine ⟨q, hq, ?_, ?_⟩
  · split <;> rfl
  · by_cases hij : i = j
    · by_cases hheld : q.row.claimedBy = some token
      · simp only [hij, hheld, Events.update, if_true, and_self, Option.getD_some]
      · simp only [hij, hheld, Events.update, if_true, if_false, and_false, Option.getD_none]
    · simp only [hij, if_false, false_and]

/-- Only a row that is being processed is written by a handler, so none comes back. -/
theorem Orderly.kept_update {s : Queue P} (hs : Orderly s) (i : Nat) (entry : Entry P)
    (token : Token) : Kept s.rows (s.update i entry token) := by
  intro j _ q' hq' hset
  obtain ⟨q, hq, htime, hrow⟩ := Queue.update_get hq'
  refine ⟨q, hq, ?_, htime⟩
  split at hrow
  · next hheld =>
    have hstatus := hs.claimed q (List.mem_of_getElem? hq) (by simp [hheld.2])
    rw [Queued.settled, hstatus]
    rfl
  · rw [← hrow, hset]

theorem Orderly.claimed_update {s : Queue P} (hs : Orderly s) (i : Nat) (entry : Entry P)
    (token : Token) : ∀ q ∈ s.update i entry token, q.row.claimedBy ≠ none →
      q.row.status = .processing := by
  intro q' hmem hne
  obtain ⟨j, hj⟩ := List.getElem?_of_mem hmem
  obtain ⟨q, hq, -, hrow⟩ := Queue.update_get hj
  split at hrow
  · rw [hrow] at hne
    exact absurd rfl hne
  · rw [hrow] at hne ⊢
    exact hs.claimed q (List.mem_of_getElem? hq) hne

/-- A handler's write, with its poller gone to a phase that is clear. -/
theorem Orderly.update {s : Queue P} (hs : Orderly s) (w i : Nat) (entry : Entry P)
    (token : Token) {phase : Phase P} (hstored : ∀ c ∈ phase.waiting, c.stored ≤ s.rows.length)
    (hclear : ClearAfter (s.update i entry token) phase.current phase.waiting) :
    Orderly { s.setPhase w phase with rows := s.update i entry token } := by
  have hlen : (s.update i entry token).length = s.rows.length := List.length_modify ..
  refine hs.of_kept (hs.kept_update i entry token) (Nat.le_of_eq hlen.symm)
    (hs.claimed_update i entry token) fun p hp ↦ ?_
  rcases List.mem_or_eq_of_mem_set hp with hold | rfl
  · exact .inl hold
  · exact .inr ⟨fun c hc ↦ by rw [hlen]; exact hstored c hc, hclear⟩

/-- A handler's end from which the batch goes on in turn. -/
theorem Orderly.ends {s : Queue P} (hs : Orderly s) {w : Nat} {token : Token} {c : BatchItem P}
    {entry marked : Entry P} {caught : Bool} {batch : List (BatchItem P)}
    {ok : Token → Queued P → Bool}
    (hw : s.pollers[w]? = some (.handling token c entry caught batch)) (hok : EndsInTurn s w ok)
    (hends : ∀ q, ok token q = true →
      if q.row.claimedBy = some token then sweepExcluded marked.status = true
      else q.settled = true) :
    Orderly { s.setPhase w (.working token 0 batch) with
      rows := s.update c.index marked token } := by
  have hmem := List.mem_of_getElem? hw
  have hstored := hs.stored _ hmem
  refine hs.update w c.index marked token hstored ?_
  have hkept := (hs.clear _ hmem).kept (hs.kept_update c.index marked token) hstored
  refine hkept.of_before c.index (fun j hj ↦ .inl (List.mem_singleton.mp hj)) ?_
  intro d hd q' hq' hafter
  obtain ⟨q, hq, htime, hrow⟩ := Queue.update_get hq'
  unfold EndsInTurn at hok
  rw [hw] at hok
  have hq_ok := hends q (hok q hq ⟨d, hd, hafter.1, htime ▸ hafter.2⟩)
  split at hrow
  · next hheld =>
    rw [if_pos hheld.2] at hq_ok
    rw [Queued.settled, hrow]
    exact hq_ok
  · next hlost =>
    rw [if_neg fun hheld ↦ hlost ⟨rfl, hheld⟩] at hq_ok
    rw [hrow]
    exact hq_ok

/-- A claim made in turn: what is passed over is settled or waits in the batch, since what can be
claimed is not earlier. -/
theorem Orderly.claim {cfg : QueueConfig} {ref : String} {s s' : Queue P} {w i : Nat}
    (hs : Orderly s) (hok : InTurn cfg s (.claim w i))
    (h : queueStep cfg ref s (.claim w i) = some s') : Orderly s' := by
  simp only [queueStep] at h
  split at h
  · next token left batch q hw hq =>
    split at h
    · next hfirst =>
      obtain ⟨r, hr, rfl⟩ := Option.map_eq_some_iff.mp h
      obtain ⟨hstatus, -, -, -, hrow⟩ := claimEvents_eq_some hr
      have hmem := List.mem_of_getElem? hw
      have hunset : q.settled = false := by
        rw [Queued.settled, hstatus]
        rfl
      have hkept : Kept s.rows (s.rows.set i { q with row := r }) :=
        kept_set hq (.inr ⟨hunset, rfl⟩)
      refine hs.of_kept hkept (Nat.le_of_eq List.length_set.symm) ?_ fun p hp ↦ ?_
      · intro p hp hne
        rcases List.mem_or_eq_of_mem_set hp with hold | rfl
        · exact hs.claimed p hold hne
        · rw [hrow]
      rcases List.mem_or_eq_of_mem_set hp with hold | rfl
      · exact .inl hold
      right
      constructor
      · intro c hc
        rw [List.length_set]
        rcases List.mem_append.mp hc with hc | hc
        · exact hs.stored _ hmem c hc
        · obtain rfl := List.mem_singleton.mp hc
          exact Nat.le_refl _
      · have hclear : ClearAfter s.rows [] (batch ++ [⟨i, q.eventTime, s.rows.length, r⟩]) :=
          (hs.clear _ hmem).concat fun j p hp hafter ↦ by
            rcases hok _ (Option.mem_def.mpr hw) q (Option.mem_def.mpr hq) j hafter.1 p
              (Option.mem_def.mpr hp) hafter.2 with hset | hclaim | hbatch
            · exact .inl hset
            · have hle := hfirst p (List.mem_of_getElem? hp) hclaim
              exact absurd hafter.2 (Nat.not_lt.mpr hle)
            · exact .inr (.inr hbatch)
        refine hclear.kept hkept fun c hc ↦ ?_
        rcases List.mem_append.mp hc with hc | hc
        · exact hs.stored _ hmem c hc
        · obtain rfl := List.mem_singleton.mp hc
          exact Nat.le_refl _
    · cases h
  · cases h

/-- Every step in turn keeps the order. -/
theorem queueStep_orderly {cfg : QueueConfig} {ref : String} {s s' : Queue P}
    {l : QueueLabel P} (hs : Orderly s) (hok : InTurn cfg s l)
    (h : queueStep cfg ref s l = some s') : Orderly s' := by
  cases l with
  | tick ms =>
    cases h
    exact hs.congr rfl rfl
  | insert event eventTime =>
    cases h
    refine hs.of_kept (kept_append _ _) (by simp) (fun q hq hne ↦ ?_) fun p hp ↦ .inl hp
    rcases List.mem_append.mp hq with hold | hnew
    · exact hs.claimed q hold hne
    · rw [List.mem_singleton.mp hnew] at hne
      exact absurd rfl hne
  | available w lockIds =>
    simp only [queueStep] at h
    split at h
    · split at h
      · cases h
        exact hs.setPhase_nil w rfl
      · cases h
    · cases h
  | setFifoLock w token =>
    simp only [queueStep] at h
    split at h
    · split at h
      · cases h
        exact (hs.setPhase_nil w rfl).congr rfl rfl
      · cases h
        exact hs.setPhase_nil w rfl
    · cases h
  | claim w i => exact hs.claim hok h
  | claimNothing w =>
    simp only [queueStep] at h
    split at h
    · next token left batch hw =>
      have hmem := List.mem_of_getElem? hw
      have hstored : ∀ c ∈ batch, c.stored ≤ s.rows.length := hs.stored _ hmem
      have hclear : ClearAfter s.rows [] batch := hs.clear _ hmem
      split at h
      · cases h
      · cases h
        exact hs.setPhase w hstored hclear
    · cases h
  | claimThrows w =>
    simp only [queueStep] at h
    split at h
    · cases h
      exact hs.setPhase_nil w rfl
    · cases h
  | dispatch w =>
    simp only [queueStep] at h
    split at h
    · next token c batch hw =>
      have hmem := List.mem_of_getElem? hw
      cases h
      exact hs.setPhase w (fun d hd ↦ hs.stored _ hmem d (List.mem_cons_of_mem _ hd))
        (hs.clear _ hmem).2
    · cases h
  | complete w reply =>
    simp only [queueStep] at h
    split at h
    · next token c entry batch hw =>
      have hmem := List.mem_of_getElem? hw
      have hstored : ∀ d ∈ batch, d.stored ≤ s.rows.length := hs.stored _ hmem
      have hclear : ClearAfter s.rows [c.index] batch := hs.clear _ hmem
      cases reply with
      | answered =>
        cases h
        refine hs.ends hw hok fun q hq ↦ ?_
        split
        · rfl
        · next hlost => simpa [hlost] using hq
      | unanswered =>
        cases h
        exact hs.update w c.index _ token hstored
          (hclear.kept (hs.kept_update _ _ _) hstored)
      | refused =>
        cases h
        exact hs.setPhase w hstored hclear
    · cases h
  | fail w error reply =>
    simp only [queueStep] at h
    split at h
    · next token c entry caught batch hw =>
      cases reply with
      | answered =>
        cases h
        refine hs.ends hw hok fun q hq ↦ ?_
        split
        · next hheld =>
          have hretry : isRetryableFailure error = false := by simpa [hheld] using hq
          simp only [Entry.markAsFailed, Inbox.markAsFailed, Entry.recordFailure, hretry]
          rfl
        · next hlost => simpa [hlost] using hq
      | unanswered =>
        cases h
        exact hs.update w c.index _ token (fun d hd ↦ absurd hd List.not_mem_nil) trivial
      | refused =>
        cases h
        exact hs.setPhase_nil w rfl
    · cases h
  | freeFifoLock w =>
    simp only [queueStep] at h
    split at h
    · cases h
      exact (hs.setPhase_nil w rfl).congr rfl rfl
    · cases h
      exact (hs.setPhase_nil w rfl).congr rfl rfl
    · cases h
  | crash w =>
    obtain ⟨phase, -, rfl⟩ := Option.map_eq_some_iff.mp h
    exact hs.setPhase_nil w rfl
  | write i x =>
    obtain ⟨q, hq, h⟩ := Option.bind_eq_some_iff.mp h
    obtain ⟨q', hq', rfl⟩ := Option.map_eq_some_iff.mp h
    have hfree := x.claimed hq' (hs.claimed q (List.mem_of_getElem? hq))
    have hclaimed : ∀ p ∈ s.rows.set i q', p.row.claimedBy ≠ none →
        p.row.status = .processing := by
      intro p hp hne
      rcases List.mem_or_eq_of_mem_set hp with hold | rfl
      · exact hs.claimed p hold hne
      · exact absurd hfree hne
    by_cases hx : ∀ operator, x ≠ .redrive operator
    · exact hs.of_kept (kept_set hq (x.settled_or hq' hx)) (Nat.le_of_eq List.length_set.symm)
        hclaimed fun p hp ↦ .inl hp
    · -- A redriven row comes back where no later event waits.
      obtain ⟨operator, rfl⟩ : ∃ operator, x = .redrive operator := by
        by_contra hno
        exact hx fun operator heq ↦ hno ⟨operator, heq⟩
      have htime : q'.eventTime = q.eventTime := by
        obtain ⟨r, -, rfl⟩ := Option.map_eq_some_iff.mp hq'
        rfl
      refine ⟨hclaimed, fun p hp c hc ↦ ?_, fun p hp ↦ ?_⟩
      · show c.stored ≤ (s.rows.set i q').length
        rw [List.length_set]
        exact hs.stored p hp c hc
      refine (hs.clear p hp).of_rows fun c hc j p' hp' hafter hset ↦ ?_
      by_cases hij : i = j
      · subst hij
        obtain ⟨hlt, -⟩ := List.getElem?_eq_some_iff.mp hq
        rw [List.getElem?_set_self hlt] at hp'
        obtain rfl := Option.some.inj hp'
        exact absurd ⟨hafter.1, htime ▸ hafter.2⟩ (hok q (Option.mem_def.mpr hq) p hp c hc)
      · rw [List.getElem?_set_ne hij] at hp'
        exact ⟨p', hp', hafter, hset⟩
  | cleanupStaleLocks =>
    cases h
    exact hs.congr rfl rfl

/-- Nothing is claimed at the start. -/
theorem orderly_start (pollers now : Nat) : Orderly (Queue.start (P := P) pollers now) where
  claimed := fun _ hq ↦ absurd hq List.not_mem_nil
  stored := by
    intro phase hmem c hc
    rw [(List.mem_replicate.mp hmem).2] at hc
    exact absurd hc List.not_mem_nil
  clear := by
    intro phase hmem
    rw [(List.mem_replicate.mp hmem).2]
    trivial

/-- In a run whose steps are in turn, every event is dispatched in order. -/
theorem dispatched_in_order (cfg : QueueConfig) (ref : String) (pollers now : Nat)
    {ls : List (QueueLabel P)} {s s' : Queue P} {w : Nat}
    (h : Run (queueStep cfg ref) (InTurn cfg) (Queue.start pollers now) ls s)
    (_ : queueStep cfg ref s (.dispatch w) = some s') : InOrder s w := by
  have hs : Orderly s := h.invariant Orderly (orderly_start pollers now)
    fun _ _ _ hs hok hst ↦ queueStep_orderly hs hok hst
  intro token c batch hw i q hq hafter
  exact ((hs.clear _ (List.mem_of_getElem? hw)).1 i q hq hafter).resolve_right List.not_mem_nil

/-- Two events handled one after the other, the second claimed in the same batch. -/
theorem dispatched_in_order_batch :
    ∃ s s' : Queue Unit, exec (queueStep ⟨⟨3, 1000, 30⟩, 2, 5000⟩ "a") (Queue.start 1 0)
        [.insert () 2, .insert () 1, .available 0 [], .setFifoLock 0 7, .claim 0 1, .claim 0 0,
          .dispatch 0, .complete 0 .answered] = some s ∧
      queueStep ⟨⟨3, 1000, 30⟩, 2, 5000⟩ "a" s (.dispatch 0) = some s' ∧ InOrder s 0 := by
  have hrun : Run (queueStep ⟨⟨3, 1000, 30⟩, 2, 5000⟩ "a") (InTurn ⟨⟨3, 1000, 30⟩, 2, 5000⟩)
      (Queue.start (P := Unit) 1 0)
      [.insert () 2, .insert () 1, .available 0 [], .setFifoLock 0 7, .claim 0 1, .claim 0 0,
        .dispatch 0, .complete 0 .answered] _ := .of_exec_guarded rfl
  exact ⟨_, _, rfl, rfl, dispatched_in_order _ "a" 1 0 hrun rfl⟩

/-- The first of a batch fails and is to be retried; the second is dispatched all the same. -/
theorem dispatched_out_of_order :
    ∃ s s' : Queue Unit, exec (queueStep ⟨⟨3, 1000, 30⟩, 2, 5000⟩ "a") (Queue.start 1 0)
        [.insert () 1, .insert () 2, .available 0 [], .setFifoLock 0 7, .claim 0 0, .claim 0 1,
          .dispatch 0, .fail 0 none .answered] = some s ∧
      queueStep ⟨⟨3, 1000, 30⟩, 2, 5000⟩ "a" s (.dispatch 0) = some s' ∧ ¬ InOrder s 0 := by
  refine ⟨_, _, rfl, rfl, fun h ↦ ?_⟩
  have hset := h _ _ _ rfl 0 _ rfl ⟨by decide, by decide⟩
  revert hset
  decide

end FgGas.Events
