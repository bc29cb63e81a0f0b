import FgGas.Events.Consistency

/-!
# Status and deletion deadline agree

A finished row carries the deadline the TTL index reads, and no other row does. Every
writer keeps this but one: `deadLetterEvent` finds its row by `_id` alone, so a poller that
saw a row without an ordering key while it was `PUBLISHED` also dead-letters the row an
operator purged since, and leaves the purge's deadline on a row that is not finished.
-/

namespace FgGas.Events

open Machine

variable {P : Type}

/-- The deadline is set exactly on a finished row. -/
def Row.Scheduled (r : Row P) : Prop := r.expireAt ≠ none ↔ r.status.finished = true

/-- `deadLetterEvent` does not reach the row while it is purged. -/
def purgeRespected (s : Life P) (l : Label P) : Prop :=
  l = .deadLetter → s.row.status ≠ .purged

/-- An unfinished row carries no deadline. -/
theorem Row.Scheduled.expireAt {r : Row P} (h : r.Scheduled) (hs : r.status.finished = false) :
    r.expireAt = none := by
  by_contra hne
  rw [h.mp hne] at hs
  cases hs

/-- A row without a deadline is in order when it is not finished. -/
theorem scheduled_of_none {r : Row P} (he : r.expireAt = none)
    (hs : r.status.finished = false) : r.Scheduled :=
  ⟨fun h ↦ absurd he h, fun h ↦ by simp [hs] at h⟩

/-- A row with a deadline is in order when it is finished. -/
theorem scheduled_of_some {r : Row P} {t : Nat} (he : r.expireAt = some t)
    (hs : r.status.finished = true) : r.Scheduled :=
  ⟨fun _ ↦ hs, fun _ ↦ by simp [he]⟩

/-- The statuses the sweeps leave alone include the finished ones. -/
theorem finished_of_sweepExcluded {status : Status} (h : sweepExcluded status = false) :
    status.finished = false := by
  cases status <;> first | rfl | cases h

/-- A handler's fenced write keeps the agreement when its copy has it. -/
theorem HandlerStep.scheduled {box : Box} {s s' : Life P} {k : Handler P} {i : Nat}
    {entry : Entry P} (h : HandlerStep box s s' k i entry) (hs : s.row.Scheduled)
    (he : (entry.setOn box s.row).Scheduled) : s'.row.Scheduled := by
  rcases h.row with hr | hr
  · rw [hr]
    exact hs
  · rcases afterUpdate_cases box s entry k.token with ⟨_, ha⟩ | ⟨_, ha⟩
    · rw [hr, ha]
      exact he
    · rw [hr, ha]
      exact hs

theorem scheduled_complete (box : Box) (cfg : Config) (now : Nat) (e : Entry P) (r : Row P) :
    ((e.markAsComplete cfg now).setOn box r).Scheduled :=
  scheduled_of_some rfl rfl

theorem scheduled_fail (box : Box) (error : Option Failure) (now : Nat) (e : Entry P)
    (r : Row P) : ((e.markAsFailed box error now).setOn box r).Scheduled := by
  refine scheduled_of_none (by simp) ?_
  rcases status_markAsFailed box error now e with h | h <;> simp [h, Status.finished]

/-- Every step but a dead-lettering of a purged row keeps the agreement. -/
theorem step_scheduled {box : Box} {cfg : Config} {ref : Option String} {s s' : Life P}
    {l : Label P} (hc : Consistent ref s) (hs : s.row.Scheduled) (hok : purgeRespected s l)
    (h : step box cfg s l = some s') : s'.row.Scheduled := by
  cases l with
  | claim token key now =>
    obtain ⟨_, r, hr, rfl⟩ := claim_step h
    obtain ⟨hp, _, _, _, rfl⟩ := claimEvents_eq_some hr
    exact scheduled_of_none (hs.expireAt (by rw [hp]; rfl)) rfl
  | complete i now reply =>
    obtain ⟨k, hk⟩ := complete_step h
    exact hk.scheduled hs (scheduled_complete box cfg now k.entry s.row)
  | fail i error now reply =>
    obtain ⟨k, hk⟩ := fail_step h
    exact hk.scheduled hs (scheduled_fail box error now k.entry s.row)
  | crash i =>
    obtain ⟨_, _, rfl⟩ := Option.map_eq_some_iff.mp h
    exact hs
  | expire now =>
    obtain ⟨r, hr, rfl⟩ := Option.map_eq_some_iff.mp h
    obtain ⟨hx, _, rfl⟩ := processExpiredEvents_eq_some hr
    exact scheduled_of_none (hs.expireAt (finished_of_sweepExcluded hx)) rfl
  | dead =>
    obtain ⟨r, hr, rfl⟩ := Option.map_eq_some_iff.mp h
    obtain ⟨hx, _, rfl⟩ := updateDeadEvents_eq_some hr
    exact scheduled_of_none (hs.expireAt (finished_of_sweepExcluded hx)) rfl
  | failed =>
    obtain ⟨r, hr, rfl⟩ := Option.map_eq_some_iff.mp h
    obtain ⟨hf, rfl⟩ := updateFailedEvents_eq_some hr
    exact scheduled_of_none (hs.expireAt (by rw [hf]; rfl)) rfl
  | resubmitted =>
    obtain ⟨r, hr, rfl⟩ := Option.map_eq_some_iff.mp h
    obtain ⟨hf, rfl⟩ := updateResubmittedEvents_eq_some hr
    exact scheduled_of_none (hs.expireAt (by rw [hf]; rfl)) rfl
  | redrive operator now =>
    obtain ⟨r, hr, rfl⟩ := Option.map_eq_some_iff.mp h
    obtain ⟨_, rfl⟩ := redriveById_eq_some hr
    exact scheduled_of_none rfl rfl
  | purge operator reasonCode note now =>
    obtain ⟨r, hr, rfl⟩ := Option.map_eq_some_iff.mp h
    obtain ⟨_, rfl⟩ := purgeById_eq_some hr
    exact scheduled_of_some rfl rfl
  | edit edit now =>
    obtain ⟨r, hr, rfl⟩ := Option.map_eq_some_iff.mp h
    obtain ⟨_, _, rfl⟩ := editPayloadById_eq_some hr
    exact hs
  | find lockIds =>
    obtain ⟨_, rfl⟩ := find_step h
    exact hs
  | deadLetter =>
    obtain ⟨hf, rfl⟩ := deadLetter_step h
    have hp := hok rfl
    have hd := (hc.legacy (hc.found hf)).2.1
    refine scheduled_of_none (hs.expireAt ?_) rfl
    cases he : s.row.status <;> simp_all [Status.finished]

/-- No poller step moves a purged row, `deadLetterEvent` apart. -/
theorem step_purged {box : Box} {cfg : Config} {ref : Option String} {s s' : Life P}
    {l : Label P} (hc : Consistent ref s) (hp : s.row.status = .purged)
    (hok : purgeRespected s l) (hl : l.byPoller = true)
    (h : step box cfg s l = some s') : s'.row.status = .purged := by
  have hfree := (hc.atRest (by simp [hp])).claimedBy
  have hrow : ∀ {i : Nat} {k : Handler P} {entry : Entry P},
      HandlerStep box s s' k i entry → s'.row.status = .purged := by
    intro i k entry hk
    rcases hk.row with he | he
    · rw [he, hp]
    · rcases afterUpdate_cases box s entry k.token with ⟨hown, _⟩ | ⟨_, ha⟩
      · simp [hfree] at hown
      · rw [he, ha, hp]
  cases l with
  | claim token key now =>
    obtain ⟨_, r, hr, rfl⟩ := claim_step h
    obtain ⟨he, _⟩ := claimEvents_eq_some hr
    simp [hp] at he
  | complete i now reply =>
    obtain ⟨k, hk⟩ := complete_step h
    exact hrow hk
  | fail i error now reply =>
    obtain ⟨k, hk⟩ := fail_step h
    exact hrow hk
  | crash i =>
    obtain ⟨k, hk⟩ := crash_step h
    exact hrow hk
  | expire now =>
    obtain ⟨r, hr, rfl⟩ := Option.map_eq_some_iff.mp h
    obtain ⟨hx, _⟩ := processExpiredEvents_eq_some hr
    simp [hp, sweepExcluded] at hx
  | dead =>
    obtain ⟨r, hr, rfl⟩ := Option.map_eq_some_iff.mp h
    obtain ⟨hx, _⟩ := updateDeadEvents_eq_some hr
    simp [hp, sweepExcluded] at hx
  | failed =>
    obtain ⟨r, hr, rfl⟩ := Option.map_eq_some_iff.mp h
    obtain ⟨hf, _⟩ := updateFailedEvents_eq_some hr
    simp [hp] at hf
  | resubmitted =>
    obtain ⟨r, hr, rfl⟩ := Option.map_eq_some_iff.mp h
    obtain ⟨hf, _⟩ := updateResubmittedEvents_eq_some hr
    simp [hp] at hf
  | redrive operator now => cases hl
  | purge operator reasonCode note now => cases hl
  | edit edit now => cases hl
  | find lockIds =>
    obtain ⟨_, rfl⟩ := find_step h
    exact hp
  | deadLetter => exact absurd hp (hok rfl)

/-- As long as no `deadLetterEvent` reaches the row while it is purged, the deadline is set
exactly on a finished row and no poller moves a purged one. -/
theorem deadline_iff_finished (box : Box) (cfg : Config) (event : P) (ref : Option String)
    {ls : List (Label P)} {s : Life P}
    (h : Run (step box cfg) purgeRespected (Life.inserted box event ref) ls s) :
    (s.row.expireAt ≠ none ↔ s.row.status = .completed ∨ s.row.status = .purged) ∧
    ∀ l s', l.byPoller = true → purgeRespected s l → step box cfg s l = some s' →
      s.row.status = .purged → s'.row.status = .purged := by
  have hc : Consistent ref s := run_consistent h
  have hboth : Consistent ref s ∧ s.row.Scheduled :=
    h.invariant (fun s ↦ Consistent ref s ∧ s.row.Scheduled)
      ⟨consistent_inserted box event ref, scheduled_of_none rfl rfl⟩
      fun _ _ _ hs hok hst ↦ ⟨step_consistent hs.1 hst, step_scheduled hs.1 hs.2 hok hst⟩
  have hfinished : s.row.status.finished = true ↔
      s.row.status = .completed ∨ s.row.status = .purged := by
    cases s.row.status <;> simp [Status.finished]
  exact ⟨hboth.2.trans hfinished, fun l s' hl hok hst hp ↦ step_purged hc hp hok hl hst⟩

/-- A row with an ordering key, claimed, completed and so scheduled. -/
theorem deadline_iff_finished_completed :
    ∃ s, exec (step .inbox ⟨3, 1000, 90⟩) (Life.inserted .inbox () (some "app-1"))
      [.claim 1 "app-1" 0, .complete 0 5 .answered] = some s ∧
      (s.row.expireAt ≠ none ↔ s.row.status = .completed ∨ s.row.status = .purged) := by
  refine ⟨_, rfl, ?_⟩
  have hrun : Run (step .inbox ⟨3, 1000, 90⟩) purgeRespected
      (Life.inserted .inbox () (some "app-1")) [.claim 1 "app-1" 0, .complete 0 5 .answered] _ :=
    .snoc (.snoc .nil (fun h ↦ by cases h) rfl) (fun h ↦ by cases h) rfl
  exact (deadline_iff_finished .inbox ⟨3, 1000, 90⟩ () (some "app-1") hrun).1

/-- Two pollers find the same row without an ordering key; the second dead-letters it after
an operator purged it. -/
def purgedThenDeadLettered : List (Label Unit) :=
  [.find [], .find [], .deadLetter, .purge none "SENT_IN_ERROR" none 7, .deadLetter]

/-- The late dead-lettering moves a purged row and leaves its deadline behind. -/
theorem deadLetterEvent_unfenced :
    (∃ s s', exec (step .inbox ⟨3, 1000, 90⟩) (Life.inserted .inbox () none)
        (purgedThenDeadLettered.take 4) = some s ∧ s.row.status = .purged ∧
      step .inbox ⟨3, 1000, 90⟩ s .deadLetter = some s' ∧ s'.row.status = .deadLetter) ∧
    ∃ s, exec (step .inbox ⟨3, 1000, 90⟩) (Life.inserted .inbox () none)
        purgedThenDeadLettered = some s ∧
      ¬ (s.row.expireAt ≠ none ↔ s.row.status = .completed ∨ s.row.status = .purged) := by
  refine ⟨⟨_, _, rfl, rfl, rfl, rfl⟩, _, rfl, ?_⟩
  decide

end FgGas.Events
