import FgGas.Events.Consistency

/-!
# Status and completion date agree

A handler marks its copy complete before the write, and where the write throws it marks the same
copy failed, which takes the deletion deadline back but not the completion date. As long as no
such copy reaches the row it was claimed from, a row has a completion date exactly when it is
completed.
-/

namespace FgGas.Events

open Machine

variable {P : Type}

/-- The completion date is set exactly on a completed row. -/
def Row.Dated (r : Row P) : Prop := r.completionDate ≠ none ↔ r.status = .completed

/-- A failure is not recorded, from a copy that a completing write has failed to store, on a row
that the handler still holds. -/
def completionUndone (s : Life P) : Label P → Prop
  | .fail i _ _ reply => reply ≠ .refused → ∀ h ∈ s.handlers[i]?,
      s.row.claimedBy = some h.token → h.entry.completionDate = none
  | _ => True

instance (s : Life P) (l : Label P) : Decidable (completionUndone s l) := by
  cases l <;> unfold completionUndone <;> infer_instance

section
variable {r : Row P}

/-- A row that is not completed carries no completion date. -/
theorem Row.Dated.completionDate (h : r.Dated) (hs : r.status ≠ .completed) :
    r.completionDate = none := by
  by_contra hne
  exact hs (h.mp hne)

theorem dated_of_none (hd : r.completionDate = none) (hs : r.status ≠ .completed) : r.Dated :=
  ⟨fun h ↦ absurd hd h, fun h ↦ absurd h hs⟩

/-- The sweeps leave completed rows alone. -/
theorem ne_completed_of_sweepExcluded {status : Status} (h : sweepExcluded status = false) :
    status ≠ .completed := by
  rintro rfl
  cases h

theorem ne_completed_of_redrivable {status : Status} (h : redrivable status = true) :
    status ≠ .completed := by
  rintro rfl
  cases h

end

/-- A completed copy, stored, agrees. -/
theorem dated_complete (box : Box) (cfg : Config) (now : Nat) (e : Entry P) (r : Row P) :
    ((e.markAsComplete cfg now).setOn box r).Dated :=
  ⟨fun _ ↦ rfl, fun _ ↦ by simp [Entry.setOn, Entry.markAsComplete]⟩

theorem completionDate_markAsFailed (box : Box) (error : Option Failure) (now : Nat)
    (e : Entry P) : (e.markAsFailed box error now).completionDate = e.completionDate := by
  cases box <;> rfl

/-- A failed copy, stored, agrees if and only if it has not been marked complete before. -/
theorem dated_fail (box : Box) (error : Option Failure) (now : Nat) (e : Entry P) (r : Row P) :
    ((e.markAsFailed box error now).setOn box r).Dated ↔ e.completionDate = none := by
  have hstatus : ((e.markAsFailed box error now).setOn box r).status ≠ .completed := by
    rw [status_setOn]
    rcases status_markAsFailed box error now e with h | h <;> simp [h]
  have hdate : ((e.markAsFailed box error now).setOn box r).completionDate = e.completionDate :=
    completionDate_markAsFailed box error now e
  constructor
  · intro h
    exact hdate ▸ h.completionDate hstatus
  · exact fun h ↦ dated_of_none (hdate.trans h) hstatus

/-- Every step but the recording of a failure from a copy marked complete keeps the agreement. -/
theorem step_dated {box : Box} {cfg : Config} {ref : Option String} {s s' : Life P}
    {l : Label P} (hc : Consistent ref s) (hs : s.row.Dated) (hok : completionUndone s l)
    (h : step box cfg s l = some s') : s'.row.Dated := by
  cases l with
  | claim token key now =>
    obtain ⟨_, r, hr, rfl⟩ := claim_step h
    obtain ⟨hp, _, _, _, rfl⟩ := claimEvents_eq_some hr
    exact dated_of_none (hs.completionDate (by simp [hp])) (by simp)
  | complete i now reply =>
    obtain ⟨k, hk⟩ := complete_step h
    rcases hk.row with he | he
    · rw [he]
      exact hs
    · rcases afterUpdate_cases box s (k.entry.markAsComplete cfg now) k.token with ⟨_, ha⟩ | ⟨_, ha⟩
      · rw [he, ha]
        exact dated_complete box cfg now k.entry s.row
      · rw [he, ha]
        exact hs
  | fail i error now reply =>
    obtain ⟨k, hk, rfl⟩ := Option.map_eq_some_iff.mp h
    have hwritten : reply ≠ .refused →
        (s.afterUpdate box (k.entry.markAsFailed box error now) k.token).Dated := by
      intro hreply
      rcases afterUpdate_cases box s (k.entry.markAsFailed box error now) k.token with
        ⟨hclaimed, ha⟩ | ⟨_, ha⟩
      · rw [ha]
        exact (dated_fail box error now k.entry s.row).mpr (hok hreply k hk hclaimed)
      · rw [ha]
        exact hs
    cases reply with
    | answered => exact hwritten (by simp)
    | unanswered => exact hwritten (by simp)
    | refused => exact hs
  | crash i =>
    obtain ⟨_, _, rfl⟩ := Option.map_eq_some_iff.mp h
    exact hs
  | expire now =>
    obtain ⟨r, hr, rfl⟩ := Option.map_eq_some_iff.mp h
    obtain ⟨hx, _, rfl⟩ := processExpiredEvents_eq_some hr
    exact dated_of_none (hs.completionDate (ne_completed_of_sweepExcluded hx))
      (by simp [Life.swept, Row.released])
  | dead =>
    obtain ⟨r, hr, rfl⟩ := Option.map_eq_some_iff.mp h
    obtain ⟨hx, _, rfl⟩ := updateDeadEvents_eq_some hr
    exact dated_of_none (hs.completionDate (ne_completed_of_sweepExcluded hx))
      (by simp [Life.swept, Row.released])
  | failed =>
    obtain ⟨r, hr, rfl⟩ := Option.map_eq_some_iff.mp h
    obtain ⟨hf, rfl⟩ := updateFailedEvents_eq_some hr
    exact dated_of_none (hs.completionDate (by simp [hf])) (by simp [Row.released])
  | resubmitted =>
    obtain ⟨r, hr, rfl⟩ := Option.map_eq_some_iff.mp h
    obtain ⟨hf, rfl⟩ := updateResubmittedEvents_eq_some hr
    exact dated_of_none (hs.completionDate (by simp [hf])) (by simp [Row.released])
  | redrive operator now =>
    obtain ⟨r, hr, rfl⟩ := Option.map_eq_some_iff.mp h
    obtain ⟨hd, rfl⟩ := redriveById_eq_some hr
    exact dated_of_none (hs.completionDate (ne_completed_of_redrivable hd))
      (by simp [Row.released])
  | purge operator reasonCode note now =>
    obtain ⟨r, hr, rfl⟩ := Option.map_eq_some_iff.mp h
    obtain ⟨hd, rfl⟩ := purgeById_eq_some hr
    exact dated_of_none (hs.completionDate (by simp [hd])) (by simp)
  | edit edit now =>
    obtain ⟨r, hr, rfl⟩ := Option.map_eq_some_iff.mp h
    obtain ⟨_, _, rfl⟩ := editPayloadById_eq_some hr
    exact hs
  | find lockIds =>
    obtain ⟨_, rfl⟩ := find_step h
    exact hs
  | deadLetter =>
    obtain ⟨hf, rfl⟩ := deadLetter_step h
    have hne := (hc.legacy (hc.found hf)).2.1
    exact dated_of_none (hs.completionDate hne) (by simp [deadLetterEvent, Row.released])

/-- As long as no handler that has marked its copy complete records a failure on a row it still
holds, a row has a completion date exactly when it is completed. -/
theorem completionDate_iff_completed (box : Box) (cfg : Config) (event : P) (ref : Option String)
    {ls : List (Label P)} {s : Life P}
    (h : Run (step box cfg) completionUndone (Life.inserted box event ref) ls s) :
    s.row.completionDate ≠ none ↔ s.row.status = .completed := by
  have hboth : Consistent ref s ∧ s.row.Dated :=
    h.invariant (fun s ↦ Consistent ref s ∧ s.row.Dated)
      ⟨consistent_inserted box event ref, dated_of_none rfl (by simp [Life.inserted, Row.inserted])⟩
      fun _ _ _ hs hok hst ↦ ⟨step_consistent hs.1 hst, step_dated hs.1 hs.2 hok hst⟩
  exact hboth.2

/-- The completing write is stored but its answer lost; the failure then finds the claim gone. -/
theorem completionDate_iff_completed_unanswered :
    ∃ s, exec (step .inbox ⟨3, 1000, 90⟩) (Life.inserted .inbox () (some "app-1"))
      [.claim 1 "app-1" 0, .complete 0 5 .unanswered, .fail 0 none 6 .answered] = some s ∧
      (s.row.completionDate ≠ none ↔ s.row.status = .completed) := by
  refine ⟨_, rfl, ?_⟩
  have hrun : Run (step .inbox ⟨3, 1000, 90⟩) completionUndone
      (Life.inserted .inbox () (some "app-1"))
      [.claim 1 "app-1" 0, .complete 0 5 .unanswered, .fail 0 none 6 .answered] _ :=
    .of_exec_guarded rfl
  exact completionDate_iff_completed .inbox ⟨3, 1000, 90⟩ () (some "app-1") hrun

/-- The completing write is not stored; the failure recorded next leaves its completion date. -/
theorem completionDate_kept_by_failure :
    ∃ s, exec (step .inbox ⟨3, 1000, 90⟩) (Life.inserted .inbox () (some "app-1"))
      [.claim 1 "app-1" 0, .complete 0 5 .refused, .fail 0 none 6 .answered] = some s ∧
      s.row.status = .failed ∧
      ¬ (s.row.completionDate ≠ none ↔ s.row.status = .completed) := by
  refine ⟨_, rfl, rfl, ?_⟩
  decide

end FgGas.Events
