import FgGas.Events.ClaimFence

/-!
# A handler's copy while its claim stands

Nobody but the sweeps writes a claimed row, and a sweep takes the claim. So the handler
whose token the row carries holds the row as it stands, perhaps marked complete by a save
that failed.
-/

namespace FgGas.Events

open Machine

variable {P : Type}

/-- `entry` was read from `row`, and at most marked complete since. -/
def CopyOf (box : Box) (cfg : Config) (row : Row P) (entry : Entry P) : Prop :=
  entry = Entry.fromDocument box row ∨
    ∃ now, entry = (Entry.fromDocument box row).markAsComplete cfg now

/-- The handler whose token the row carries holds a copy of the row. -/
def Copied (box : Box) (cfg : Config) (s : Life P) : Prop :=
  ∀ k ∈ s.handlers, s.row.claimedBy = some k.token → CopyOf box cfg s.row k.entry

section
variable {box : Box} {cfg : Config} {row : Row P} {entry : Entry P}

theorem CopyOf.event (h : CopyOf box cfg row entry) : entry.event = row.event := by
  rcases h with rfl | ⟨_, rfl⟩ <;> rfl

theorem CopyOf.completionAttempts (h : CopyOf box cfg row entry) :
    entry.completionAttempts = row.completionAttempts := by
  rcases h with rfl | ⟨_, rfl⟩ <;> rfl

theorem CopyOf.attemptHistory (h : CopyOf box cfg row entry) :
    entry.attemptHistory = normaliseAttemptHistory row.attemptHistory := by
  rcases h with rfl | ⟨_, rfl⟩ <;> rfl

/-- Marking the copy complete leaves it a copy: the second marking wins. -/
theorem CopyOf.markAsComplete (h : CopyOf box cfg row entry) (now : Nat) :
    CopyOf box cfg row (entry.markAsComplete cfg now) := by
  rcases h with rfl | ⟨_, rfl⟩
  · exact .inr ⟨now, rfl⟩
  · exact .inr ⟨now, rfl⟩

end

/-- A recorded failure ends the handler. -/
theorem fail_handlers {box : Box} {cfg : Config} {s s' : Life P} {i now : Nat}
    {error : Option Failure} {reply : Reply}
    (h : step box cfg s (.fail i error now reply) = some s') :
    s'.handlers = s.handlers.eraseIdx i := by
  obtain ⟨k, _, rfl⟩ := Option.map_eq_some_iff.mp h
  cases reply <;> rfl

/-- The operators' rows are not being processed. -/
theorem ne_processing_of_redrivable {status : Status} (h : redrivable status = true) :
    status ≠ .processing := by
  rintro rfl
  cases h

/-- The tokens drawn by a run are the tokens drawn before its last step, and a new one if
that step draws one. -/
theorem nodup_filterMap_concat {ℓ : Type} {token : ℓ → Option Token} {ls : List ℓ} {l : ℓ}
    (h : ((ls ++ [l]).filterMap token).Nodup) :
    (ls.filterMap token).Nodup ∧ ∀ t, token l = some t → t ∉ ls.filterMap token := by
  rw [List.filterMap_append] at h
  obtain ⟨hold, _, hdisj⟩ := List.nodup_append.mp h
  refine ⟨hold, fun t ht hm ↦ ?_⟩
  exact hdisj t hm t (by simp [ht]) rfl

/-- A step that leaves the row unclaimed leaves nobody to hold a copy. -/
theorem Copied.of_unclaimed {box : Box} {cfg : Config} {s : Life P}
    (h : s.row.claimedBy = none) : Copied box cfg s :=
  fun _ _ hk ↦ by simp [h] at hk

/-- A handler's step keeps the copies, when all it leaves of its own is the copy marked
complete. -/
theorem HandlerStep.copied {box : Box} {cfg : Config} {s s' : Life P} {k : Handler P} {i : Nat}
    {entry : Entry P} (h : HandlerStep box s s' k i entry)
    (hmem : ∀ x ∈ s'.handlers, x ∈ s.handlers ∨
      ∃ now, x = { k with entry := k.entry.markAsComplete cfg now })
    (hs : Copied box cfg s) : Copied box cfg s' := by
  have hrow : s'.row = s.row ∨ s'.row.claimedBy = none := by
    rcases h.row with he | he
    · exact .inl he
    · rcases afterUpdate_cases box s entry k.token with ⟨_, ha⟩ | ⟨_, ha⟩
      · exact .inr (by rw [he, ha, claimedBy_setOn])
      · exact .inl (he.trans ha)
  rcases hrow with he | he
  · intro x hx hclaimed
    rw [he] at hclaimed ⊢
    rcases hmem x hx with hm | ⟨now, rfl⟩
    · exact hs x hm hclaimed
    · exact (hs k h.mem_running hclaimed).markAsComplete now
  · exact .of_unclaimed he

/-- Every step keeps the copies: a new claim is read as it is made, with a token of its
own, and every other write of the row takes the claim away. -/
theorem step_copied {box : Box} {cfg : Config} {ref : Option String} {used : List Token}
    {s s' : Life P} {l : Label P} (hc : Consistent ref s) (hf : Fenced used s)
    (hnew : ∀ token, l.token = some token → token ∉ used) (hs : Copied box cfg s)
    (hstep : step box cfg s l = some s') : Copied box cfg s' := by
  cases l with
  | claim token key now =>
    obtain ⟨_, r, hr, rfl⟩ := claim_step hstep
    obtain ⟨_, _, _, _, rfl⟩ := claimEvents_eq_some hr
    intro x hx hclaimed
    rcases List.mem_cons.mp hx with rfl | hx
    · exact .inl rfl
    · obtain ⟨k, hk, rfl⟩ := List.mem_map.mp hx
      have htoken : token = k.token := Option.some.inj hclaimed
      exact absurd (htoken ▸ hf.drawn k hk) (hnew token rfl)
  | complete i now reply =>
    obtain ⟨k, hk⟩ := complete_step hstep
    refine hk.copied (fun x hx ↦ ?_) hs
    exact (hk.mem hx).imp_right fun he ↦ ⟨now, he⟩
  | fail i error now reply =>
    obtain ⟨k, hk⟩ := fail_step hstep
    refine hk.copied (fun x hx ↦ .inl ?_) hs
    rw [fail_handlers hstep] at hx
    exact List.mem_of_mem_eraseIdx hx
  | crash i =>
    obtain ⟨k, hk, rfl⟩ := Option.map_eq_some_iff.mp hstep
    exact fun x hx ↦ hs x (List.mem_of_mem_eraseIdx hx)
  | expire now =>
    obtain ⟨r, hr, rfl⟩ := Option.map_eq_some_iff.mp hstep
    obtain ⟨_, _, rfl⟩ := processExpiredEvents_eq_some hr
    exact .of_unclaimed rfl
  | dead =>
    obtain ⟨r, hr, rfl⟩ := Option.map_eq_some_iff.mp hstep
    obtain ⟨_, _, rfl⟩ := updateDeadEvents_eq_some hr
    exact .of_unclaimed rfl
  | failed =>
    obtain ⟨r, hr, rfl⟩ := Option.map_eq_some_iff.mp hstep
    obtain ⟨_, rfl⟩ := updateFailedEvents_eq_some hr
    exact .of_unclaimed rfl
  | resubmitted =>
    obtain ⟨r, hr, rfl⟩ := Option.map_eq_some_iff.mp hstep
    obtain ⟨_, rfl⟩ := updateResubmittedEvents_eq_some hr
    exact .of_unclaimed rfl
  | redrive operator now =>
    obtain ⟨r, hr, rfl⟩ := Option.map_eq_some_iff.mp hstep
    obtain ⟨_, rfl⟩ := redriveById_eq_some hr
    exact .of_unclaimed rfl
  | purge operator reasonCode note now =>
    obtain ⟨r, hr, rfl⟩ := Option.map_eq_some_iff.mp hstep
    obtain ⟨hd, rfl⟩ := purgeById_eq_some hr
    exact .of_unclaimed (hc.atRest (by simp [hd])).claimedBy
  | edit edit now =>
    obtain ⟨r, hr, rfl⟩ := Option.map_eq_some_iff.mp hstep
    obtain ⟨hd, _, rfl⟩ := editPayloadById_eq_some hr
    exact .of_unclaimed (hc.atRest (ne_processing_of_redrivable hd)).claimedBy
  | find lockIds =>
    obtain ⟨_, rfl⟩ := find_step hstep
    exact hs
  | deadLetter =>
    obtain ⟨_, rfl⟩ := deadLetter_step hstep
    exact .of_unclaimed rfl

/-- The copies are true in every reachable state. -/
theorem run_copied {box : Box} {cfg : Config} {event : P} {ref : Option String}
    {ok : Life P → Label P → Prop} {ls : List (Label P)} {s : Life P}
    (h : Run (step box cfg) ok (Life.inserted box event ref) ls s)
    (htokens : (ls.filterMap Label.token).Nodup) : Copied box cfg s := by
  induction h with
  | nil => exact .of_unclaimed rfl
  | @snoc ls s s' l hrun _ hstep ih =>
    obtain ⟨hold, hnew⟩ := nodup_filterMap_concat htokens
    exact step_copied (run_consistent hrun) (run_fenced hrun hold) hnew (ih hold) hstep

end FgGas.Events
