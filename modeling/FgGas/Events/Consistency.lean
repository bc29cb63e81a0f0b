import FgGas.Events.Poller

/-!
# Status and claim columns agree

The invariant every later result on a row rests on: a row is `PROCESSING` exactly while
its claim columns are set, and a row without an ordering key is never claimed at all, so
its only handler-free life is between the sweeps, the operators and `deadLetterEvent`.
-/

namespace FgGas.Events

open Machine

variable {P : Type}

/-- The row carries no claim and does not look claimed. -/
structure Row.AtRest (r : Row P) : Prop where
  claimedBy : r.claimedBy = none
  claimExpiresAt : r.claimExpiresAt = none
  status : r.status ≠ .processing

/-- The row carries a claim and looks claimed. -/
structure Row.Claimed (r : Row P) : Prop where
  claimedBy : r.claimedBy ≠ none
  claimExpiresAt : r.claimExpiresAt ≠ none
  status : r.status = .processing

/-- `ref` is the ordering key the row was inserted with. -/
structure Consistent (ref : Option String) (s : Life P) : Prop where
  ref_eq : s.row.segregationRef = ref
  claim : s.row.Claimed ∨ s.row.AtRest
  entry_ref : ∀ h ∈ s.handlers, h.entry.segregationRef = ref
  found : 0 < s.found → validSegregationRef ref = false
  legacy : validSegregationRef ref = false →
    s.handlers = [] ∧ s.row.status ≠ .completed ∧ s.row.status ≠ .processing

theorem Row.released_atRest (r : Row P) {status : Status} (h : status ≠ .processing) :
    (r.released status).AtRest := ⟨rfl, rfl, h⟩

/-- A row that is not `PROCESSING` carries no claim. -/
theorem Consistent.atRest {ref : Option String} {s : Life P} (hs : Consistent ref s)
    (h : s.row.status ≠ .processing) : s.row.AtRest :=
  hs.claim.resolve_left fun hc ↦ h hc.status

/-- A `PROCESSING` row carries its claim. -/
theorem Consistent.claimed {ref : Option String} {s : Life P} (hs : Consistent ref s)
    (h : s.row.status = .processing) : s.row.Claimed :=
  hs.claim.resolve_right fun hr ↦ hr.status h

/-- A row with an owner is `PROCESSING`. -/
theorem Consistent.claimed_of_owner {ref : Option String} {s : Life P} (hs : Consistent ref s)
    {token : Token} (h : s.row.claimedBy = some token) : s.row.Claimed :=
  hs.claim.resolve_right fun hr ↦ by simp [hr.claimedBy] at h

/-- A new row starts consistent. -/
theorem consistent_inserted (box : Box) (event : P) (ref : Option String) :
    Consistent ref (Life.inserted box event ref) where
  ref_eq := rfl
  claim := .inr ⟨rfl, rfl, by simp [Life.inserted, Row.inserted]⟩
  entry_ref := by simp [Life.inserted]
  found := by simp [Life.inserted]
  legacy := by simp [Life.inserted, Row.inserted]

/-- Writes that leave the row at rest, its key as it was and not completed, keep the
invariant, whether or not they mark the handlers lost. -/
theorem Consistent.of_atRest {ref : Option String} {s s' : Life P} (hs : Consistent ref s)
    (href : s'.row.segregationRef = s.row.segregationRef) (hrest : s'.row.AtRest)
    (hdone : s'.row.status ≠ .completed)
    (hh : s'.handlers = s.handlers ∨ s'.handlers = s.handlers.map Handler.lose)
    (hf : s'.found ≤ s.found) : Consistent ref s' where
  ref_eq := href.trans hs.ref_eq
  claim := .inr hrest
  entry_ref := by
    intro h hm
    rcases hh with he | he
    · exact hs.entry_ref h (he ▸ hm)
    · rw [he] at hm
      obtain ⟨k, hk, rfl⟩ := List.mem_map.mp hm
      exact hs.entry_ref k hk
  found := fun h ↦ hs.found (Nat.lt_of_lt_of_le h hf)
  legacy := by
    intro hl
    have hnil := (hs.legacy hl).1
    rw [hnil] at hh
    exact ⟨by simpa using hh, hdone, hrest.status⟩

/-- A handler's step keeps the invariant when the marked copy keeps the ordering key and
is not `PROCESSING`. -/
theorem HandlerStep.consistent {box : Box} {ref : Option String} {s s' : Life P}
    {k : Handler P} {i : Nat} {entry : Entry P} (h : HandlerStep box s s' k i entry)
    (href : entry.segregationRef = k.entry.segregationRef)
    (hstatus : s'.row = s.row ∨ entry.status ≠ .processing) (hs : Consistent ref s) :
    Consistent ref s' := by
  have hk := hs.entry_ref k h.mem_running
  have hvalid : validSegregationRef ref ≠ false := by
    intro hl
    have hm := h.mem_running
    rw [(hs.legacy hl).1] at hm
    exact absurd hm List.not_mem_nil
  have hrow : s'.row = s.row ∨ (entry.status ≠ .processing ∧ s'.row = entry.setOn box s.row) := by
    rcases hstatus with he | hp
    · exact .inl he
    · rcases h.row with he | he
      · exact .inl he
      · rcases afterUpdate_cases box s entry k.token with ⟨_, ha⟩ | ⟨_, ha⟩
        · exact .inr ⟨hp, he.trans ha⟩
        · exact .inl (he.trans ha)
  refine ⟨?_, ?_, ?_, ?_, fun hl ↦ absurd hl hvalid⟩
  · rcases hrow with he | ⟨_, he⟩
    · rw [he, hs.ref_eq]
    · rw [he, segregationRef_setOn, href, hk]
  · rcases hrow with he | ⟨hp, he⟩
    · rw [he]
      exact hs.claim
    · rw [he]
      exact .inr ⟨rfl, rfl, hp⟩
  · intro x hx
    rcases h.mem hx with hm | rfl
    · exact hs.entry_ref x hm
    · exact href.trans hk
  · rw [h.found]
    exact hs.found

/-- Every step keeps the status and the claim columns in agreement. -/
theorem step_consistent {box : Box} {cfg : Config} {ref : Option String} {s s' : Life P}
    {l : Label P} (hs : Consistent ref s) (h : step box cfg s l = some s') :
    Consistent ref s' := by
  cases l with
  | claim token key now =>
    obtain ⟨hkey, r, hc, rfl⟩ := claim_step h
    obtain ⟨_, _, _, hr, rfl⟩ := claimEvents_eq_some hc
    have href : ref = some key := hs.ref_eq.symm.trans hr
    refine ⟨hs.ref_eq, .inl ⟨by simp, by simp, rfl⟩, ?_, hs.found, ?_⟩
    · intro x hx
      rcases List.mem_cons.mp hx with rfl | hx
      · exact hs.ref_eq
      · obtain ⟨k, hk, rfl⟩ := List.mem_map.mp hx
        exact hs.entry_ref k hk
    · intro hl
      simp [href, validSegregationRef, hkey] at hl
  | complete i now reply =>
    obtain ⟨k, hk⟩ := complete_step h
    exact hk.consistent rfl (.inr (by simp)) hs
  | fail i error now reply =>
    obtain ⟨k, hk⟩ := fail_step h
    refine hk.consistent (by simp) (.inr ?_) hs
    rcases status_markAsFailed box error now k.entry with he | he <;> simp [he]
  | crash i =>
    obtain ⟨k, hk, rfl⟩ := Option.map_eq_some_iff.mp h
    have hstep : HandlerStep box s { s with handlers := s.handlers.eraseIdx i } k i k.entry :=
      ⟨hk, .inl rfl, .inl rfl, rfl⟩
    exact hstep.consistent rfl (.inl rfl) hs
  | expire now =>
    obtain ⟨r, hr, rfl⟩ := Option.map_eq_some_iff.mp h
    obtain ⟨_, _, rfl⟩ := processExpiredEvents_eq_some hr
    exact hs.of_atRest rfl ⟨rfl, rfl, by simp [Life.swept, Row.released]⟩
      (by simp [Life.swept, Row.released]) (.inr rfl) (Nat.le_refl _)
  | dead =>
    obtain ⟨r, hr, rfl⟩ := Option.map_eq_some_iff.mp h
    obtain ⟨_, _, rfl⟩ := updateDeadEvents_eq_some hr
    exact hs.of_atRest rfl (Row.released_atRest _ (by simp)) (by simp [Life.swept, Row.released])
      (.inr rfl) (Nat.le_refl _)
  | failed =>
    obtain ⟨r, hr, rfl⟩ := Option.map_eq_some_iff.mp h
    obtain ⟨_, rfl⟩ := updateFailedEvents_eq_some hr
    exact hs.of_atRest rfl (Row.released_atRest _ (by simp)) (by simp [Row.released])
      (.inl rfl) (Nat.le_refl _)
  | resubmitted =>
    obtain ⟨r, hr, rfl⟩ := Option.map_eq_some_iff.mp h
    obtain ⟨_, rfl⟩ := updateResubmittedEvents_eq_some hr
    exact hs.of_atRest rfl (Row.released_atRest _ (by simp)) (by simp [Row.released])
      (.inl rfl) (Nat.le_refl _)
  | redrive operator now =>
    obtain ⟨r, hr, rfl⟩ := Option.map_eq_some_iff.mp h
    obtain ⟨_, rfl⟩ := redriveById_eq_some hr
    exact hs.of_atRest rfl ⟨rfl, rfl, by simp [Row.released]⟩ (by simp [Row.released])
      (.inl rfl) (Nat.le_refl _)
  | purge operator reasonCode note now =>
    obtain ⟨r, hr, rfl⟩ := Option.map_eq_some_iff.mp h
    obtain ⟨hd, rfl⟩ := purgeById_eq_some hr
    have hrest := hs.atRest (by simp [hd])
    exact hs.of_atRest rfl ⟨hrest.claimedBy, hrest.claimExpiresAt, by simp⟩ (by simp)
      (.inl rfl) (Nat.le_refl _)
  | edit edit now =>
    obtain ⟨r, hr, rfl⟩ := Option.map_eq_some_iff.mp h
    obtain ⟨hd, _, rfl⟩ := editPayloadById_eq_some hr
    have hp : s.row.status ≠ .processing := fun he ↦ by simp [he, redrivable] at hd
    have hc : s.row.status ≠ .completed := fun he ↦ by simp [he, redrivable] at hd
    have hrest := hs.atRest hp
    exact hs.of_atRest rfl ⟨hrest.claimedBy, hrest.claimExpiresAt, hp⟩ hc (.inl rfl)
      (Nat.le_refl _)
  | find lockIds =>
    obtain ⟨hv, rfl⟩ := find_step h
    exact ⟨hs.ref_eq, hs.claim, hs.entry_ref, fun _ ↦ hs.ref_eq ▸ hv, hs.legacy⟩
  | deadLetter =>
    obtain ⟨_, rfl⟩ := deadLetter_step h
    exact hs.of_atRest rfl (Row.released_atRest _ (by simp))
      (by simp [deadLetterEvent, Row.released]) (.inl rfl) (Nat.sub_le _ _)

/-- The columns agree in every reachable state. -/
theorem run_consistent {box : Box} {cfg : Config} {event : P} {ref : Option String}
    {ok : Life P → Label P → Prop} {ls : List (Label P)} {s : Life P}
    (h : Run (step box cfg) ok (Life.inserted box event ref) ls s) : Consistent ref s :=
  h.invariant _ (consistent_inserted box event ref) fun _ _ _ hs _ ↦ step_consistent hs

end FgGas.Events
