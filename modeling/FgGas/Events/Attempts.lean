import FgGas.Events.Copies

/-!
# The attempts a row counts

A failure is counted twice over, in `completionAttempts` and in `attemptHistory`, and in two
places: on the handler's copy (`markAsFailed`) and by the expiry sweep on the stored row. The
tally below keeps the whole record since the last redrive, claim by claim; the row's two
columns are its length and its last ten entries.
-/

namespace FgGas.Events

open Machine

variable {P : Type}

/-! ### The last entries of a list -/

section
variable {α : Type} {n : Nat} {xs : List α}

theorem length_lastEntries : (lastEntries n xs).length = min xs.length n := by
  rw [lastEntries, List.length_drop]
  omega

theorem lastEntries_of_length_le (h : xs.length ≤ n) : lastEntries n xs = xs := by
  have hdrop : xs.length - n = 0 := by omega
  rw [lastEntries, hdrop, List.drop_zero]

/-- Capping before the append makes no difference. -/
theorem lastEntries_append (x : α) :
    lastEntries n (lastEntries n xs ++ [x]) = lastEntries n (xs ++ [x]) := by
  by_cases h : xs.length ≤ n
  · rw [lastEntries_of_length_le h]
  · have hdrop : xs.length + 1 - n = (xs.length - n) + 1 := by omega
    have hkept : (lastEntries n xs).length = n := by
      rw [length_lastEntries]
      omega
    have hsplit : xs ++ [x] = xs.take (xs.length - n) ++ (lastEntries n xs ++ [x]) := by
      rw [lastEntries, ← List.append_assoc, List.take_append_drop]
    have hlen : (xs.take (xs.length - n)).length = xs.length - n := by
      rw [List.length_take]
      omega
    have hskip : (xs.take (xs.length - n) ++ (lastEntries n xs ++ [x])).drop
        ((xs.take (xs.length - n)).length + 1) = (lastEntries n xs ++ [x]).drop 1 :=
      List.drop_length_add_append 1
    have hcap : (lastEntries n xs ++ [x]).length - n = 1 := by
      rw [List.length_append, hkept, List.length_singleton]
      omega
    calc lastEntries n (lastEntries n xs ++ [x])
        = (lastEntries n xs ++ [x]).drop 1 := by rw [lastEntries, hcap]
      _ = (xs.take (xs.length - n) ++ (lastEntries n xs ++ [x])).drop (xs.length - n + 1) := by
          rw [← hskip, hlen]
      _ = lastEntries n (xs ++ [x]) := by
          rw [← hsplit, lastEntries, List.length_append, List.length_singleton, hdrop]

end

/-! ### The tally -/

/-- A row and its record since the last redrive: its claims in order, and those that ended
in a recorded failure or an expiry, in the order they ended, with what was recorded. -/
structure Tally (P : Type) where
  life : Life P
  claims : List Token
  ended : List (Token × Attempt)
  deriving DecidableEq, Repr

/-- The claim a step ends in a recorded failure or an expiry. -/
def ending (s : Life P) : Label P → Option (Token × Attempt)
  | .expire now =>
      (processExpiredEvents now s.row).bind fun _ ↦
        s.row.claimedBy.map fun token ↦ (token, claimExpiredAttempt now)
  | .fail i error now reply =>
      s.handlers[i]?.bind fun k ↦
        if reply ≠ .refused ∧ s.row.claimedBy = some k.token then
          (toAttemptEntry error now).map fun attempt ↦ (k.token, attempt)
        else none
  | _ => none

/-- The record after a step to `life`; a redrive starts a new one. -/
def Tally.enter (s : Tally P) (l : Label P) (life : Life P) : Tally P :=
  match l with
  | .redrive .. => ⟨life, [], []⟩
  | _ => ⟨life, s.claims ++ l.token.toList, s.ended ++ (ending s.life l).toList⟩

/-- A step of the row, entered in its record. -/
def tallyStep (box : Box) (cfg : Config) (s : Tally P) (l : Label P) : Option (Tally P) :=
  (step box cfg s.life l).map (s.enter l)

/-- A failure with a falsy error: there is nothing to record of it. -/
def Label.throwsFalsy : Label P → Bool
  | .fail _ none _ _ => true
  | _ => false

/-- Every failing handler throws a truthy error. -/
def throwsTruthy (_ : Tally P) (l : Label P) : Prop := l.throwsFalsy = false

instance (s : Tally P) (l : Label P) : Decidable (throwsTruthy s l) :=
  inferInstanceAs (Decidable (l.throwsFalsy = false))

/-- A row just inserted, with nothing to record. -/
def Tally.inserted (box : Box) (event : P) (segregationRef : Option String) : Tally P :=
  ⟨Life.inserted box event segregationRef, [], []⟩

/-! ### What one step counts -/

/-- The row's count and history take in what a step ended. No claim is made, and the claim
that ended is the one the row carried, which it no longer does. -/
structure Counts (row row' : Row P) (ended : Option (Token × Attempt)) : Prop where
  completionAttempts : row'.completionAttempts = row.completionAttempts + ended.toList.length
  attemptHistory : row'.attemptHistory = appendAttempt row.attemptHistory (ended.map Prod.snd)
  claimedBy : row'.claimedBy = none ∨ row'.claimedBy = row.claimedBy
  claim : ∀ token attempt, ended = some (token, attempt) →
    row.claimedBy = some token ∧ row'.claimedBy = none

/-- The history is within its cap. -/
def Capped (row : Row P) : Prop := normaliseAttemptHistory row.attemptHistory = row.attemptHistory

section
variable {box : Box} {cfg : Config}

/-- Nothing is counted where the two columns stay. -/
theorem Counts.nothing {row row' : Row P} (hcap : Capped row)
    (hattempts : row'.completionAttempts = row.completionAttempts)
    (hhistory : row'.attemptHistory = row.attemptHistory)
    (hclaim : row'.claimedBy = none ∨ row'.claimedBy = row.claimedBy) : Counts row row' none :=
  ⟨hattempts, hhistory.trans hcap.symm, hclaim, fun _ _ h ↦ by cases h⟩

/-- A save of a copy marked complete counts nothing. -/
theorem HandlerStep.counts_complete {s s' : Life P} {k : Handler P} {i now : Nat}
    (h : HandlerStep box s s' k i (k.entry.markAsComplete cfg now)) (hcap : Capped s.row)
    (hs : Copied box cfg s) : Counts s.row s'.row none := by
  rcases h.row with he | he
  · rw [he]
    exact .nothing hcap rfl rfl (.inr rfl)
  · rcases afterUpdate_cases box s (k.entry.markAsComplete cfg now) k.token with
      ⟨hown, ha⟩ | ⟨_, ha⟩
    · have hcopy := hs k h.mem_running hown
      rw [he, ha]
      exact .nothing hcap hcopy.completionAttempts (hcopy.attemptHistory.trans hcap) (.inl rfl)
    · rw [he, ha]
      exact .nothing hcap rfl rfl (.inr rfl)

/-- The row after a recorded failure: written through the fence, unless the database
refused. -/
theorem fail_row {s s' : Life P} {i now : Nat} {error : Option Failure} {reply : Reply}
    (h : step box cfg s (.fail i error now reply) = some s') :
    ∃ k, s.handlers[i]? = some k ∧ s'.row =
      if reply = .refused then s.row
      else s.afterUpdate box (k.entry.markAsFailed box error now) k.token := by
  obtain ⟨k, hk, rfl⟩ := Option.map_eq_some_iff.mp h
  refine ⟨k, hk, ?_⟩
  cases reply <;> rfl

/-- A recorded failure counts the claim it ends, unless the claim was gone. -/
theorem fail_counts {s s' : Life P} {i now : Nat} {error : Option Failure} {reply : Reply}
    (h : step box cfg s (.fail i error now reply) = some s') (herror : error ≠ none)
    (hcap : Capped s.row) (hs : Copied box cfg s) :
    Counts s.row s'.row (ending s (.fail i error now reply)) := by
  obtain ⟨e, rfl⟩ := Option.ne_none_iff_exists'.mp herror
  obtain ⟨k, hk, hrow⟩ := fail_row h
  have hend : ending s (.fail i (some e) now reply) =
      if reply ≠ .refused ∧ s.row.claimedBy = some k.token then
        some (k.token, ⟨now, .thrown e⟩) else none := by
    simp only [ending, hk, Option.bind_some]
    rfl
  rw [hend, hrow]
  by_cases hreply : reply = .refused
  · rw [if_pos hreply, if_neg fun hc ↦ hc.1 hreply]
    exact .nothing hcap rfl rfl (.inr rfl)
  rw [if_neg hreply]
  rcases afterUpdate_cases box s (k.entry.markAsFailed box (some e) now) k.token with
    ⟨hown, ha⟩ | ⟨hlost, ha⟩
  · rw [if_pos ⟨hreply, hown⟩, ha]
    have hcopy := hs k (List.mem_of_getElem? hk) hown
    refine ⟨?_, ?_, .inl rfl, ?_⟩
    · have hcount : ((k.entry.markAsFailed box (some e) now).setOn box s.row).completionAttempts
          = k.entry.completionAttempts + 1 := by cases box <;> rfl
      rw [hcount, hcopy.completionAttempts]
      rfl
    · have hhistory : ((k.entry.markAsFailed box (some e) now).setOn box s.row).attemptHistory
          = appendAttempt k.entry.attemptHistory (some ⟨now, .thrown e⟩) := by cases box <;> rfl
      rw [hhistory, hcopy.attemptHistory, hcap]
      rfl
    · rintro token attempt he
      cases he
      exact ⟨hown, rfl⟩
  · rw [if_neg fun hc ↦ hlost hc.2, ha]
    exact .nothing hcap rfl rfl (.inr rfl)

/-- The expiry sweep counts the claim it takes. -/
theorem expire_counts {ref : Option String} {s s' : Life P} {now : Nat}
    (hc : Consistent ref s) (h : step box cfg s (.expire now) = some s') :
    Counts s.row s'.row (ending s (.expire now)) := by
  obtain ⟨r, hr, rfl⟩ := Option.map_eq_some_iff.mp h
  obtain ⟨_, ⟨t, ht, _⟩, hrow⟩ := processExpiredEvents_eq_some hr
  have hclaimed : s.row.Claimed :=
    hc.claim.resolve_right fun hrest ↦ by simp [hrest.claimExpiresAt] at ht
  obtain ⟨token, htoken⟩ := Option.ne_none_iff_exists'.mp hclaimed.claimedBy
  have hend : ending s (.expire now) = some (token, claimExpiredAttempt now) := by
    simp [ending, hr, htoken]
  rw [hend]
  subst hrow
  refine ⟨rfl, rfl, .inl rfl, ?_⟩
  rintro token' attempt he
  cases he
  exact ⟨htoken, rfl⟩

/-- Every step but a claim and a redrive counts exactly what it ends. -/
theorem step_counts {ref : Option String} {s s' : Life P} {l : Label P}
    (hc : Consistent ref s) (hs : Copied box cfg s) (hcap : Capped s.row)
    (herror : ∀ i error now reply, l = .fail i error now reply → error ≠ none)
    (hclaim : l.token = none) (hredrive : ∀ operator now, l ≠ .redrive operator now)
    (h : step box cfg s l = some s') : Counts s.row s'.row (ending s l) := by
  cases l with
  | claim token key now => cases hclaim
  | complete i now reply =>
    obtain ⟨k, hk⟩ := complete_step h
    exact hk.counts_complete hcap hs
  | fail i error now reply => exact fail_counts h (herror i error now reply rfl) hcap hs
  | crash i =>
    obtain ⟨k, hk, rfl⟩ := Option.map_eq_some_iff.mp h
    exact .nothing hcap rfl rfl (.inr rfl)
  | expire now => exact expire_counts hc h
  | dead =>
    obtain ⟨r, hr, rfl⟩ := Option.map_eq_some_iff.mp h
    obtain ⟨_, _, rfl⟩ := updateDeadEvents_eq_some hr
    exact .nothing hcap rfl rfl (.inl rfl)
  | failed =>
    obtain ⟨r, hr, rfl⟩ := Option.map_eq_some_iff.mp h
    obtain ⟨_, rfl⟩ := updateFailedEvents_eq_some hr
    exact .nothing hcap rfl rfl (.inl rfl)
  | resubmitted =>
    obtain ⟨r, hr, rfl⟩ := Option.map_eq_some_iff.mp h
    obtain ⟨_, rfl⟩ := updateResubmittedEvents_eq_some hr
    exact .nothing hcap rfl rfl (.inl rfl)
  | redrive operator now => exact absurd rfl (hredrive operator now)
  | purge operator reasonCode note now =>
    obtain ⟨r, hr, rfl⟩ := Option.map_eq_some_iff.mp h
    obtain ⟨_, rfl⟩ := purgeById_eq_some hr
    exact .nothing hcap rfl rfl (.inr rfl)
  | edit edit now =>
    obtain ⟨r, hr, rfl⟩ := Option.map_eq_some_iff.mp h
    obtain ⟨_, _, rfl⟩ := editPayloadById_eq_some hr
    exact .nothing hcap rfl rfl (.inr rfl)
  | find lockIds =>
    obtain ⟨_, rfl⟩ := find_step h
    exact .nothing hcap rfl rfl (.inr rfl)
  | deadLetter =>
    obtain ⟨_, rfl⟩ := deadLetter_step h
    exact .nothing hcap rfl rfl (.inl rfl)

/-! ### The row's columns and its record -/

/-- The row's columns agree with its record. An open claim is the last one made, and has
not ended. -/
structure Tallied (cfg : Config) (used : List Token) (s : Tally P) : Prop where
  completionAttempts : s.life.row.completionAttempts = s.ended.length
  attemptHistory : s.life.row.attemptHistory =
    lastEntries maxAttemptHistory (s.ended.map Prod.snd)
  bound : s.ended.length ≤ cfg.maxRetries
  claims : s.claims.Sublist used
  ended : (s.ended.map Prod.fst).Sublist s.claims
  opened : ∀ token, s.life.row.claimedBy = some token → s.ended.length < cfg.maxRetries ∧
    ∃ before, s.claims = before ++ [token] ∧ (s.ended.map Prod.fst).Sublist before

theorem Tallied.capped {used : List Token} {s : Tally P} (hs : Tallied cfg used s) :
    Capped s.life.row := by
  have hlen : (lastEntries maxAttemptHistory (s.ended.map Prod.snd)).length ≤
      maxAttemptHistory := by
    rw [length_lastEntries]
    omega
  rw [Capped, normaliseAttemptHistory, hs.attemptHistory, lastEntries_of_length_le hlen]

/-- What a step counts, the record takes in. -/
theorem Tallied.counted {used : List Token} {s : Tally P} {life : Life P}
    {ended : Option (Token × Attempt)} (hs : Tallied cfg used s)
    (h : Counts s.life.row life.row ended) :
    Tallied cfg used ⟨life, s.claims, s.ended ++ ended.toList⟩ := by
  cases ended with
  | none =>
    have hhistory : life.row.attemptHistory = s.life.row.attemptHistory :=
      h.attemptHistory.trans hs.capped
    simp only [Option.toList_none, List.append_nil]
    refine ⟨h.completionAttempts.trans hs.completionAttempts,
      hhistory.trans hs.attemptHistory, hs.bound, hs.claims, hs.ended, ?_⟩
    intro token htoken
    rcases h.claimedBy with he | he
    · simp [he] at htoken
    · exact hs.opened token (he ▸ htoken)
  | some pair =>
    obtain ⟨token, attempt⟩ := pair
    obtain ⟨hopen, hfree⟩ := h.claim token attempt rfl
    obtain ⟨hlt, before, hclaims, hbefore⟩ := hs.opened token hopen
    simp only [Option.toList_some]
    refine ⟨?_, ?_, ?_, hs.claims, ?_, ?_⟩
    · rw [h.completionAttempts, hs.completionAttempts, List.length_append]
      rfl
    · rw [h.attemptHistory, hs.attemptHistory, List.map_append]
      exact lastEntries_append attempt
    · rw [List.length_append, List.length_singleton]
      exact hlt
    · rw [hclaims, List.map_append]
      exact hbefore.append (List.Sublist.refl _)
    · intro token' htoken'
      simp [hfree] at htoken'

/-- Every step keeps columns and record in agreement. -/
theorem tallyStep_tallied {ref : Option String} {used : List Token} {s s' : Tally P}
    {l : Label P} (hc : Consistent ref s.life) (hcopied : Copied box cfg s.life)
    (hok : throwsTruthy s l) (hs : Tallied cfg used s)
    (h : tallyStep box cfg s l = some s') : Tallied cfg (used ++ l.token.toList) s' := by
  obtain ⟨life, hlife, rfl⟩ := Option.map_eq_some_iff.mp h
  by_cases hredrive : ∃ operator now, l = .redrive operator now
  · obtain ⟨operator, now, rfl⟩ := hredrive
    obtain ⟨r, hr, rfl⟩ := Option.map_eq_some_iff.mp hlife
    obtain ⟨_, rfl⟩ := redriveById_eq_some hr
    exact ⟨rfl, rfl, Nat.zero_le _, List.nil_sublist _, List.Sublist.refl _,
      fun token htoken ↦ by cases htoken⟩
  have hne : ∀ operator now, l ≠ .redrive operator now :=
    fun operator now he ↦ hredrive ⟨operator, now, he⟩
  have hentered : s.enter l life =
      ⟨life, s.claims ++ l.token.toList, s.ended ++ (ending s.life l).toList⟩ := by
    cases l with
    | redrive operator now => exact absurd rfl (hne operator now)
    | _ => rfl
  rw [hentered]
  cases hl : l.token with
  | none =>
    have herror : ∀ i error now reply, l = .fail i error now reply → error ≠ none := by
      rintro i error now reply rfl rfl
      cases hok
    simp only [Option.toList_none, List.append_nil]
    exact hs.counted (step_counts hc hcopied hs.capped herror hl hne hlife)
  | some token =>
    cases l with
    | claim t key now =>
      obtain rfl : t = token := Option.some.inj hl
      obtain ⟨_, r, hr, rfl⟩ := claim_step hlife
      obtain ⟨_, _, hlt, _, rfl⟩ := claimEvents_eq_some hr
      have hended : ending s.life (.claim t key now) = none := rfl
      rw [hended, Option.toList_none, List.append_nil, Option.toList_some]
      refine ⟨hs.completionAttempts, hs.attemptHistory, hs.bound,
        hs.claims.append (List.Sublist.refl _),
        hs.ended.trans (List.sublist_append_left _ _), ?_⟩
      intro token' htoken'
      obtain rfl : t = token' := Option.some.inj htoken'
      exact ⟨hs.completionAttempts ▸ hlt, s.claims, rfl, hs.ended⟩
    | _ => cases hl

/-- A run of the row with its record is a run of the row. -/
theorem run_recorded_life {event : P} {ref : Option String} {ok : Tally P → Label P → Prop}
    {ls : List (Label P)} {s : Tally P}
    (h : Run (tallyStep box cfg) ok (Tally.inserted box event ref) ls s) :
    Run (step box cfg) anyStep (Life.inserted box event ref) ls s.life := by
  induction h with
  | nil => exact .nil
  | @snoc ls s s' l _ _ hstep ih =>
    obtain ⟨life, hlife, rfl⟩ := Option.map_eq_some_iff.mp hstep
    have henter : (s.enter l life).life = life := by cases l <;> rfl
    exact .snoc ih trivial (henter.symm ▸ hlife)

/-- Every run of the row has its record. -/
theorem run_recorded {event : P} {ref : Option String} {ls : List (Label P)} {life : Life P}
    (h : Run (step box cfg) anyStep (Life.inserted box event ref) ls life) :
    ∃ s, Run (tallyStep box cfg) anyStep (Tally.inserted box event ref) ls s ∧
      s.life = life := by
  induction h with
  | nil => exact ⟨_, .nil, rfl⟩
  | @snoc ls life life' l _ _ hstep ih =>
    obtain ⟨s, hrun, rfl⟩ := ih
    have henter : (s.enter l life').life = life' := by cases l <;> rfl
    exact ⟨_, .snoc hrun trivial (Option.map_eq_some_iff.mpr ⟨life', hstep, rfl⟩), henter⟩

/-- Columns and record agree in every reachable state. -/
theorem run_tallied {event : P} {ref : Option String} {ls : List (Label P)} {s : Tally P}
    (h : Run (tallyStep box cfg) throwsTruthy (Tally.inserted box event ref) ls s)
    (htokens : (ls.filterMap Label.token).Nodup) :
    Tallied cfg (ls.filterMap Label.token) s := by
  induction h with
  | nil =>
    exact ⟨rfl, rfl, Nat.zero_le _, List.Sublist.refl _, List.Sublist.refl _,
      fun token htoken ↦ by cases htoken⟩
  | @snoc ls s s' l hrun hok hstep ih =>
    have hold := (nodup_filterMap_concat htokens).1
    have hlife := run_recorded_life hrun
    have hsplit : (ls ++ [l]).filterMap Label.token =
        ls.filterMap Label.token ++ l.token.toList := by
      rw [List.filterMap_append]
      cases hl : l.token <;> simp [hl]
    rw [hsplit]
    exact tallyStep_tallied (run_consistent hlife) (run_copied hlife hold) hok (ih hold) hstep

end

end FgGas.Events
