import Mathlib.Data.List.Nodup
import FgGas.Events.Consistency

/-!
# The claim token fences late handlers

With the claims of a row drawing distinct tokens, the token column tells the handlers of a
row apart: a handler that lost its claim, to the expiry sweep, the dead-letter sweep or a
later claim, never finds its own token on the row again.
-/

namespace FgGas.Events

open Machine

variable {P : Type}

/-- What the tokens drawn so far say about the row and its handlers. -/
structure Fenced (used : List Token) (s : Life P) : Prop where
  drawn : ∀ h ∈ s.handlers, h.token ∈ used
  owner : ∀ token, s.row.claimedBy = some token → token ∈ used
  distinct : (s.handlers.map Handler.token).Nodup
  lost : ∀ h ∈ s.handlers, h.lost = true → s.row.claimedBy ≠ some h.token

theorem tokens_map_lose (hs : List (Handler P)) :
    (hs.map Handler.lose).map Handler.token = hs.map Handler.token := by
  rw [List.map_map]
  rfl

/-- A step that draws no token is judged by the tokens drawn before. -/
theorem Fenced.tokenless {used : List Token} {s : Life P} {l : Label P}
    (hl : l.token = none) (h : Fenced used s) : Fenced (used ++ l.token.toList) s := by
  rw [hl, Option.toList_none, List.append_nil]
  exact h

/-- A write that leaves the row unclaimed keeps the fence. -/
theorem Fenced.of_unclaimed {used : List Token} {s s' : Life P} (h : Fenced used s)
    (hrow : s'.row.claimedBy = none)
    (hh : s'.handlers = s.handlers ∨ s'.handlers = s.handlers.map Handler.lose) :
    Fenced used s' := by
  have htokens : s'.handlers.map Handler.token = s.handlers.map Handler.token := by
    rcases hh with he | he
    · rw [he]
    · rw [he, tokens_map_lose]
  refine ⟨?_, by simp [hrow], htokens ▸ h.distinct, fun x _ _ ↦ by simp [hrow]⟩
  intro x hx
  have hm : x.token ∈ s.handlers.map Handler.token := htokens ▸ List.mem_map_of_mem hx
  obtain ⟨k, hk, he⟩ := List.mem_map.mp hm
  exact he ▸ h.drawn k hk

/-- A handler's own step keeps the fence: it leaves the row alone or unclaimed. -/
theorem HandlerStep.fenced {used : List Token} {box : Box} {s s' : Life P} {k : Handler P}
    {i : Nat} {entry : Entry P} (hk : HandlerStep box s s' k i entry) (h : Fenced used s) :
    Fenced used s' := by
  have hrow : s'.row = s.row ∨ s'.row.claimedBy = none := by
    rcases hk.row with he | he
    · exact .inl he
    · rcases afterUpdate_cases box s entry k.token with ⟨_, ha⟩ | ⟨_, ha⟩
      · exact .inr (by rw [he, ha, claimedBy_setOn])
      · exact .inl (he.trans ha)
  have htoken : ∀ x ∈ s'.handlers, ∃ y ∈ s.handlers, y.token = x.token ∧ y.lost = x.lost := by
    intro x hx
    rcases hk.mem hx with hm | rfl
    · exact ⟨x, hm, rfl, rfl⟩
    · exact ⟨k, hk.mem_running, rfl, rfl⟩
  refine ⟨?_, ?_, h.distinct.sublist hk.tokens_sublist, ?_⟩
  · intro x hx
    obtain ⟨y, hy, ht, _⟩ := htoken x hx
    exact ht ▸ h.drawn y hy
  · intro token ht
    rcases hrow with he | he
    · exact h.owner token (he ▸ ht)
    · simp [he] at ht
  · intro x hx hl
    obtain ⟨y, hy, ht, hly⟩ := htoken x hx
    rcases hrow with he | he
    · rw [he, ← ht]
      exact h.lost y hy (hly.trans hl)
    · simp [he]

/-- A claim with a token not drawn before makes its handler the only owner. -/
theorem Fenced.claim {used : List Token} {s : Life P} (h : Fenced used s) {token : Token}
    (hnew : token ∉ used) {row : Row P} (hrow : row.claimedBy = some token)
    (entry : Entry P) :
    Fenced (used ++ [token])
      ⟨row, ⟨token, entry, false⟩ :: s.handlers.map Handler.lose, s.found⟩ := by
  have hdrawn : ∀ x ∈ s.handlers.map Handler.lose, x.token ∈ used := by
    intro x hx
    obtain ⟨k, hk, rfl⟩ := List.mem_map.mp hx
    exact h.drawn k hk
  refine ⟨?_, ?_, ?_, ?_⟩
  · intro x hx
    rcases List.mem_cons.mp hx with rfl | hx
    · simp
    · exact List.mem_append_left _ (hdrawn x hx)
  · intro t ht
    rw [hrow] at ht
    exact List.mem_append_right _ (by simpa using ht.symm)
  · refine List.nodup_cons.mpr ⟨?_, tokens_map_lose s.handlers ▸ h.distinct⟩
    intro hm
    obtain ⟨x, hx, he⟩ := List.mem_map.mp hm
    have hxt : x.token = token := he
    exact hnew (hxt ▸ hdrawn x hx)
  · intro x hx hl
    rcases List.mem_cons.mp hx with rfl | hx
    · cases hl
    · intro he
      rw [hrow, Option.some.injEq] at he
      exact hnew (he ▸ hdrawn x hx)

/-- Every step keeps the fence, a claim when its token is new. -/
theorem step_fenced {box : Box} {cfg : Config} {ref : Option String} {used : List Token}
    {s s' : Life P} {l : Label P} (hc : Consistent ref s) (h : Fenced used s)
    (hnew : ∀ token, l.token = some token → token ∉ used)
    (hstep : step box cfg s l = some s') : Fenced (used ++ l.token.toList) s' := by
  cases l with
  | claim token key now =>
    obtain ⟨_, r, hr, rfl⟩ := claim_step hstep
    obtain ⟨_, _, _, _, rfl⟩ := claimEvents_eq_some hr
    exact h.claim (hnew token rfl) rfl _
  | complete i now reply =>
    obtain ⟨k, hk⟩ := complete_step hstep
    exact .tokenless rfl (hk.fenced h)
  | fail i error now reply =>
    obtain ⟨k, hk⟩ := fail_step hstep
    exact .tokenless rfl (hk.fenced h)
  | crash i =>
    obtain ⟨k, hk⟩ := crash_step hstep
    exact .tokenless rfl (hk.fenced h)
  | expire now =>
    obtain ⟨r, hr, rfl⟩ := Option.map_eq_some_iff.mp hstep
    obtain ⟨_, _, rfl⟩ := processExpiredEvents_eq_some hr
    exact .tokenless rfl (h.of_unclaimed rfl (.inr rfl))
  | dead =>
    obtain ⟨r, hr, rfl⟩ := Option.map_eq_some_iff.mp hstep
    obtain ⟨_, _, rfl⟩ := updateDeadEvents_eq_some hr
    exact .tokenless rfl (h.of_unclaimed rfl (.inr rfl))
  | failed =>
    obtain ⟨r, hr, rfl⟩ := Option.map_eq_some_iff.mp hstep
    obtain ⟨_, rfl⟩ := updateFailedEvents_eq_some hr
    exact .tokenless rfl (h.of_unclaimed rfl (.inl rfl))
  | resubmitted =>
    obtain ⟨r, hr, rfl⟩ := Option.map_eq_some_iff.mp hstep
    obtain ⟨_, rfl⟩ := updateResubmittedEvents_eq_some hr
    exact .tokenless rfl (h.of_unclaimed rfl (.inl rfl))
  | redrive operator now =>
    obtain ⟨r, hr, rfl⟩ := Option.map_eq_some_iff.mp hstep
    obtain ⟨_, rfl⟩ := redriveById_eq_some hr
    exact .tokenless rfl (h.of_unclaimed rfl (.inl rfl))
  | purge operator reasonCode note now =>
    obtain ⟨r, hr, rfl⟩ := Option.map_eq_some_iff.mp hstep
    obtain ⟨hd, rfl⟩ := purgeById_eq_some hr
    exact .tokenless rfl (h.of_unclaimed (hc.atRest (by simp [hd])).claimedBy (.inl rfl))
  | edit edit now =>
    obtain ⟨r, hr, rfl⟩ := Option.map_eq_some_iff.mp hstep
    obtain ⟨hd, _, rfl⟩ := editPayloadById_eq_some hr
    have hp : s.row.status ≠ .processing := fun he ↦ by simp [he, redrivable] at hd
    exact .tokenless rfl (h.of_unclaimed (hc.atRest hp).claimedBy (.inl rfl))
  | find lockIds =>
    obtain ⟨_, rfl⟩ := find_step hstep
    exact .tokenless rfl ⟨h.drawn, h.owner, h.distinct, h.lost⟩
  | deadLetter =>
    obtain ⟨_, rfl⟩ := deadLetter_step hstep
    exact .tokenless rfl (h.of_unclaimed rfl (.inl rfl))

/-- The fence stands in every reachable state. -/
theorem run_fenced {box : Box} {cfg : Config} {event : P} {ref : Option String}
    {ok : Life P → Label P → Prop} {ls : List (Label P)} {s : Life P}
    (h : Run (step box cfg) ok (Life.inserted box event ref) ls s)
    (htokens : (ls.filterMap Label.token).Nodup) :
    Fenced (ls.filterMap Label.token) s := by
  induction h with
  | nil => exact ⟨by simp [Life.inserted], by simp [Life.inserted, Row.inserted],
      by simp [Life.inserted], by simp [Life.inserted]⟩
  | @snoc ls s s' l hrun _ hstep ih =>
    have hsplit : (ls ++ [l]).filterMap Label.token =
        ls.filterMap Label.token ++ l.token.toList := by
      rw [List.filterMap_append]
      cases hl : l.token <;> simp [hl]
    rw [hsplit] at htokens ⊢
    obtain ⟨hold, _, hdisj⟩ := List.nodup_append.mp htokens
    refine step_fenced (run_consistent hrun) (ih hold) ?_ hstep
    intro token ht hm
    exact hdisj token hm token (by simp [ht]) rfl

/-- A handler that lost its claim ends without touching the row. -/
theorem Fenced.finish {used : List Token} {box : Box} {cfg : Config} {s s' : Life P}
    (h : Fenced used s) {i : Nat} {k : Handler P} (hk : s.handlers[i]? = some k)
    (hlost : k.lost = true) {l : Label P} (hl : l.finishes i)
    (hstep : step box cfg s l = some s') : s'.row = s.row := by
  have hfence := h.lost k (List.mem_of_getElem? hk) hlost
  have hrow : ∀ {j : Nat} {x : Handler P} {entry : Entry P}, j = i →
      HandlerStep box s s' x j entry → s'.row = s.row := by
    rintro j x entry rfl hx
    obtain rfl : x = k := Option.some.inj (hx.running.symm.trans hk)
    rcases hx.row with he | he
    · exact he
    · rcases afterUpdate_cases box s entry x.token with ⟨hown, _⟩ | ⟨_, ha⟩
      · exact absurd hown hfence
      · exact he.trans ha
  cases l with
  | complete j now reply =>
    obtain ⟨x, hx⟩ := complete_step hstep
    exact hrow hl hx
  | fail j error now reply =>
    obtain ⟨x, hx⟩ := fail_step hstep
    exact hrow hl hx
  | _ => exact absurd hl id

/-- The handlers that hold the token on the row are at most one. -/
theorem Fenced.owners_le_one {used : List Token} {s : Life P} (h : Fenced used s) :
    (s.handlers.filter fun k ↦ s.row.claimedBy = some k.token).length ≤ 1 := by
  cases hc : s.row.claimedBy with
  | none => simp
  | some token =>
    have hsub : ((s.handlers.filter fun k ↦ some token = some k.token).map
        Handler.token).Nodup :=
      h.distinct.sublist (List.filter_sublist.map _)
    have hall : ∀ t ∈ (s.handlers.filter fun k ↦ some token = some k.token).map
        Handler.token, t = token := by
      intro t ht
      obtain ⟨k, hk, rfl⟩ := List.mem_map.mp ht
      simpa [eq_comm] using (List.mem_filter.mp hk).2
    have hle := (List.nodup_iff_count_le_one.mp hsub) token
    rw [List.count_eq_length.mpr fun t ht ↦ (hall t ht).symm, List.length_map] at hle
    exact hle

/-- A completed row stays completed in one step. -/
theorem step_completed {box : Box} {cfg : Config} {ref : Option String} {s s' : Life P}
    {l : Label P} (hc : Consistent ref s) (hdone : s.row.status = .completed)
    (h : step box cfg s l = some s') : s'.row.status = .completed := by
  have hfree := (hc.atRest (by simp [hdone])).claimedBy
  have hrow : ∀ {i : Nat} {x : Handler P} {entry : Entry P},
      HandlerStep box s s' x i entry → s'.row.status = .completed := by
    intro i x entry hx
    rcases hx.row with he | he
    · rw [he, hdone]
    · rcases afterUpdate_cases box s entry x.token with ⟨hown, _⟩ | ⟨_, ha⟩
      · simp [hfree] at hown
      · rw [he, ha, hdone]
  cases l with
  | claim token key now =>
    obtain ⟨_, r, hr, rfl⟩ := claim_step h
    obtain ⟨hp, _⟩ := claimEvents_eq_some hr
    simp [hdone] at hp
  | complete i now reply =>
    obtain ⟨x, hx⟩ := complete_step h
    exact hrow hx
  | fail i error now reply =>
    obtain ⟨x, hx⟩ := fail_step h
    exact hrow hx
  | crash i =>
    obtain ⟨x, hx⟩ := crash_step h
    exact hrow hx
  | expire now =>
    obtain ⟨r, hr, rfl⟩ := Option.map_eq_some_iff.mp h
    obtain ⟨he, _⟩ := processExpiredEvents_eq_some hr
    simp [hdone, sweepExcluded] at he
  | dead =>
    obtain ⟨r, hr, rfl⟩ := Option.map_eq_some_iff.mp h
    obtain ⟨he, _⟩ := updateDeadEvents_eq_some hr
    simp [hdone, sweepExcluded] at he
  | failed =>
    obtain ⟨r, hr, rfl⟩ := Option.map_eq_some_iff.mp h
    obtain ⟨he, _⟩ := updateFailedEvents_eq_some hr
    simp [hdone] at he
  | resubmitted =>
    obtain ⟨r, hr, rfl⟩ := Option.map_eq_some_iff.mp h
    obtain ⟨he, _⟩ := updateResubmittedEvents_eq_some hr
    simp [hdone] at he
  | redrive operator now =>
    obtain ⟨r, hr, rfl⟩ := Option.map_eq_some_iff.mp h
    obtain ⟨he, _⟩ := redriveById_eq_some hr
    simp [hdone, redrivable] at he
  | purge operator reasonCode note now =>
    obtain ⟨r, hr, rfl⟩ := Option.map_eq_some_iff.mp h
    obtain ⟨he, _⟩ := purgeById_eq_some hr
    simp [hdone] at he
  | edit edit now =>
    obtain ⟨r, hr, rfl⟩ := Option.map_eq_some_iff.mp h
    obtain ⟨he, _⟩ := editPayloadById_eq_some hr
    simp [hdone, redrivable] at he
  | find lockIds =>
    obtain ⟨_, rfl⟩ := find_step h
    exact hdone
  | deadLetter =>
    obtain ⟨hf, _⟩ := deadLetter_step h
    exact absurd hdone (hc.legacy (hc.found hf)).2.1

/-- A completed row stays completed through every further run. -/
theorem run_completed {box : Box} {cfg : Config} {ref : Option String} {s s' : Life P}
    {ls : List (Label P)} (hc : Consistent ref s) (hdone : s.row.status = .completed)
    (h : Run (step box cfg) anyStep s ls s') : s'.row.status = .completed := by
  have hboth : Consistent ref s' ∧ s'.row.status = .completed :=
    h.invariant (fun s ↦ Consistent ref s ∧ s.row.status = .completed) ⟨hc, hdone⟩
      fun _ _ _ hs _ hst ↦ ⟨step_consistent hs.1 hst, step_completed hs.1 hs.2 hst⟩
  exact hboth.2

/-- Any number of pollers and operators on a row its model inserted: the claim columns are
set exactly while it is `PROCESSING`, at most one running handler holds the token on the
row, a handler that lost its claim changes nothing when it ends, and `COMPLETED` is final. -/
theorem claim_fence (box : Box) (cfg : Config) (event : P) (ref : Option String)
    {ls : List (Label P)} {s : Life P}
    (h : Run (step box cfg) anyStep (Life.inserted box event ref) ls s)
    (htokens : (ls.filterMap Label.token).Nodup) :
    (s.row.status = .processing ↔ s.row.claimedBy ≠ none ∧ s.row.claimExpiresAt ≠ none) ∧
    (s.handlers.filter fun k ↦ s.row.claimedBy = some k.token).length ≤ 1 ∧
    (∀ i k l s', s.handlers[i]? = some k → k.lost = true → l.finishes i →
      step box cfg s l = some s' → s'.row = s.row) ∧
    (s.row.status = .completed → ∀ ls' s', Run (step box cfg) anyStep s ls' s' →
      s'.row.status = .completed) := by
  have hc := run_consistent h
  have hf := run_fenced h htokens
  refine ⟨⟨?_, ?_⟩, hf.owners_le_one, ?_, fun hdone _ _ hrun ↦ run_completed hc hdone hrun⟩
  · intro hp
    exact ⟨(hc.claimed hp).claimedBy, (hc.claimed hp).claimExpiresAt⟩
  · rintro ⟨hb, _⟩
    obtain ⟨token, ht⟩ := Option.ne_none_iff_exists'.mp hb
    exact (hc.claimed_of_owner ht).status
  · intro i k l s' hk hlost hl hstep
    exact hf.finish hk hlost hl hstep

/-- A row claimed, swept, resubmitted and claimed again while its first handler runs. -/
theorem claim_fence_reclaimed :
    let cfg : Config := ⟨3, 1000, 90⟩
    let ls : List (Label Unit) :=
      [.claim 1 "app-1" 0, .expire 2000, .failed, .resubmitted, .claim 2 "app-1" 3000]
    ∃ s, exec (step .inbox cfg) (Life.inserted .inbox () (some "app-1")) ls = some s ∧
      s.handlers.map (fun k ↦ (k.token, k.lost)) = [(2, false), (1, true)] ∧
      (s.handlers.filter fun k ↦ s.row.claimedBy = some k.token).length ≤ 1 := by
  have hrun : Run (step .inbox ⟨3, 1000, 90⟩) anyStep (Life.inserted .inbox () (some "app-1"))
      [.claim 1 "app-1" 0, .expire 2000, .failed, .resubmitted, .claim 2 "app-1" 3000] _ :=
    .of_exec rfl
  exact ⟨_, rfl, rfl, (claim_fence .inbox ⟨3, 1000, 90⟩ () (some "app-1") hrun (by decide)).2.1⟩

end FgGas.Events
