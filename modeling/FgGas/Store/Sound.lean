import FgGas.Store.Logic

/-!
# What is checked of each use case holds of all together

If every use case is in order by itself, then in every interleaving the store keeps the
invariant, every change is one the use case that made it may make, and a use case that has
ended has the result it promised. The proof carries what is left of each use case through
the steps of the others.
-/

namespace FgGas.Store

open Machine

variable {K S D E N A R T : Type}

/-- An open transaction stands on a state the store once had; what no commit has changed
since is as in the snapshot, and that includes all it has taken. -/
structure Txn.Ok (rely : Rely K S) (guar : S → S → Prop)
    (post : Except E A → List (S × S) → S → Prop) (own : List (S × S)) (mine : K → Prop)
    (db : S) (txn : Txn K S D E A) : Prop where
  inv : rely.inv txn.base
  le : rely.le txn.base db
  clean : ∀ k, k ∉ txn.dirty → rely.agree k txn.base db
  held : ∀ k ∈ txn.held, k ∉ txn.dirty ∧ mine k
  rest : txn.rest.Leads txn.base txn.held txn.write (Ends rely guar post own txn.base)

/-- What follows a transaction is in order after each of its outcomes. -/
def after (rely : Rely K S) (p : Promise S N R) (next : Except E A → UseCase K S D E N A R)
    (result : Except E A) (own : List (S × S)) (s : S) : Prop :=
  (next result).Ok rely p own s

/-- What is left of a use case is in order; `mine` are the documents it has taken. -/
def Thread.Ok (rely : Rely K S) (p : Promise S N R) (mine : K → Prop) (db : S)
    (th : Thread K S D E N A R) : Prop :=
  match th.phase with
  | .running program => program.Ok rely p th.own db
  | .calling callback rest next =>
      callback.Ok rely p.guar p.allow (after rely p next) th.own db ∧
        rest.Ok rely p.guar p.allow (after rely p next) th.own db
  | .inSession callback next txn =>
      callback.Ok rely p.guar p.allow (after rely p next) th.own db ∧
        txn.Ok rely p.guar (after rely p next) th.own mine db

/-- The system is in order, having started on `s₀`. -/
structure Sound [DecidableEq T] (rely : Rely K S) (p : T → Promise S N R) (s₀ : S)
    (s : System K S D E N A R T) : Prop where
  inv : rely.inv s.db
  past : ∀ seen ∈ s.past, rely.inv seen ∧ rely.le seen s.db
  threads : ∀ t, (s.threads t).Ok rely (p t) (fun k ↦ s.owner k = some t) s.db
  log : ∀ c ∈ s.log, (p c.thread).guar c.before c.after
  chain : s.log.map Change.before ++ [s.db] = s₀ :: s.log.map Change.after

variable {rely : Rely K S} {p : T → Promise S N R} {s₀ : S}

/-- Taking more documents, or nothing changing, leaves a use case in order. -/
theorem Thread.Ok.mono {q : Promise S N R} {mine mine' : K → Prop} {db : S}
    {th : Thread K S D E N A R} (hm : ∀ k, mine k → mine' k) (h : th.Ok rely q mine db) :
    th.Ok rely q mine' db := by
  unfold Thread.Ok at h ⊢
  cases hph : th.phase with
  | running program =>
    rw [hph] at h
    exact h
  | calling callback rest next =>
    rw [hph] at h
    exact h
  | inSession callback next txn =>
    rw [hph] at h
    obtain ⟨hc, ht⟩ := h
    exact ⟨hc, ht.inv, ht.le, ht.clean, fun k hk ↦ ⟨(ht.held k hk).1, hm k (ht.held k hk).2⟩,
      ht.rest⟩

/-- A change of other documents leaves a use case in order. -/
theorem Thread.Ok.notice {q : Promise S N R} {guar : S → S → Prop} {mine : K → Prop}
    {db db' : S} {keys : List K} {th : Thread K S D E N A R} (h : th.Ok rely q mine db)
    (hfine : Fine rely guar db db' keys) (hfree : ∀ k ∈ keys, ¬ mine k) :
    (th.notice keys).Ok rely q mine db' := by
  obtain ⟨phase, own⟩ := th
  cases phase with
  | running program => exact UseCase.Ok.later hfine.le h
  | calling callback rest next => exact ⟨h.1.later hfine.le, h.2.later hfine.le⟩
  | inSession callback next txn =>
    obtain ⟨hc, ht⟩ := h
    refine ⟨hc.later hfine.le, ht.inv, rely.le_trans ht.le hfine.le, ?_, ?_, ht.rest⟩
    · intro k hk
      obtain ⟨hd, hkeys⟩ := not_or.mp (mt List.mem_append.mpr hk)
      exact rely.agree_trans (ht.clean k hd) (hfine.frame k hkeys)
    · intro k hk
      obtain ⟨hd, hmine⟩ := ht.held k hk
      refine ⟨fun hmem ↦ ?_, hmine⟩
      rcases List.mem_append.mp hmem with hmem | hmem
      · exact hd hmem
      · exact hfree k hmem hmine

section
variable [DecidableEq T] {s s' : System K S D E N A R T} {t : T}

/-- A step that leaves the store alone needs only its own use case checked. -/
theorem Sound.move (hs : Sound rely p s₀ s) {phase : Phase K S D E N A R}
    {owner : K → Option T} (hown : ∀ u, u ≠ t → ∀ k, s.owner k = some u → owner k = some u)
    (h : (⟨phase, (s.threads t).own⟩ : Thread K S D E N A R).Ok rely (p t)
      (fun k ↦ owner k = some t) s.db) :
    Sound rely p s₀ { s.goto t phase with owner := owner } := by
  refine ⟨hs.inv, hs.past, ?_, hs.log, hs.chain⟩
  intro u
  by_cases hu : u = t
  · subst hu
    simpa [System.goto] using h
  · simp only [System.goto, Function.update_of_ne hu]
    exact (hs.threads u).mono (hown u hu)

/-- A change of documents no other transaction has taken needs only its own use case
checked. -/
theorem Sound.change (hs : Sound rely p s₀ s) {phase : Phase K S D E N A R}
    {owner : K → Option T} {keys : List K} {write : S → S} {own : List (S × S)}
    (hown : ∀ u, u ≠ t → ∀ k, s.owner k = some u → owner k = some u)
    (hfree : ∀ u, u ≠ t → ∀ k ∈ keys, s.owner k ≠ some u)
    (hfine : Fine rely (p t).guar s.db (write s.db) keys)
    (h : (⟨phase, own⟩ : Thread K S D E N A R).Ok rely (p t) (fun k ↦ owner k = some t)
      (write s.db)) :
    Sound rely p s₀ { s.change t keys write phase own with owner := owner } := by
  refine ⟨hfine.inv, ?_, ?_, ?_, ?_⟩
  · intro seen hseen
    rcases List.mem_cons.mp hseen with rfl | hseen
    · exact ⟨hs.inv, hfine.le⟩
    · obtain ⟨hi, hl⟩ := hs.past seen hseen
      exact ⟨hi, rely.le_trans hl hfine.le⟩
  · intro u
    by_cases hu : u = t
    · subst hu
      simpa [System.change] using h
    · simp only [System.change, Function.update_of_ne hu]
      exact ((hs.threads u).notice hfine (hfree u hu)).mono (hown u hu)
  · intro c hc
    rcases List.mem_append.mp hc with hc | hc
    · exact hs.log c hc
    · obtain rfl := List.mem_singleton.mp hc
      exact hfine.guar
  · simp only [System.change, List.map_append, List.map_cons, List.map_nil, hs.chain]
    rfl

/-- What a read outside a session sees is a state the store has had. -/
theorem Sound.visible (hs : Sound rely p s₀ s) {primary : Bool} {i : Nat} {seen : S}
    (h : s.visible primary i = some seen) :
    rely.inv seen ∧ rely.le seen s.db ∧ (primary = true → seen = s.db) := by
  unfold System.visible at h
  split at h
  · obtain rfl := Option.some.inj h
    exact ⟨hs.inv, rely.le_refl _, fun _ ↦ rfl⟩
  · next hp =>
    rcases List.mem_cons.mp (List.mem_of_getElem? h) with rfl | hm
    · exact ⟨hs.inv, rely.le_refl _, fun _ ↦ rfl⟩
    · obtain ⟨hi, hl⟩ := hs.past seen hm
      exact ⟨hi, hl, fun h ↦ absurd h hp⟩

/-- Giving up the own documents takes none from another. -/
theorem release_owner (u : T) (hu : u ≠ t) (k : K) (h : s.owner k = some u) :
    (s.release t).owner k = some u := by
  have hne : s.owner k ≠ some t := fun he ↦ hu (Option.some.inj (h.symm.trans he))
  exact (if_neg hne).trans h

/-- A direct write in order. -/
theorem Sound.direct (hs : Sound rely p s₀ s) {act : Act K S} {phase : Phase K S D E N A R}
    {own : List (S × S)} (hfree : ∀ k ∈ act.touch, s.owner k = none)
    (hfine : Fine rely (p t).guar s.db (act.write s.db) act.touch)
    (hth : (⟨phase, own⟩ : Thread K S D E N A R).Ok rely (p t) (fun k ↦ s.owner k = some t)
      (act.write s.db)) : Sound rely p s₀ (s.change t act.touch act.write phase own) := by
  refine hs.change (fun u _ k hk ↦ hk) (fun u _ k hk ↦ ?_) hfine hth
  simp [hfree k hk]

variable [DecidableEq K]

/-- An operation in a session in order. -/
theorem Sound.perform (hs : Sound rely p s₀ s) {callback : Callback K S D E N A}
    {next : Except E A → UseCase K S D E N A R} {txn : Txn K S D E A} {act : Act K S}
    {rest : Session K S D E A} {owner : K → Option T}
    (hfree : ∀ k ∈ act.touch, k ∉ txn.dirty ∧ (s.owner k = none ∨ s.owner k = some t))
    (howner : ∀ k, owner k = if k ∈ act.touch then some t else s.owner k)
    (hc : callback.Ok rely (p t).guar (p t).allow (after rely (p t) next)
      (s.threads t).own s.db)
    (ht : txn.Ok rely (p t).guar (after rely (p t) next) (s.threads t).own
      (fun k ↦ s.owner k = some t) s.db)
    (hrest : rest.Leads txn.base (txn.held ++ act.touch) (act.write ∘ txn.write)
      (Ends rely (p t).guar (after rely (p t) next) (s.threads t).own txn.base)) :
    Sound rely p s₀ { s.goto t (.inSession callback next
      { txn with held := txn.held ++ act.touch, write := act.write ∘ txn.write, rest := rest }) with
      owner := owner } := by
  refine hs.move (fun u hu k hk ↦ ?_) ⟨hc, ht.inv, ht.le, ht.clean, fun k hk ↦ ?_, hrest⟩
  · rw [howner]
    by_cases hmem : k ∈ act.touch
    · rcases (hfree k hmem).2 with hn | hn
      · simp [hn] at hk
      · exact absurd (Option.some.inj (hk.symm.trans hn)) hu
    · simp only [hmem, if_false, hk]
  · rw [howner]
    rcases List.mem_append.mp hk with hk | hk
    · refine ⟨(ht.held k hk).1, ?_⟩
      simp only [(ht.held k hk).2, ite_self]
    · exact ⟨(hfree k hk).1, by simp only [hk, if_true]⟩

/-- Every step keeps the system in order. -/
theorem step_sound (hs : Sound rely p s₀ s) {l : T × Move D}
    (hok : admitted (p l.1).allow s l) (h : s.step l = some s') : Sound rely p s₀ s' := by
  obtain ⟨t, move⟩ := l
  have hth := hs.threads t
  rw [Thread.Ok] at hth
  have hkeep : ∀ v, v ≠ t → ∀ k, s.owner k = some v → s.owner k = some v := fun _ _ _ hk ↦ hk
  cases step_cases h with
  | ask hphase =>
    rw [hphase] at hth
    exact hs.move hkeep (hth _)
  | look hphase hseen =>
    rw [hphase] at hth
    obtain ⟨hinv, hle, hprimary⟩ := hs.visible hseen
    exact hs.move hkeep (hth s.db _ hs.inv (rely.le_refl _) hinv hle hprimary)
  | act hphase hfree =>
    rw [hphase] at hth
    obtain ⟨hfine, hnext⟩ := hth s.db hs.inv (rely.le_refl _)
    exact hs.direct hfree hfine hnext
  | call hphase =>
    rw [hphase] at hth
    exact hs.move hkeep ⟨hth, hth⟩
  | callbackAsk hphase =>
    rw [hphase] at hth
    exact hs.move hkeep ⟨hth.1, hth.2 _⟩
  | callbackLook hphase hseen =>
    rw [hphase] at hth
    obtain ⟨hinv, hle, hprimary⟩ := hs.visible hseen
    exact hs.move hkeep ⟨hth.1, hth.2 s.db _ hs.inv (rely.le_refl _) hinv hle hprimary⟩
  | callbackAct hphase hfree =>
    rw [hphase] at hth
    obtain ⟨hfine, hnext⟩ := hth.2 s.db hs.inv (rely.le_refl _)
    exact hs.direct hfree hfine ⟨hth.1.later hfine.le, hnext⟩
  | callbackFail hphase =>
    rw [hphase] at hth
    exact hs.move hkeep (hth.2 s.db hs.inv (rely.le_refl _))
  | start hphase =>
    rw [hphase] at hth
    simp only [admitted, hphase] at hok
    exact hs.move hkeep ⟨hth.1, hs.inv, rely.le_refl _, fun k _ ↦ rely.agree_refl k _,
      fun k hk ↦ absurd hk List.not_mem_nil, hth.2 s.db hs.inv (rely.le_refl _) hok⟩
  | abort hphase =>
    rw [hphase] at hth
    exact hs.move (fun u hu k hk ↦ release_owner u hu k hk) ⟨hth.1, hth.1⟩
  | sessionAsk hphase hrest =>
    rw [hphase] at hth
    obtain ⟨hc, ht⟩ := hth
    have hleads := ht.rest
    rw [hrest] at hleads
    exact hs.move hkeep ⟨hc, ht.inv, ht.le, ht.clean, ht.held, hleads _⟩
  | perform hphase hrest hfree howner =>
    rw [hphase] at hth
    obtain ⟨hc, ht⟩ := hth
    have hleads := ht.rest
    rw [hrest] at hleads
    exact hs.perform hfree howner hc ht hleads
  | commit hphase hrest =>
    rw [hphase] at hth
    obtain ⟨-, ht⟩ := hth
    have hleads := ht.rest
    rw [hrest] at hleads
    obtain ⟨hfine, hpost⟩ := hleads s.db hs.inv ht.le fun k hk ↦ ht.clean k (ht.held k hk).1
    refine hs.change (fun u hu k hk ↦ release_owner u hu k hk) (fun u hu k hk he ↦ ?_) hfine hpost
    exact hu (Option.some.inj (he.symm.trans (ht.held k hk).2))
  | throw hphase hrest =>
    rw [hphase] at hth
    obtain ⟨-, ht⟩ := hth
    have hleads := ht.rest
    rw [hrest] at hleads
    exact hs.move (fun u hu k hk ↦ release_owner u hu k hk) (hleads s.db hs.inv ht.le)

/-- Use cases in order on an initial state in order stay so, in every interleaving. -/
theorem run_sound {program : T → UseCase K S D E N A R} {ls : List (T × Move D)}
    (hinv : rely.inv s₀) (hprogram : ∀ t, (program t).Ok rely (p t) [] s₀)
    (h : Run System.step (fun s l ↦ admitted (p l.1).allow s l) (System.start s₀ program) ls s) :
    Sound rely p s₀ s := by
  have hstart : Sound rely p s₀ (System.start s₀ program) :=
    ⟨hinv, fun _ hm ↦ absurd hm List.not_mem_nil, fun t ↦ hprogram t,
      fun _ hm ↦ absurd hm List.not_mem_nil, rfl⟩
  exact h.invariant (Sound rely p s₀) hstart fun s l s' hs hok hst ↦ step_sound hs hok hst

omit [DecidableEq K] [DecidableEq T] in
/-- A transaction that may start on any state is admitted. -/
theorem admitted_of_allow {allow : N → S → Prop} (hallow : ∀ note s, allow note s)
    (l : T × Move D) : admitted allow s l := by
  obtain ⟨t, move⟩ := l
  cases move <;> simp only [admitted]
  split
  · exact hallow _ _
  · trivial

/-- A run in which every transaction may start on any state is a run. -/
theorem run_admitted {program : T → UseCase K S D E N A R} {ls : List (T × Move D)}
    (hallow : ∀ t note s, (p t).allow note s)
    (h : Run System.step anyStep (System.start s₀ program) ls s) :
    Run System.step (fun s l ↦ admitted (p l.1).allow s l) (System.start s₀ program) ls s :=
  h.mono fun _ l _ ↦ admitted_of_allow (hallow l.1) l

omit [DecidableEq K] [DecidableEq T] in
/-- A start that some notes and states allow is a start that more of them allow. -/
theorem admitted.mono {allow allow' : N → S → Prop} (himp : ∀ note s, allow note s → allow' note s)
    {l : T × Move D} (h : admitted allow s l) : admitted allow' s l := by
  obtain ⟨t, move⟩ := l
  cases move <;> simp only [admitted] at h ⊢
  split at h
  · exact himp _ _ h
  · trivial

omit [DecidableEq K] in
/-- A use case that has ended has kept its promise. -/
theorem Sound.result (hs : Sound rely p s₀ s) {result : R}
    (h : (s.threads t).result = some result) :
    (p t).post result (s.threads t).own s.db := by
  have hth := hs.threads t
  unfold Thread.result at h
  split at h
  · next r hph =>
    obtain rfl := Option.some.inj h
    rw [Thread.Ok, hph] at hth
    exact hth s.db hs.inv (rely.le_refl _)
  · cases h

end

end FgGas.Store
