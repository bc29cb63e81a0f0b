import FgGas.Store.Sound

/-!
# What a use case ends with once it has seen something

A use case sees states of the store: those it looks at, and those its transactions start on. A
sight may settle how it ends, whatever the others do from then on. `Yields` says of what is left of
a use case how it ends in a world that shows it and answers it only so, and `Heeds` that what is
left after each sight of a kind yields so in any world. Both are checked of a use case alone and
hold in every interleaving.
-/

namespace FgGas.Store

open Machine

variable {K S D E N A R T : Type}

/-- A state a use case looks at, or one a transaction of its starts on, with the note of the
transaction. -/
inductive Sight (S N : Type)
  | looked (seen : S)
  | started (note : N) (base : S)

/-- The state seen. -/
def Sight.state : Sight S N → S
  | .looked seen => seen
  | .started _ base => base

/-- What a thread sees with its next step. -/
def System.sight (s : System K S D E N A R T) : T × Move D → Option (Sight S N)
  | (t, move) =>
    match (s.threads t).phase, move with
    | .running (.look primary _), .look i => (s.visible primary i).map .looked
    | .calling _ (.look primary _) _, .look i => (s.visible primary i).map .looked
    | .calling _ (.body note _) _, .go => some (.started note s.db)
    | _, _ => none

/-- In the run with the labels `ls` from one state to another the thread sees something of the
kind. -/
def Sighted [DecidableEq K] [DecidableEq T] (start : System K S D E N A R T)
    (ls : List (T × Move D)) (s : System K S D E N A R T) (t : T) (P : Sight S N → Prop) : Prop :=
  ∃ ls₁ move ls₂ s₁ s₂, ls = ls₁ ++ (t, move) :: ls₂ ∧ Run System.step anyStep start ls₁ s₁ ∧
    (∃ x, s₁.sight (t, move) = some x ∧ P x) ∧ s₁.step (t, move) = some s₂ ∧
    Run System.step anyStep s₂ ls₂ s

/-! ### How what is left of a use case ends -/

/-- What a use case may be shown and answered. -/
structure World (S N D : Type) where
  shows : Sight S N → Prop
  answers : D → Prop

/-- It may be shown and answered anything. -/
def World.any : World S N D := ⟨fun _ ↦ True, fun _ ↦ True⟩

/-- What a session has done by its end, for every answer it may get of those allowed. -/
def Session.LeadsUnder (allows : D → Prop) (base : S) : Session K S D E A → List K → (S → S) →
    (Except E A → List K → (S → S) → Prop) → Prop
  | .done value, held, write, Q => Q (.ok value) held write
  | .fail error, held, write, Q => Q (.error error) held write
  | .ask next, held, write, Q => ∀ d, allows d → (next d).LeadsUnder allows base held write Q
  | .op f next, held, write, Q =>
      (next (write base)).LeadsUnder allows base (held ++ (f (write base)).touch)
        ((f (write base)).write ∘ write) Q

/-- What holds for every answer holds for every answer allowed. -/
theorem Session.Leads.under {allows : D → Prop} {base : S} {x : Session K S D E A} {held : List K}
    {write : S → S} {Q : Except E A → List K → (S → S) → Prop} (h : x.Leads base held write Q) :
    x.LeadsUnder allows base held write Q := by
  induction x generalizing held write with
  | done value => exact h
  | fail error => exact h
  | ask next ih => exact fun d _ ↦ ih d (h d)
  | op f next ih => exact ih _ h

/-- What holds for every answer allowed, where every answer is, holds for every answer. -/
theorem Session.LeadsUnder.leads {base : S} {x : Session K S D E A} {held : List K} {write : S → S}
    {Q : Except E A → List K → (S → S) → Prop}
    (h : x.LeadsUnder (fun _ ↦ True) base held write Q) : x.Leads base held write Q := by
  induction x generalizing held write with
  | done value => exact h
  | fail error => exact h
  | ask next ih => exact fun d ↦ ih d (h d trivial)
  | op f next ih => exact ih _ h

/-- A session that first asks the world. -/
theorem Session.leadsUnder_outside {allows : D → Prop} {base : S} {f : D → Session K S D E A}
    {held : List K} {write : S → S} {Q : Except E A → List K → (S → S) → Prop} :
    (Session.outside >>= f).LeadsUnder allows base held write Q ↔
      ∀ d, allows d → (f d).LeadsUnder allows base held write Q := Iff.rfl

theorem Session.LeadsUnder.mono {allows : D → Prop} {base : S} {x : Session K S D E A}
    {held : List K} {write : S → S} {Q Q' : Except E A → List K → (S → S) → Prop}
    (h : ∀ r held write, Q r held write → Q' r held write)
    (hx : x.LeadsUnder allows base held write Q) : x.LeadsUnder allows base held write Q' := by
  induction x generalizing held write with
  | done value => exact h _ _ _ hx
  | fail error => exact h _ _ _ hx
  | ask next ih => exact fun d hd ↦ ih d (hx d hd)
  | op f next ih => exact ih _ hx

/-- The end of a transaction on the snapshot `base`, at a state that agrees with it on what the
transaction has taken: what follows holds of its result and of the changes made, from any later
state on. -/
def Settles (rely : Rely K S) (post : Except E A → List (S × S) → S → Prop) (own : List (S × S))
    (base : S) (result : Except E A) (held : List K) (write : S → S) : Prop :=
  ∀ before db, rely.inv before → rely.le base before → (∀ k ∈ held, rely.agree k base before) →
    rely.inv db → rely.le base db → match result with
    | .ok value => post (.ok value) (own ++ [(before, write before)]) db
    | .error error => post (.error error) own db

/-- `post` holds after the callback, called from `s` on. -/
def Callback.Yields (rely : Rely K S) (w : World S N D)
    (post : Except E A → List (S × S) → S → Prop) (own : List (S × S)) :
    Callback K S D E N A → S → Prop
  | .body note session, s => ∀ base, rely.inv base → rely.le s base → w.shows (.started note base) →
      session.LeadsUnder w.answers base [] id (Settles rely post own base)
  | .fail error, s => ∀ db, rely.inv db → rely.le s db → post (.error error) own db
  | .ask next, s => ∀ d, w.answers d → (next d).Yields rely w post own s
  | .look primary next, s => ∀ db seen, rely.inv db → rely.le s db → rely.inv seen →
      rely.le seen db → (primary = true → seen = db) → w.shows (.looked seen) →
      (next seen).Yields rely w post own db
  | .act _ next, s => ∀ db, rely.inv db → rely.le s db → (next db).Yields rely w post own db

/-- `Q` holds of the result of the use case and of the changes it has made, from `s` on and having
made the changes `own`. -/
def UseCase.Yields (rely : Rely K S) (w : World S N D) (Q : R → List (S × S) → Prop) :
    UseCase K S D E N A R → List (S × S) → S → Prop
  | .ret result, own, _ => Q result own
  | .ask next, own, s => ∀ d, w.answers d → (next d).Yields rely w Q own s
  | .look primary next, own, s => ∀ db seen, rely.inv db → rely.le s db → rely.inv seen →
      rely.le seen db → (primary = true → seen = db) → w.shows (.looked seen) →
      (next seen).Yields rely w Q own db
  | .act f next, own, s => ∀ db, rely.inv db → rely.le s db →
      (next db).Yields rely w Q (own ++ [(db, (f db).write db)]) db
  | .withTransaction callback next, own, s =>
      callback.Yields rely w (fun result own' s' ↦ (next result).Yields rely w Q own' s') own s

/-- What follows a transaction yields after each of its outcomes. -/
def thenYields (rely : Rely K S) (w : World S N D) (Q : R → List (S × S) → Prop)
    (next : Except E A → UseCase K S D E N A R) (result : Except E A) (own : List (S × S)) (s : S) :
    Prop :=
  (next result).Yields rely w Q own s

/-- What is left of a use case yields. -/
def Phase.Yields (rely : Rely K S) (w : World S N D) (Q : R → List (S × S) → Prop)
    (own : List (S × S)) (db : S) : Phase K S D E N A R → Prop
  | .running program => program.Yields rely w Q own db
  | .calling callback rest next =>
      callback.Yields rely w (thenYields rely w Q next) own db ∧
        rest.Yields rely w (thenYields rely w Q next) own db
  | .inSession callback next txn =>
      callback.Yields rely w (thenYields rely w Q next) own db ∧
        txn.rest.LeadsUnder w.answers txn.base txn.held txn.write
          (Settles rely (thenYields rely w Q next) own txn.base)

variable {rely : Rely K S} {w : World S N D} {Q : R → List (S × S) → Prop} {own : List (S × S)}

theorem Callback.Yields.later {post : Except E A → List (S × S) → S → Prop}
    {c : Callback K S D E N A} {s s' : S} (hle : rely.le s s') (h : c.Yields rely w post own s) :
    c.Yields rely w post own s' := by
  induction c generalizing s s' with
  | body note session => exact fun base hb hs ↦ h base hb (rely.le_trans hle hs)
  | fail error => exact fun db hd hs ↦ h db hd (rely.le_trans hle hs)
  | ask next ih => exact fun d hd ↦ ih d hle (h d hd)
  | look primary next ih => exact fun db seen hd hs ↦ h db seen hd (rely.le_trans hle hs)
  | act f next ih => exact fun db hd hs ↦ h db hd (rely.le_trans hle hs)

theorem UseCase.Yields.later {u : UseCase K S D E N A R} {s s' : S} (hle : rely.le s s')
    (h : u.Yields rely w Q own s) : u.Yields rely w Q own s' := by
  induction u generalizing own s s' with
  | ret result => exact h
  | ask next ih => exact fun d hd ↦ ih d hle (h d hd)
  | look primary next ih => exact fun db seen hd hs ↦ h db seen hd (rely.le_trans hle hs)
  | act f next ih => exact fun db hd hs ↦ h db hd (rely.le_trans hle hs)
  | withTransaction callback next ih => exact Callback.Yields.later hle h

theorem Phase.Yields.later {phase : Phase K S D E N A R} {s s' : S} (hle : rely.le s s')
    (h : phase.Yields rely w Q own s) : phase.Yields rely w Q own s' := by
  cases phase with
  | running program => exact UseCase.Yields.later hle h
  | calling callback rest next => exact ⟨h.1.later hle, h.2.later hle⟩
  | inSession callback next txn => exact ⟨h.1.later hle, h.2⟩

/-! ### What a use case heeds -/

/-- After each sight of the kind `P` what is left of the callback leads to `post` in any world, and
so does the callback when the transaction aborts and it runs `again`. -/
def Callback.Heeds (rely : Rely K S) (P : Sight S N → Prop)
    (post : Except E A → List (S × S) → S → Prop) (own : List (S × S)) (again : S → Prop) :
    Callback K S D E N A → Prop
  | .body note session => ∀ base, rely.inv base → P (.started note base) →
      again base ∧
        session.LeadsUnder (World.any : World S N D).answers base [] id (Settles rely post own base)
  | .fail _ => True
  | .ask next => ∀ d, (next d).Heeds rely P post own again
  | .look primary next => ∀ db seen, rely.inv db → rely.inv seen → rely.le seen db →
      (primary = true → seen = db) →
      (P (.looked seen) → again db ∧ (next seen).Yields rely .any post own db) ∧
        (next seen).Heeds rely P post own again
  | .act _ next => ∀ db, (next db).Heeds rely P post own again

/-- After each sight of the kind `P`, what is left of the use case yields `Q` in any world. -/
def UseCase.Heeds (rely : Rely K S) (P : Sight S N → Prop) (Q : R → List (S × S) → Prop) :
    UseCase K S D E N A R → List (S × S) → Prop
  | .ret _, _ => True
  | .ask next, own => ∀ d, (next d).Heeds rely P Q own
  | .look primary next, own => ∀ db seen, rely.inv db → rely.inv seen → rely.le seen db →
      (primary = true → seen = db) →
      (P (.looked seen) → (next seen).Yields rely .any Q own db) ∧ (next seen).Heeds rely P Q own
  | .act f next, own => ∀ db, (next db).Heeds rely P Q (own ++ [(db, (f db).write db)])
  | .withTransaction callback next, own =>
      callback.Heeds rely P (thenYields rely .any Q next) own
          (callback.Yields rely .any (thenYields rely .any Q next) own) ∧
        (∀ error, (next (.error error)).Heeds rely P Q own) ∧
        ∀ value change, (next (.ok value)).Heeds rely P Q (own ++ [change])

/-- What is left of a use case, with the transaction it is in run again, heeds what it sees. -/
def Phase.Heeds (rely : Rely K S) (P : Sight S N → Prop) (Q : R → List (S × S) → Prop)
    (own : List (S × S)) : Phase K S D E N A R → Prop
  | .running program => program.Heeds rely P Q own
  | .calling callback rest next =>
      rest.Heeds rely P (thenYields rely .any Q next) own
          (callback.Yields rely .any (thenYields rely .any Q next) own) ∧
        (UseCase.withTransaction callback next).Heeds rely P Q own
  | .inSession callback next _ => (UseCase.withTransaction callback next).Heeds rely P Q own

/-! ### Every interleaving -/

theorem Thread.notice_own (keys : List K) (th : Thread K S D E N A R) :
    (th.notice keys).own = th.own := by
  unfold Thread.notice
  split <;> rfl

theorem Thread.notice_yields {keys : List K} {th : Thread K S D E N A R} {db : S}
    (h : th.phase.Yields rely w Q own db) : (th.notice keys).phase.Yields rely w Q own db := by
  unfold Thread.notice
  split
  · next callback next txn hph =>
    rw [hph] at h
    exact h
  · exact h

theorem Thread.notice_heeds {P : Sight S N → Prop} {keys : List K} {th : Thread K S D E N A R}
    (h : th.phase.Heeds rely P Q own) : (th.notice keys).phase.Heeds rely P Q own := by
  unfold Thread.notice
  split
  · next callback next txn hph =>
    rw [hph] at h
    exact h
  · exact h

/-- A use case that has ended as it must. -/
theorem Thread.result_yields {th : Thread K S D E N A R} {db : S} {result : R}
    (hy : th.phase.Yields rely w Q th.own db) (hr : th.result = some result) : Q result th.own := by
  unfold Thread.result at hr
  split at hr
  · next hph =>
    obtain rfl := Option.some.inj hr
    rw [hph] at hy
    exact hy
  · cases hr

section
variable [DecidableEq K] [DecidableEq T] {p : T → Promise S N R} {s₀ : S}
  {s s' : System K S D E N A R T} {t : T} {move : Move D} {P : Sight S N → Prop}

/-- What a step of one use case does to the store and to the others. -/
theorem step_others (h : s.step (t, move) = some s') :
    (s'.db = s.db ∧ ∀ u, u ≠ t → s'.threads u = s.threads u) ∨
      (s'.past = s.db :: s.past ∧
        ∃ keys, ∀ u, u ≠ t → s'.threads u = (s.threads u).notice keys) := by
  have hgoto : ∀ {phase : Phase K S D E N A R} {v : System K S D E N A R T},
      v.db = s.db → v.threads = s.threads → (v.goto t phase).db = s.db ∧
        ∀ u, u ≠ t → (v.goto t phase).threads u = s.threads u := by
    intro phase v hdb hthreads
    exact ⟨hdb, fun u hu ↦ by simp only [System.goto, Function.update_of_ne hu, hthreads]⟩
  have hchange : ∀ {keys : List K} {write : S → S} {phase : Phase K S D E N A R}
      {own : List (S × S)} {v : System K S D E N A R T}, v.db = s.db → v.past = s.past →
      v.threads = s.threads → (v.change t keys write phase own).past = s.db :: s.past ∧
        ∃ keys', ∀ u, u ≠ t →
          (v.change t keys write phase own).threads u = (s.threads u).notice keys' := by
    intro keys write phase own v hdb hpast hthreads
    refine ⟨by simp only [System.change, hdb, hpast], keys, fun u hu ↦ ?_⟩
    simp only [System.change, Function.update_of_ne hu, hthreads]
  cases step_cases h with
  | ask _ | look _ _ | call _ | callbackAsk _ | callbackLook _ _ | callbackFail _ | start _
  | sessionAsk _ _ => exact .inl (hgoto rfl rfl)
  | perform _ _ _ _ =>
    exact .inl ⟨rfl, fun u hu ↦ by simp only [System.goto, Function.update_of_ne hu]⟩
  | abort _ | throw _ _ => exact .inl (hgoto (v := s.release t) rfl rfl)
  | act _ _ | callbackAct _ _ => exact .inr (hchange rfl rfl rfl)
  | commit _ _ => exact .inr (hchange (v := s.release t) rfl rfl rfl)

/-- The store only climbs. -/
theorem Sound.step_le (hs' : Sound rely p s₀ s') (h : s.step (t, move) = some s') :
    rely.le s.db s'.db := by
  rcases step_others h with ⟨hdb, _⟩ | ⟨hpast, _⟩
  · rw [hdb]
    exact rely.le_refl _
  · exact (hs'.past s.db (by simp [hpast])).2

omit [DecidableEq K] in
theorem System.goto_threads_self (phase : Phase K S D E N A R) :
    (s.goto t phase).threads t = ⟨phase, (s.threads t).own⟩ := Function.update_self ..

omit [DecidableEq K] in
theorem System.change_threads_self {keys : List K} {write : S → S} {phase : Phase K S D E N A R}
    {own : List (S × S)} : (s.change t keys write phase own).threads t = ⟨phase, own⟩ := by
  simp only [System.change, Function.update_self]

/-- The world may show and answer what the thread sees and is answered with its next step. -/
structure World.Admits (w : World S N D) (s : System K S D E N A R T) (l : T × Move D) : Prop where
  shows : ∀ x, s.sight l = some x → w.shows x
  answers : ∀ d, l.2 = .ask d → w.answers d

omit [DecidableEq K] [DecidableEq T] in
theorem World.any_admits (l : T × Move D) : World.any.Admits s l :=
  ⟨fun _ _ ↦ trivial, fun _ _ ↦ trivial⟩

/-- A step of its own keeps a use case to how it ends. -/
theorem step_yields (hs : Sound rely p s₀ s) (hs' : Sound rely p s₀ s') (hw : w.Admits s (t, move))
    (hy : (s.threads t).phase.Yields rely w Q (s.threads t).own s.db)
    (h : s.step (t, move) = some s') :
    (s'.threads t).phase.Yields rely w Q (s'.threads t).own s'.db := by
  have hle := hs'.step_le h
  have hok := hs.threads t
  rw [Thread.Ok] at hok
  cases step_cases h with
  | ask hphase =>
    rw [hphase] at hy
    rw [System.goto_threads_self]
    exact hy _ (hw.answers _ rfl)
  | look hphase hseen =>
    rw [hphase] at hy
    obtain ⟨hinv, hseenle, hprimary⟩ := hs.visible hseen
    rw [System.goto_threads_self]
    refine hy s.db _ hs.inv (rely.le_refl _) hinv hseenle hprimary (hw.shows _ ?_)
    simp only [System.sight, hphase, hseen, Option.map_some]
  | act hphase _ =>
    rw [hphase] at hy
    rw [System.change_threads_self]
    exact UseCase.Yields.later hle (hy s.db hs.inv (rely.le_refl _))
  | call hphase =>
    rw [hphase] at hy
    rw [System.goto_threads_self]
    exact ⟨hy, hy⟩
  | callbackAsk hphase =>
    rw [hphase] at hy
    rw [System.goto_threads_self]
    exact ⟨hy.1, hy.2 _ (hw.answers _ rfl)⟩
  | callbackLook hphase hseen =>
    rw [hphase] at hy
    obtain ⟨hinv, hseenle, hprimary⟩ := hs.visible hseen
    rw [System.goto_threads_self]
    refine ⟨hy.1, hy.2 s.db _ hs.inv (rely.le_refl _) hinv hseenle hprimary (hw.shows _ ?_)⟩
    simp only [System.sight, hphase, hseen, Option.map_some]
  | callbackAct hphase _ =>
    rw [hphase] at hy
    rw [System.change_threads_self]
    exact ⟨hy.1.later hle, (hy.2 s.db hs.inv (rely.le_refl _)).later hle⟩
  | callbackFail hphase =>
    rw [hphase] at hy
    rw [System.goto_threads_self]
    exact hy.2 s.db hs.inv (rely.le_refl _)
  | start hphase =>
    rw [hphase] at hy
    rw [System.goto_threads_self]
    refine ⟨hy.1, hy.2 s.db hs.inv (rely.le_refl _) (hw.shows _ ?_)⟩
    simp only [System.sight, hphase]
  | abort hphase =>
    rw [hphase] at hy
    rw [System.goto_threads_self]
    exact ⟨hy.1, hy.1⟩
  | sessionAsk hphase hrest =>
    rw [hphase, Phase.Yields, hrest] at hy
    rw [System.goto_threads_self]
    exact ⟨hy.1, hy.2 _ (hw.answers _ rfl)⟩
  | perform hphase hrest _ _ =>
    rw [hphase, Phase.Yields, hrest] at hy
    simp only [System.goto_threads_self]
    exact hy
  | commit hphase hrest =>
    rw [hphase] at hok
    rw [hphase, Phase.Yields, hrest] at hy
    have hagree := fun k hk ↦ hok.2.clean k (hok.2.held k hk).1
    rw [System.change_threads_self]
    exact hy.2 s.db _ hs.inv hok.2.le hagree hs'.inv (rely.le_trans hok.2.le hle)
  | throw hphase hrest =>
    rw [hphase] at hok
    rw [hphase, Phase.Yields, hrest] at hy
    have hagree := fun k hk ↦ hok.2.clean k (hok.2.held k hk).1
    rw [System.goto_threads_self]
    exact hy.2 s.db _ hs.inv hok.2.le hagree hs'.inv (rely.le_trans hok.2.le hle)

/-- A step of its own keeps a use case to what it heeds. -/
theorem step_heeds (hs : Sound rely p s₀ s)
    (hh : (s.threads t).phase.Heeds rely P Q (s.threads t).own) (h : s.step (t, move) = some s') :
    (s'.threads t).phase.Heeds rely P Q (s'.threads t).own := by
  cases step_cases h with
  | ask hphase =>
    rw [hphase] at hh
    rw [System.goto_threads_self]
    exact hh _
  | look hphase hseen =>
    rw [hphase] at hh
    obtain ⟨hinv, hseenle, hprimary⟩ := hs.visible hseen
    rw [System.goto_threads_self]
    exact (hh s.db _ hs.inv hinv hseenle hprimary).2
  | act hphase _ =>
    rw [hphase] at hh
    rw [System.change_threads_self]
    exact hh s.db
  | call hphase =>
    rw [hphase] at hh
    rw [System.goto_threads_self]
    exact ⟨hh.1, hh⟩
  | callbackAsk hphase =>
    rw [hphase] at hh
    rw [System.goto_threads_self]
    exact ⟨hh.1 _, hh.2⟩
  | callbackLook hphase hseen =>
    rw [hphase] at hh
    obtain ⟨hinv, hseenle, hprimary⟩ := hs.visible hseen
    rw [System.goto_threads_self]
    exact ⟨(hh.1 s.db _ hs.inv hinv hseenle hprimary).2, hh.2⟩
  | callbackAct hphase _ =>
    rw [hphase] at hh
    rw [System.change_threads_self]
    exact ⟨hh.1 s.db, hh.2⟩
  | callbackFail hphase =>
    rw [hphase] at hh
    rw [System.goto_threads_self]
    exact hh.2.2.1 _
  | start hphase =>
    rw [hphase] at hh
    rw [System.goto_threads_self]
    exact hh.2
  | abort hphase =>
    rw [hphase] at hh
    rw [System.goto_threads_self]
    exact ⟨hh.1, hh⟩
  | sessionAsk hphase _ =>
    rw [hphase] at hh
    rw [System.goto_threads_self]
    exact hh
  | perform hphase _ _ _ =>
    rw [hphase] at hh
    simp only [System.goto_threads_self]
    exact hh
  | commit hphase _ =>
    rw [hphase] at hh
    rw [System.change_threads_self]
    exact hh.2.2 _ _
  | throw hphase _ =>
    rw [hphase] at hh
    rw [System.goto_threads_self]
    exact hh.2.1 _

/-- A sight a use case heeds settles how it ends. -/
theorem yields_of_sight (hs : Sound rely p s₀ s)
    (hh : (s.threads t).phase.Heeds rely P Q (s.threads t).own) {x : Sight S N}
    (hx : s.sight (t, move) = some x) (hP : P x) (h : s.step (t, move) = some s') :
    (s'.threads t).phase.Yields rely .any Q (s'.threads t).own s'.db := by
  unfold System.sight at hx
  simp only at hx
  split at hx
  · rename_i hph
    obtain ⟨seen, hseen, rfl⟩ := Option.map_eq_some_iff.mp hx
    obtain ⟨hinv, hle, hprimary⟩ := hs.visible hseen
    rw [hph] at hh
    simp only [System.step, hph, hseen, Option.map_some, Option.some.injEq] at h
    subst h
    rw [System.goto_threads_self]
    exact (hh s.db seen hs.inv hinv hle hprimary).1 hP
  · rename_i hph
    obtain ⟨seen, hseen, rfl⟩ := Option.map_eq_some_iff.mp hx
    obtain ⟨hinv, hle, hprimary⟩ := hs.visible hseen
    rw [hph] at hh
    simp only [System.step, hph, hseen, Option.map_some, Option.some.injEq] at h
    subst h
    rw [System.goto_threads_self]
    exact (hh.1 s.db seen hs.inv hinv hle hprimary).1 hP
  · rename_i hph
    obtain rfl := Option.some.inj hx
    rw [hph] at hh
    simp only [System.step, hph, Option.some.injEq] at h
    subst h
    rw [System.goto_threads_self]
    exact hh.1 s.db hs.inv hP
  · cases hx

/-- Every step keeps a use case to how it ends. -/
theorem Sound.yields_step (hs : Sound rely p s₀ s) (hs' : Sound rely p s₀ s')
    (hy : (s.threads t).phase.Yields rely w Q (s.threads t).own s.db) {l : T × Move D}
    (hw : l.1 = t → w.Admits s l) (h : s.step l = some s') :
    (s'.threads t).phase.Yields rely w Q (s'.threads t).own s'.db := by
  obtain ⟨u, move⟩ := l
  by_cases hu : t = u
  · subst hu
    exact step_yields hs hs' (hw rfl) hy h
  · rcases step_others h with ⟨hdb, hsame⟩ | ⟨_, keys, hsame⟩
    · rw [hsame t hu, hdb]
      exact hy
    · rw [hsame t hu, Thread.notice_own]
      exact Thread.notice_yields (hy.later (hs'.step_le h))

/-- Every step keeps a use case to what it heeds. -/
theorem Sound.heeds_step (hs : Sound rely p s₀ s)
    (hh : (s.threads t).phase.Heeds rely P Q (s.threads t).own) {l : T × Move D}
    (h : s.step l = some s') : (s'.threads t).phase.Heeds rely P Q (s'.threads t).own := by
  obtain ⟨u, move⟩ := l
  by_cases hu : t = u
  · subst hu
    exact step_heeds hs hh h
  · rcases step_others h with ⟨_, hsame⟩ | ⟨_, keys, hsame⟩
    · rw [hsame t hu]
      exact hh
    · rw [hsame t hu, Thread.notice_own]
      exact Thread.notice_heeds hh

/-- A use case that heeds what it sees, and has seen something of the kind, ends as it must,
whatever the others do. -/
theorem Sighted.result {program : T → UseCase K S D E N A R} {ls : List (T × Move D)}
    (hinv : rely.inv s₀) (hallow : ∀ t note s, (p t).allow note s)
    (hprogram : ∀ t, (program t).Ok rely (p t) [] s₀) (hheeds : (program t).Heeds rely P Q [])
    (h : Sighted (System.start s₀ program) ls s t P) {result : R}
    (hr : (s.threads t).result = some result) : Q result (s.threads t).own := by
  have hstep : ∀ {s s' : System K S D E N A R T} {l : T × Move D}, Sound rely p s₀ s →
      s.step l = some s' → Sound rely p s₀ s' := fun hs hl ↦
    step_sound hs (admitted_of_allow (hallow _) _) hl
  obtain ⟨ls₁, move, ls₂, s₁, s₂, _, h₁, ⟨x, hx, hP⟩, hl, h₂⟩ := h
  have hheeded : Sound rely p s₀ s₁ ∧ (s₁.threads t).phase.Heeds rely P Q (s₁.threads t).own := by
    refine h₁.invariant (fun s ↦ Sound rely p s₀ s ∧
      (s.threads t).phase.Heeds rely P Q (s.threads t).own) ⟨?_, ?_⟩ ?_
    · exact run_sound hinv hprogram .nil
    · exact hheeds
    · rintro s l s' ⟨hs, hh⟩ _ hl
      exact ⟨hstep hs hl, hs.heeds_step hh hl⟩
  have hyields : Sound rely p s₀ s ∧
      (s.threads t).phase.Yields rely .any Q (s.threads t).own s.db := by
    refine h₂.invariant (fun s ↦ Sound rely p s₀ s ∧
      (s.threads t).phase.Yields rely .any Q (s.threads t).own s.db) ⟨?_, ?_⟩ ?_
    · exact hstep hheeded.1 hl
    · exact yields_of_sight hheeded.1 hheeded.2 hx hP hl
    · rintro s l s' ⟨hs, hy⟩ _ hl
      exact ⟨hstep hs hl, hs.yields_step (hstep hs hl) hy (fun _ ↦ World.any_admits l) hl⟩
  exact Thread.result_yields hyields.2 hr

/-- A use case ends as it must in the world of its run, whatever the others do. -/
theorem Sound.result_yields {program : T → UseCase K S D E N A R} {ls : List (T × Move D)}
    (hinv : rely.inv s₀) (hallow : ∀ t note s, (p t).allow note s)
    (hprogram : ∀ t, (program t).Ok rely (p t) [] s₀)
    (h : Run System.step anyStep (System.start s₀ program) ls s)
    (hshows : ∀ x, Sighted (System.start s₀ program) ls s t (· = x) → w.shows x)
    (hanswers : ∀ d, (t, .ask d) ∈ ls → w.answers d)
    (hyields : (program t).Yields rely w Q [] s₀) {result : R}
    (hr : (s.threads t).result = some result) : Q result (s.threads t).own := by
  have hrun : ∀ {ls s}, Run System.step anyStep (System.start s₀ program) ls s →
      (∀ x, Sighted (System.start s₀ program) ls s t (· = x) → w.shows x) →
      (∀ d, (t, .ask d) ∈ ls → w.answers d) →
      Sound rely p s₀ s ∧ (s.threads t).phase.Yields rely w Q (s.threads t).own s.db := by
    intro ls s h
    induction h with
    | nil => exact fun _ _ ↦ ⟨run_sound hinv hprogram .nil, hyields⟩
    | @snoc ls s s' l hrun _ hl ih =>
      intro hshows hanswers
      obtain ⟨hs, hy⟩ := ih
        (fun x ⟨ls₁, move, ls₂, s₁, s₂, heq, h₁, hx, hm, h₂⟩ ↦ hshows x
          ⟨ls₁, move, ls₂ ++ [l], s₁, s₂, by simp [heq], h₁, hx, hm, .snoc h₂ trivial hl⟩)
        (fun d hd ↦ hanswers d (List.mem_append_left _ hd))
      have hs' := step_sound hs (admitted_of_allow (hallow _) _) hl
      refine ⟨hs', hs.yields_step hs' hy (fun hlt ↦ ?_) hl⟩
      obtain ⟨u, move⟩ := l
      obtain rfl : u = t := hlt
      exact ⟨fun x hx ↦ hshows x ⟨ls, move, [], s, s', rfl, hrun, ⟨x, hx, rfl⟩, hl, .nil⟩,
        fun d hd ↦ hanswers d (by simp [show move = .ask d from hd])⟩
  exact Thread.result_yields (hrun h hshows hanswers).2 hr

end

end FgGas.Store
