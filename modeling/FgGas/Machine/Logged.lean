import Mathlib.Data.List.Induction
import FgGas.Machine.Guards
import FgGas.Machine.Run

/-!
# Computations that keep a log

A computation that may throw keeps a log of what it has done on the way, and the log of one that
throws is kept too. What holds of every entry of the log, and of the result if there is one, is
derived with one rule for each way to put computations together; and so is that the log is a run
of a machine that says in which order entries may come.
-/

namespace FgGas.Machine

/-- What goes on with a result is the same where it is for the result there is. -/
theorem bind_congr_ok {ε α β : Type} {x : Except ε α} {f g : α → Except ε β}
    (h : ∀ a, x = .ok a → f a = g a) : x >>= f = x >>= g := by
  cases x with
  | error e => rfl
  | ok a => exact h a rfl

/-- What goes on with a result throws what either throws. -/
theorem bind_eq_error {ε α β : Type} {x : Except ε α} {f : α → Except ε β} {error : ε} :
    (x >>= f) = .error error ↔ x = .error error ∨ ∃ a, x = .ok a ∧ f a = .error error := by
  cases x with
  | error e => simp [bind, Except.bind]
  | ok a => simp [bind, Except.bind]

/-- What goes through a list throws what it throws at an item. -/
theorem mapM_eq_error {ε α β : Type} {xs : List α} {f : α → Except ε β} {error : ε}
    (h : xs.mapM f = .error error) : ∃ x ∈ xs, f x = .error error := by
  induction xs with
  | nil => cases h
  | cons x xs ih =>
    rw [List.mapM_cons] at h
    rcases bind_eq_error.mp h with h | ⟨_, -, h⟩
    · exact ⟨x, List.mem_cons_self, h⟩
    · rcases bind_eq_error.mp h with h | ⟨_, -, h⟩
      · obtain ⟨y, hy, h⟩ := ih h
        exact ⟨y, List.mem_cons_of_mem x hy, h⟩
      · cases h

/-- A mapping goes through when it does for all. -/
theorem mapM_eq_ok {ε α β : Type} {xs : List α} {f : α → Except ε β} {ys : List β} :
    xs.mapM f = .ok ys ↔ List.Forall₂ (fun x y ↦ f x = .ok y) xs ys := by
  induction xs generalizing ys with
  | nil =>
    refine ⟨fun h ↦ ?_, fun h ↦ ?_⟩
    · obtain rfl := Except.ok.inj h
      exact .nil
    · cases h
      rfl
  | cons x xs ih =>
    rw [List.mapM_cons, bind_eq_ok]
    constructor
    · rintro ⟨y, hy, h⟩
      obtain ⟨rest, hrest, h⟩ := bind_eq_ok.mp h
      obtain rfl := Except.ok.inj h
      exact .cons hy (ih.mp hrest)
    · rintro (_ | ⟨hy, hrest⟩)
      exact ⟨_, hy, bind_eq_ok.mpr ⟨_, ih.mpr hrest, rfl⟩⟩

/-- What is in the outcome of a mapping is the outcome for an entry. -/
theorem exists_of_mem_mapM {ε α β : Type} {xs : List α} {f : α → Except ε β} {ys : List β} {y : β}
    (h : xs.mapM f = .ok ys) (hy : y ∈ ys) : ∃ x ∈ xs, f x = .ok y := by
  have hall := mapM_eq_ok.mp h
  clear h
  induction hall with
  | nil => cases hy
  | cons hx _ ih =>
    rcases List.mem_cons.mp hy with rfl | hy
    · exact ⟨_, List.mem_cons_self, hx⟩
    · obtain ⟨x, hmem, hx⟩ := ih hy
      exact ⟨x, List.mem_cons_of_mem _ hmem, hx⟩

/-- A mapping goes through when it does for each. -/
theorem exists_mapM_iff {ε α β : Type} {xs : List α} {f : α → Except ε β} :
    (∃ ys, xs.mapM f = .ok ys) ↔ ∀ x ∈ xs, ∃ y, f x = .ok y := by
  simp only [mapM_eq_ok]
  induction xs with
  | nil => exact iff_of_true ⟨[], .nil⟩ fun _ h ↦ absurd h List.not_mem_nil
  | cons x xs ih =>
    rw [List.forall_mem_cons, ← ih]
    constructor
    · rintro ⟨ys, _ | ⟨hx, hxs⟩⟩
      exact ⟨⟨_, hx⟩, _, hxs⟩
    · rintro ⟨⟨y, hx⟩, ys, hxs⟩
      exact ⟨y :: ys, .cons hx hxs⟩

theorem map_eq_ok {ε α β : Type} {x : Except ε α} {f : α → β} {b : β} :
    x.map f = .ok b ↔ ∃ a, x = .ok a ∧ f a = b := by
  cases x <;> simp [Except.map]

theorem map_bind {ε α β γ : Type} {x : Except ε α} {f : α → Except ε β} {g : β → γ} :
    (x >>= f).map g = x >>= fun a ↦ (f a).map g := by
  cases x <;> rfl

theorem mapError_bind {ε ε' α β : Type} {x : Except ε α} {f : α → Except ε β} {reword : ε → ε'} :
    (x >>= f).mapError reword = x.mapError reword >>= fun a ↦ (f a).mapError reword := by
  cases x <;> rfl

/-- A log, and a result or an error. -/
structure Logged (κ ε α : Type) where
  log : List κ
  result : Except ε α

namespace Logged

variable {κ ε ε' α β γ : Type} {l : Logged κ ε α} {P P' : κ → Prop} {Q Q' : α → Prop}
  {R : β → Prop}

/-- A value or an error that logs nothing. -/
def lift (r : Except ε α) : Logged κ ε α := ⟨[], r⟩

/-- Log an entry. -/
def note (entry : κ) : Logged κ ε Unit := ⟨[entry], .ok ()⟩

/-- Go on with the result, if there is one. -/
def andThen (l : Logged κ ε α) (f : α → Logged κ ε β) : Logged κ ε β :=
  match l.result with
  | .ok a => ⟨l.log ++ (f a).log, (f a).result⟩
  | .error error => ⟨l.log, .error error⟩

instance : Monad (Logged κ ε) where
  pure a := lift (.ok a)
  bind := andThen

/-- Reword an error. -/
def mapError (reword : ε → ε') (l : Logged κ ε α) : Logged κ ε' α :=
  ⟨l.log, l.result.mapError reword⟩

/-- Log something else for each entry. -/
def mapLog {κ' : Type} (f : κ → κ') (l : Logged κ ε α) : Logged κ' ε α := ⟨l.log.map f, l.result⟩

/-- All of them, as they are started at once: each has its log, whichever throws. -/
def all : List (Logged κ ε α) → Logged κ ε (List α)
  | [] => pure []
  | l :: rest =>
    ⟨l.log ++ (all rest).log, do return (← l.result) :: (← (all rest).result)⟩

/-- Two started at once. -/
def both (l : Logged κ ε α) (l' : Logged κ ε β) : Logged κ ε (α × β) :=
  ⟨l.log ++ l'.log, do return (← l.result, ← l'.result)⟩

theorem result_bind {f : α → Logged κ ε β} :
    (l >>= f).result = l.result >>= fun a ↦ (f a).result := by
  change (andThen l f).result = _
  unfold andThen
  cases l.result <;> rfl

/-- Several started at once have their results when each has its own. -/
theorem all_eq_ok {ls : List (Logged κ ε α)} {results : List α} :
    (all ls).result = .ok results ↔ List.Forall₂ (fun l a ↦ l.result = .ok a) ls results := by
  induction ls generalizing results with
  | nil =>
    refine ⟨fun h ↦ ?_, fun h ↦ ?_⟩
    · obtain rfl := Except.ok.inj h
      exact .nil
    · cases h
      rfl
  | cons l ls ih =>
    change (do return (← l.result) :: (← (all ls).result)) = Except.ok results ↔ _
    refine ⟨fun h ↦ ?_, fun h ↦ ?_⟩
    · obtain ⟨a, ha, h⟩ := bind_eq_ok.mp h
      obtain ⟨rest, hrest, h⟩ := bind_eq_ok.mp h
      obtain rfl := Except.ok.inj h
      exact .cons ha (ih.mp hrest)
    · cases h with
      | cons ha hrest =>
        rw [ha, ih.mpr hrest]
        rfl

theorem both_eq_ok {l' : Logged κ ε β} {a : α} {b : β} :
    (both l l').result = .ok (a, b) ↔ l.result = .ok a ∧ l'.result = .ok b := by
  change (do return (← l.result, ← l'.result)) = Except.ok (a, b) ↔ _
  refine ⟨fun h ↦ ?_, fun ⟨ha, hb⟩ ↦ by rw [ha, hb]; rfl⟩
  obtain ⟨a', ha, h⟩ := bind_eq_ok.mp h
  obtain ⟨b', hb, h⟩ := bind_eq_ok.mp h
  obtain ⟨rfl, rfl⟩ := Prod.mk.inj (Except.ok.inj h)
  exact ⟨ha, hb⟩

/-- What holds of each entry logged and of the result. -/
structure Ensures (l : Logged κ ε α) (P : κ → Prop) (Q : α → Prop) : Prop where
  log : ∀ entry ∈ l.log, P entry
  result : ∀ a, l.result = .ok a → Q a

theorem Ensures.mono (h : l.Ensures P Q) (hlog : ∀ entry, P entry → P' entry)
    (hresult : ∀ a, Q a → Q' a) : l.Ensures P' Q' where
  log entry hentry := hlog entry (h.log entry hentry)
  result a ha := hresult a (h.result a ha)

theorem ensures_lift {r : Except ε α} (h : ∀ a, r = .ok a → Q a) :
    (lift r : Logged κ ε α).Ensures P Q where
  log _ hentry := absurd hentry List.not_mem_nil
  result := h

theorem ensures_pure {a : α} (h : Q a) : (pure a : Logged κ ε α).Ensures P Q :=
  ensures_lift fun _ hb ↦ Except.ok.inj hb ▸ h

theorem ensures_note {entry : κ} (h : P entry) : (note entry : Logged κ ε Unit).Ensures P
    fun _ ↦ True where
  log other hother := by
    rw [List.mem_singleton.mp hother]
    exact h
  result _ _ := trivial

theorem Ensures.bind {f : α → Logged κ ε β} (h : l.Ensures P Q)
    (hf : ∀ a, Q a → (f a).Ensures P R) : (l >>= f).Ensures P R := by
  change (andThen l f).Ensures P R
  unfold andThen
  split
  · next a ha =>
    have hfa := hf a (h.result a ha)
    refine ⟨fun entry hentry ↦ ?_, hfa.result⟩
    rcases List.mem_append.mp hentry with hentry | hentry
    · exact h.log entry hentry
    · exact hfa.log entry hentry
  · exact ⟨h.log, fun b hb ↦ by cases hb⟩

theorem Ensures.mapError {reword : ε → ε'} (h : l.Ensures P Q) :
    (l.mapError reword).Ensures P Q where
  log := h.log
  result a ha := h.result a (mapError_ok_iff.mp ha)

theorem Ensures.mapLog {κ' : Type} {f : κ → κ'} {P : κ' → Prop}
    (h : l.Ensures (fun entry ↦ P (f entry)) Q) : (l.mapLog f).Ensures P Q where
  log _ hmapped := by
    obtain ⟨entry, hentry, rfl⟩ := List.mem_map.mp hmapped
    exact h.log entry hentry
  result := h.result

/-- Of several started at once, each ensures what its result is to fulfil. -/
theorem ensures_all {ls : List γ} {f : γ → Logged κ ε α} {Q : γ → α → Prop}
    (h : ∀ c ∈ ls, (f c).Ensures P (Q c)) :
    (all (ls.map f)).Ensures P fun results ↦ List.Forall₂ Q ls results := by
  induction ls with
  | nil => exact ensures_pure .nil
  | cons c ls ih =>
    have hc := h c List.mem_cons_self
    have hrest := ih fun c' hc' ↦ h c' (List.mem_cons_of_mem c hc')
    refine ⟨fun entry hentry ↦ ?_, fun results hresults ↦ ?_⟩
    · rcases List.mem_append.mp hentry with hentry | hentry
      · exact hc.log entry hentry
      · exact hrest.log entry hentry
    · obtain ⟨a, ha, hresults⟩ := bind_eq_ok.mp hresults
      obtain ⟨rest, hrest', hresults⟩ := bind_eq_ok.mp hresults
      obtain rfl := Except.ok.inj hresults
      exact .cons (hc.result a ha) (hrest.result rest hrest')

/-! ### What a computation throws -/

/-- What holds of every error. -/
def Throws (l : Logged κ ε α) (E : ε → Prop) : Prop := ∀ error, l.result = .error error → E error

section
variable {E E' : ε → Prop}

theorem throws_lift {r : Except ε α} (h : ∀ error, r = .error error → E error) :
    (lift r : Logged κ ε α).Throws E := h

theorem throws_pure {a : α} : (pure a : Logged κ ε α).Throws E := fun _ h ↦ by cases h

theorem throws_note {entry : κ} : (note entry : Logged κ ε Unit).Throws E := fun _ h ↦ by cases h

theorem Throws.mono (h : l.Throws E) (hE : ∀ error, E error → E' error) : l.Throws E' :=
  fun error herror ↦ hE error (h error herror)

/-- What goes on with a result throws what either throws. -/
theorem Throws.bind {f : α → Logged κ ε β} (h : l.Throws E)
    (hf : ∀ a, l.result = .ok a → (f a).Throws E) : (l >>= f).Throws E := by
  change (andThen l f).Throws E
  unfold andThen
  split
  · next a ha => exact hf a ha
  · next error herror => exact fun other hother ↦ Except.error.inj hother ▸ h error herror

/-- What went on with a result had one. -/
theorem bind_eq_ok {f : α → Logged κ ε β} {b : β} (h : (l >>= f).result = .ok b) :
    ∃ a, l.result = .ok a ∧ (f a).result = .ok b := by
  change (andThen l f).result = .ok b at h
  unfold andThen at h
  split at h
  · next a ha => exact ⟨a, ha, h⟩
  · cases h

theorem bind_ok {f : α → Logged κ ε β} {a : α} {b : β} (h : l.result = .ok a)
    (h' : (f a).result = .ok b) : (l >>= f).result = .ok b := by
  rw [result_bind, h]
  exact h'

/-- Several started at once throw what one of them throws. -/
theorem throws_all {ls : List (Logged κ ε α)} (h : ∀ l ∈ ls, l.Throws E) : (all ls).Throws E := by
  induction ls with
  | nil => exact throws_pure
  | cons l ls ih =>
    intro error herror
    change (do return (← l.result) :: (← (all ls).result)) = Except.error error at herror
    cases hl : l.result with
    | error e =>
      rw [hl] at herror
      exact Except.error.inj herror ▸ h l List.mem_cons_self e hl
    | ok a =>
      cases hrest : (all ls).result with
      | error e =>
        rw [hl, hrest] at herror
        exact Except.error.inj herror ▸
          ih (fun l' hl' ↦ h l' (List.mem_cons_of_mem l hl')) e hrest
      | ok rest =>
        rw [hl, hrest] at herror
        cases herror

end

/-! ### What is logged and what is thrown -/

/-- What holds of each entry logged and of what is thrown. -/
structure Keeps (l : Logged κ ε α) (P : κ → Prop) (E : ε → Prop) : Prop where
  log : ∀ entry ∈ l.log, P entry
  throws : l.Throws E

section
variable {E E' : ε → Prop}

theorem Keeps.mono (h : l.Keeps P E) (hlog : ∀ entry, P entry → P' entry)
    (hthrows : ∀ error, E error → E' error) : l.Keeps P' E' where
  log entry hentry := hlog entry (h.log entry hentry)
  throws := h.throws.mono hthrows

theorem keeps_lift {r : Except ε α} (h : ∀ error, r = .error error → E error) :
    (lift r : Logged κ ε α).Keeps P E where
  log _ hentry := absurd hentry List.not_mem_nil
  throws := throws_lift h

theorem keeps_pure {a : α} : (pure a : Logged κ ε α).Keeps P E :=
  keeps_lift fun _ h ↦ by cases h

theorem keeps_note {entry : κ} (h : P entry) : (note entry : Logged κ ε Unit).Keeps P E where
  log other hother := by
    rw [List.mem_singleton.mp hother]
    exact h
  throws := throws_note

theorem Keeps.bind {f : α → Logged κ ε β} (h : l.Keeps P E)
    (hf : ∀ a, l.result = .ok a → (f a).Keeps P E) : (l >>= f).Keeps P E where
  log entry hentry := by
    change entry ∈ (andThen l f).log at hentry
    unfold andThen at hentry
    split at hentry
    · next a ha =>
      rcases List.mem_append.mp hentry with hentry | hentry
      · exact h.log entry hentry
      · exact (hf a ha).log entry hentry
    · exact h.log entry hentry
  throws := h.throws.bind fun a ha ↦ (hf a ha).throws

theorem keeps_all {ls : List (Logged κ ε α)} (h : ∀ l ∈ ls, l.Keeps P E) :
    (all ls).Keeps P E where
  log entry hentry := by
    induction ls with
    | nil => exact absurd hentry List.not_mem_nil
    | cons l ls ih =>
      rcases List.mem_append.mp hentry with hentry | hentry
      · exact (h l List.mem_cons_self).log entry hentry
      · exact ih (fun l' hl' ↦ h l' (List.mem_cons_of_mem l hl')) hentry
  throws := throws_all fun l hl ↦ (h l hl).throws

theorem Keeps.mapError {E' : ε' → Prop} {reword : ε → ε'} (h : l.Keeps P E)
    (hreword : ∀ error, E error → E' (reword error)) : (l.mapError reword).Keeps P E' where
  log := h.log
  throws error herror := by
    change l.result.mapError reword = .error error at herror
    cases hresult : l.result with
    | ok a => rw [hresult] at herror; cases herror
    | error error' =>
      rw [hresult] at herror
      exact Except.error.inj herror ▸ hreword error' (h.throws error' hresult)

theorem Keeps.both {l' : Logged κ ε β} (h : l.Keeps P E) (h' : l'.Keeps P E) :
    (both l l').Keeps P E where
  log entry hentry := by
    rcases List.mem_append.mp hentry with hentry | hentry
    · exact h.log entry hentry
    · exact h'.log entry hentry
  throws error herror := by
    change (do return (← l.result, ← l'.result)) = Except.error error at herror
    cases ha : l.result with
    | error e =>
      rw [ha] at herror
      exact Except.error.inj herror ▸ h.throws e ha
    | ok a =>
      cases hb : l'.result with
      | error e =>
        rw [ha, hb] at herror
        exact Except.error.inj herror ▸ h'.throws e hb
      | ok b =>
        rw [ha, hb] at herror
        cases herror

end

/-! ### Logs that a machine follows -/

section
variable {σ : Type} {step : σ → κ → Option σ} {ok : σ → κ → Prop} {s s' : σ}
  {G : α → σ → Prop} {H : β → σ → Prop}

/-- The log is a run of the machine, and where there is a result it ends in a state that goes
with it. -/
def Follows (step : σ → κ → Option σ) (ok : σ → κ → Prop) (s : σ) (l : Logged κ ε α)
    (G : α → σ → Prop) : Prop :=
  ∃ s', Run step ok s l.log s' ∧ ∀ a, l.result = .ok a → G a s'

theorem follows_lift {r : Except ε α} (h : ∀ a, r = .ok a → G a s) :
    Follows step ok s (lift r) G := ⟨s, .nil, h⟩

theorem follows_pure {a : α} (h : G a s) : Follows step ok s (pure a : Logged κ ε α) G :=
  follows_lift fun _ hb ↦ Except.ok.inj hb ▸ h

theorem follows_note {entry : κ} (hok : ok s entry) (hstep : step s entry = some s') :
    Follows step ok s (note entry : Logged κ ε Unit) fun _ after ↦ after = s' :=
  ⟨s', Run.snoc .nil hok hstep, fun _ _ ↦ rfl⟩

theorem Follows.bind {f : α → Logged κ ε β} (h : Follows step ok s l G)
    (hf : ∀ a s', G a s' → Follows step ok s' (f a) H) : Follows step ok s (l >>= f) H := by
  obtain ⟨s', hrun, hresult⟩ := h
  change Follows step ok s (andThen l f) H
  unfold andThen
  split
  · next a ha =>
    obtain ⟨s'', hrun', hresult'⟩ := hf a s' (hresult a ha)
    exact ⟨s'', hrun.append hrun', hresult'⟩
  · exact ⟨s', hrun, fun b hb ↦ by cases hb⟩

/-- Entries that leave the machine where it is may come at any time. -/
theorem run_of_stays {log : List κ} (h : ∀ entry ∈ log, ok s entry ∧ step s entry = some s) :
    Run step ok s log s := by
  induction log using List.reverseRecOn with
  | nil => exact .nil
  | append_singleton log entry ih =>
    obtain ⟨hok, hstep⟩ := h entry (List.mem_append_right _ List.mem_cons_self)
    exact .snoc (ih fun other hother ↦ h other (List.mem_append_left _ hother)) hok hstep

theorem Ensures.follows (h : l.Ensures P Q)
    (hstay : ∀ entry, P entry → ok s entry ∧ step s entry = some s) :
    Follows step ok s l fun a s' ↦ s' = s ∧ Q a :=
  ⟨s, run_of_stays fun entry hentry ↦ hstay entry (h.log entry hentry),
    fun a ha ↦ ⟨rfl, h.result a ha⟩⟩

end

end Logged

end FgGas.Machine
