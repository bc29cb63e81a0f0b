import Mathlib.Data.List.Basic

/-!
# Runs of a partial step function

A machine is a partial function `step : σ → ℓ → Option σ`: the label says which party
moves and with which outside values, and `none` says that the move is not possible.
`Run step ok s₀ ls s` is a finite run from `s₀` to `s` that takes the labels `ls`, each at
a state where `ok` allows it. Safety is proved with `Run.invariant`; a concrete run is
computed with `exec`.
-/

namespace FgGas.Machine

universe u v

variable {σ : Type u} {ℓ : Type v}

/-- Finite runs of `step` from `s₀`; every step meets `ok` at the state it starts in. -/
inductive Run (step : σ → ℓ → Option σ) (ok : σ → ℓ → Prop) (s₀ : σ) : List ℓ → σ → Prop
  | nil : Run step ok s₀ [] s₀
  | snoc {ls : List ℓ} {s s' : σ} {l : ℓ} :
      Run step ok s₀ ls s → ok s l → step s l = some s' → Run step ok s₀ (ls ++ [l]) s'

/-- Every label is allowed in every state. -/
def anyStep (_ : σ) (_ : ℓ) : Prop := True

/-- Take the labels one after another; `none` as soon as one is not possible. -/
def exec (step : σ → ℓ → Option σ) : σ → List ℓ → Option σ
  | s, [] => some s
  | s, l :: ls => (step s l).bind fun s' ↦ exec step s' ls

section
variable {step : σ → ℓ → Option σ} {ok : σ → ℓ → Prop} {s₀ s s' : σ} {ls ls' : List ℓ}

/-- An invariant that may mention the labels taken so far holds at the end of every run. -/
theorem Run.invariant_labels (I : List ℓ → σ → Prop) (hinit : I [] s₀)
    (hstep : ∀ ls s l s', I ls s → ok s l → step s l = some s' → I (ls ++ [l]) s')
    (h : Run step ok s₀ ls s) : I ls s := by
  induction h with
  | nil => exact hinit
  | snoc _ hok hs ih => exact hstep _ _ _ _ ih hok hs

/-- What holds at the start and survives every allowed step holds at the end of every run. -/
theorem Run.invariant (I : σ → Prop) (hinit : I s₀)
    (hstep : ∀ s l s', I s → ok s l → step s l = some s' → I s')
    (h : Run step ok s₀ ls s) : I s :=
  Run.invariant_labels (fun _ s ↦ I s) hinit (fun _ _ _ _ ↦ hstep _ _ _) h

/-- A run of restricted steps is a run of less restricted ones. -/
theorem Run.mono {ok' : σ → ℓ → Prop} (hok : ∀ s l, ok s l → ok' s l)
    (h : Run step ok s₀ ls s) : Run step ok' s₀ ls s := by
  induction h with
  | nil => exact .nil
  | snoc _ hl hs ih => exact .snoc ih (hok _ _ hl) hs

/-- Two runs in a row make one. -/
theorem Run.append (h : Run step ok s₀ ls s) (h' : Run step ok s ls' s') :
    Run step ok s₀ (ls ++ ls') s' := by
  induction h' with
  | nil => simpa using h
  | snoc _ hl hs ih =>
    rw [← List.append_assoc]
    exact .snoc ih hl hs

/-- A computed execution is a run. -/
theorem Run.of_exec : ∀ {s₀ : σ} {ls : List ℓ} {s : σ}, exec step s₀ ls = some s →
    Run step anyStep s₀ ls s
  | s₀, [], s, h => by
    cases h
    exact .nil
  | s₀, l :: ls, s, h => by
    obtain ⟨s₁, h₁, h₂⟩ := Option.bind_eq_some_iff.mp h
    exact Run.append (.snoc .nil trivial h₁) (Run.of_exec h₂)

/-- The machine that refuses the labels `ok` does not allow. -/
def guarded (step : σ → ℓ → Option σ) (ok : σ → ℓ → Prop) [∀ s l, Decidable (ok s l)]
    (s : σ) (l : ℓ) : Option σ :=
  if ok s l then step s l else none

/-- A computed execution of allowed steps is a run of allowed steps. -/
theorem Run.of_exec_guarded [∀ s l, Decidable (ok s l)]
    (h : exec (guarded step ok) s₀ ls = some s) : Run step ok s₀ ls s := by
  have hrun := Run.of_exec h
  clear h
  induction hrun with
  | nil => exact .nil
  | snoc _ _ hs ih =>
    unfold guarded at hs
    split at hs
    · next hok => exact .snoc ih hok hs
    · cases hs

end

end FgGas.Machine
