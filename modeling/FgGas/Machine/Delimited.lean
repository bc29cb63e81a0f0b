import Mathlib.Data.List.Basic

/-!
# Codes that say where they end

A code is delimited when a code word followed by anything says where the word ends. Lists written
word by word, up to a symbol that no word starts with or up to the end, are then told apart.
-/

namespace FgGas.Machine

universe u v

variable {α : Type u} {β : Type v} {encode : α → List β}

/-- A word and what follows it are read off from both together. -/
def Delimited (encode : α → List β) : Prop :=
  ∀ ⦃a b : α⦄ ⦃r r' : List β⦄, encode a ++ r = encode b ++ r' → a = b ∧ r = r'

/-- No word starts with the symbol. -/
def NeverStarts (encode : α → List β) (stop : β) : Prop :=
  ∀ (a : α) (r r' : List β), encode a ++ r ≠ stop :: r'

/-- A list of words up to a symbol that no word starts with. -/
theorem Delimited.list_stop (h : Delimited encode) {stop : β} (hstop : NeverStarts encode stop)
    {xs ys : List α} {r r' : List β}
    (heq : xs.flatMap encode ++ stop :: r = ys.flatMap encode ++ stop :: r') :
    xs = ys ∧ r = r' := by
  induction xs generalizing ys with
  | nil =>
    cases ys with
    | nil => exact ⟨rfl, (List.cons.inj heq).2⟩
    | cons y ys =>
      rw [List.flatMap_cons, List.append_assoc] at heq
      exact absurd heq.symm (hstop y _ _)
  | cons x xs ih =>
    cases ys with
    | nil =>
      rw [List.flatMap_cons, List.append_assoc] at heq
      exact absurd heq (hstop x _ _)
    | cons y ys =>
      rw [List.flatMap_cons, List.flatMap_cons, List.append_assoc, List.append_assoc] at heq
      obtain ⟨rfl, hrest⟩ := h heq
      obtain ⟨rfl, hr⟩ := ih hrest
      exact ⟨rfl, hr⟩

/-- A list of words that are not empty, up to the end. -/
theorem Delimited.list_end (h : Delimited encode) (hne : ∀ a, encode a ≠ []) {xs ys : List α}
    (heq : xs.flatMap encode = ys.flatMap encode) : xs = ys := by
  induction xs generalizing ys with
  | nil =>
    cases ys with
    | nil => rfl
    | cons y ys =>
      rw [List.flatMap_cons] at heq
      exact absurd (List.append_eq_nil_iff.mp heq.symm).1 (hne y)
  | cons x xs ih =>
    cases ys with
    | nil =>
      rw [List.flatMap_cons] at heq
      exact absurd (List.append_eq_nil_iff.mp heq).1 (hne x)
    | cons y ys =>
      rw [List.flatMap_cons, List.flatMap_cons] at heq
      obtain ⟨rfl, hrest⟩ := h heq
      rw [ih hrest]

end FgGas.Machine
