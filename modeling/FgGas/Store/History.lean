import FgGas.Store.Sound

/-!
# What the log says of the state

The changes of the log lead one to the next, from the first state to the current one: what
each change keeps lasts from where it first holds, and what has come to hold was brought by
one of them.
-/

namespace FgGas.Store

variable {K S D E N A R T : Type} {P : S → Prop}

/-- The changes of the log, one to the next. -/
def Chained (s₀ : S) (log : List (Change S T)) (db : S) : Prop :=
  log.map Change.before ++ [db] = s₀ :: log.map Change.after

theorem chained_cons {s₀ db : S} {c : Change S T} {log : List (Change S T)} :
    Chained s₀ (c :: log) db ↔ c.before = s₀ ∧ Chained c.after log db := by
  simp [Chained]

/-- What every change keeps holds at the end if it holds at the start. -/
theorem Chained.lasts {s₀ db : S} {log : List (Change S T)} (h : Chained s₀ log db)
    (hkeep : ∀ c ∈ log, P c.before → P c.after) (hstart : P s₀) : P db := by
  induction log generalizing s₀ with
  | nil =>
    have hdb : db = s₀ := by simpa [Chained] using h
    rw [hdb]
    exact hstart
  | cons c log ih =>
    obtain ⟨rfl, hrest⟩ := chained_cons.mp h
    exact ih hrest (fun d hd ↦ hkeep d (List.mem_cons_of_mem _ hd))
      (hkeep c List.mem_cons_self hstart)

/-- What every change keeps and holds at the start holds before and after each of them. -/
theorem Chained.every {s₀ db : S} {log : List (Change S T)} (h : Chained s₀ log db)
    (hkeep : ∀ c ∈ log, P c.before → P c.after) (hstart : P s₀) :
    ∀ c ∈ log, P c.before ∧ P c.after := by
  induction log generalizing s₀ with
  | nil => exact fun c hc ↦ absurd hc List.not_mem_nil
  | cons d log ih =>
    obtain ⟨rfl, hrest⟩ := chained_cons.mp h
    have hafter := hkeep d List.mem_cons_self hstart
    intro c hc
    rcases List.mem_cons.mp hc with rfl | hc
    · exact ⟨hstart, hafter⟩
    · exact ih hrest (fun c hc ↦ hkeep c (List.mem_cons_of_mem _ hc)) hafter c hc

/-- What every change keeps and holds after one of them holds at the end. -/
theorem Chained.kept {s₀ db : S} {log : List (Change S T)} (h : Chained s₀ log db)
    (hkeep : ∀ c ∈ log, P c.before → P c.after) {c : Change S T} (hc : c ∈ log)
    (hafter : P c.after) : P db := by
  induction log generalizing s₀ with
  | nil => exact absurd hc List.not_mem_nil
  | cons d log ih =>
    obtain ⟨_, hrest⟩ := chained_cons.mp h
    have hkeep' : ∀ c ∈ log, P c.before → P c.after := fun c hc ↦
      hkeep c (List.mem_cons_of_mem _ hc)
    rcases List.mem_cons.mp hc with rfl | hc
    · exact hrest.lasts hkeep' hafter
    · exact ih hrest hkeep' hc

/-- What holds at the end and not at the start was brought by one of the changes. -/
theorem Chained.brought {s₀ db : S} {log : List (Change S T)} (h : Chained s₀ log db)
    (hstart : ¬ P s₀) (hend : P db) : ∃ c ∈ log, ¬ P c.before ∧ P c.after := by
  by_contra hnone
  have hkeep : ∀ c ∈ log, ¬ P c.before → ¬ P c.after := fun c hc hbefore hafter ↦
    hnone ⟨c, hc, hbefore, hafter⟩
  exact h.lasts (P := fun s ↦ ¬ P s) hkeep hstart hend

/-- What no change takes away again is brought by one of them at most. -/
theorem Chained.once {s₀ db : S} {log : List (Change S T)} (h : Chained s₀ log db)
    {brings : Change S T → Bool} (hkeep : ∀ c ∈ log, P c.before → P c.after)
    (hbrings : ∀ c ∈ log, brings c = true → ¬ P c.before ∧ P c.after) :
    log.countP brings ≤ 1 := by
  induction log generalizing s₀ with
  | nil => exact Nat.zero_le 1
  | cons c log ih =>
    obtain ⟨_, hrest⟩ := chained_cons.mp h
    have hkeep' : ∀ d ∈ log, P d.before → P d.after := fun d hd ↦
      hkeep d (List.mem_cons_of_mem _ hd)
    by_cases hc : brings c = true
    · -- from here on it holds before every change, so none brings it
      have hafter := (hbrings c List.mem_cons_self hc).2
      have hnone : log.countP brings = 0 := by
        rw [List.countP_eq_zero]
        intro d hd hbring
        exact (hbrings d (List.mem_cons_of_mem _ hd) hbring).1 (hrest.every hkeep' hafter d hd).1
      rw [List.countP_cons_of_pos hc]
      omega
    · rw [List.countP_cons_of_neg hc]
      exact ih hrest hkeep' fun d hd ↦ hbrings d (List.mem_cons_of_mem _ hd)

end FgGas.Store
