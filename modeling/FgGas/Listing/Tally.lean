import Mathlib.Algebra.GroupWithZero.Nat
import Mathlib.Algebra.Order.BigOperators.Group.List
import Mathlib.Algebra.Order.Group.Nat
import Mathlib.Data.List.Basic
import Mathlib.Data.List.Nodup

/-!
# Counts by key

The counts of the entries that hold each of several keys add up to the count of those that
hold any of them, and that is the whole count when no entry holds another key.
-/

namespace FgGas.Listing

variable {α κ : Type} {l : List α} {p q r : α → Bool}

/-- Entries counted by one of two things that exclude each other are counted once. -/
theorem countP_or (h : ∀ a ∈ l, q a = true → r a = false) :
    l.countP (fun a ↦ q a || r a) = l.countP q + l.countP r := by
  induction l with
  | nil => rfl
  | cons a l ih =>
    have ih := ih fun b hb ↦ h b (List.mem_cons_of_mem _ hb)
    have ha := h a List.mem_cons_self
    simp only [List.countP_cons, ih]
    cases hq : q a with
    | true => simp [ha hq]; omega
    | false => simp; omega

/-- The counts of distinct keys add up. -/
theorem sum_countP_key (p : α → Bool) (key : α → κ) [∀ a k, Decidable (key a = k)]
    [∀ a (ks : List κ), Decidable (key a ∈ ks)] {ks : List κ} (hks : ks.Nodup) :
    (ks.map fun k ↦ l.countP fun a ↦ p a && key a = k).sum =
      l.countP fun a ↦ p a && key a ∈ ks := by
  induction ks with
  | nil => simp
  | cons k ks ih =>
    obtain ⟨hk, hks⟩ := List.nodup_cons.mp hks
    have hdisjoint : ∀ a ∈ l, (p a && key a = k) = true → (p a && key a ∈ ks) = false := by
      intro a _ ha
      have hkey : key a = k := by simpa using (Bool.and_eq_true_iff.mp ha).2
      simp [hkey, hk]
    rw [List.map_cons, List.sum_cons, ih hks, ← countP_or hdisjoint]
    refine List.countP_congr fun a _ ↦ ?_
    cases p a <;> simp

/-- The counts of several keys count an entry as often as its key stands among them. -/
theorem sum_countP_count [BEq κ] [LawfulBEq κ] [DecidableEq κ] (p : α → Bool) (key : α → κ)
    (ks : List κ) :
    (ks.map fun k ↦ l.countP fun a ↦ p a && decide (key a = k)).sum =
      ((l.filter p).map fun a ↦ ks.count (key a)).sum := by
  have hcount : ∀ a, (ks.map fun k ↦ if decide (key a = k) = true then 1 else 0).sum =
      ks.count (key a) := by
    intro a
    induction ks with
    | nil => rfl
    | cons k ks ih =>
      rw [List.map_cons, List.sum_cons, ih, List.count_cons]
      simp only [decide_eq_true_eq, beq_iff_eq, eq_comm (a := k)]
      omega
  induction l with
  | nil => simp
  | cons a l ih =>
    simp only [List.countP_cons, List.sum_map_add, ih]
    cases hp : p a with
    | true =>
      rw [List.filter_cons_of_pos hp, List.map_cons, List.sum_cons, ← hcount a, add_comm]
      simp
    | false => simp [hp]

/-- Numbers that are each at most another add up to as much only when they are equal. -/
theorem sum_map_eq_iff_of_le {f g : α → Nat} (h : ∀ a ∈ l, f a ≤ g a) :
    (l.map f).sum = (l.map g).sum ↔ ∀ a ∈ l, f a = g a := by
  constructor
  · intro heq a ha
    by_contra hne
    have hlt := List.sum_lt_sum f g h ⟨a, ha, lt_of_le_of_ne (h a ha) hne⟩
    omega
  · intro heq
    rw [List.map_congr_left heq]

/-- What counts nothing adds nothing. -/
theorem sum_map_filter_pos (count : α → Nat) (l : List α) :
    ((l.filter (0 < count ·)).map count).sum = (l.map count).sum := by
  induction l with
  | nil => rfl
  | cons a l ih =>
    by_cases h : 0 < count a
    · rw [List.filter_cons_of_pos (by simpa using h), List.map_cons, List.map_cons, List.sum_cons,
        List.sum_cons, ih]
    · rw [List.filter_cons_of_neg (by simpa using h), ih, List.map_cons, List.sum_cons]
      omega

/-- A count that a further condition leaves as it is counts nothing that fails it. -/
theorem countP_and_eq_iff :
    l.countP (fun a ↦ p a && q a) = l.countP p ↔ ∀ a ∈ l, p a = true → q a = true := by
  have hsplit : l.countP p = l.countP (fun a ↦ p a && q a) + l.countP fun a ↦ p a && !q a := by
    rw [← countP_or fun a _ ha ↦ by simp [(Bool.and_eq_true_iff.mp ha).2]]
    refine List.countP_congr fun a _ ↦ ?_
    cases p a <;> cases q a <;> simp
  have hnone : l.countP (fun a ↦ p a && !q a) = 0 ↔ ∀ a ∈ l, p a = true → q a = true := by
    rw [List.countP_eq_zero]
    refine forall₂_congr fun a _ ↦ ?_
    cases p a <;> cases q a <;> simp
  rw [← hnone]
  omega

end FgGas.Listing
