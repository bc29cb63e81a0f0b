import Mathlib.Data.List.Basic
import Mathlib.Data.List.MinMax

/-!
# The worst of some values

Values ranked by their places in a list, the best first. A value that may be missing, or is not in
the list, has no rank, and where one has none there is no worst.
-/

namespace FgGas.Machine

universe u

variable {α : Type u} [DecidableEq α]

/-- The place of a value in the order, -1 where it has none. -/
def rankIn (order : List α) : Option α → Int
  | some x => if x ∈ order then order.idxOf x else -1
  | none => -1

/-- The value in the place that is the greatest of theirs. -/
def worstOf (order : List α) (values : List (Option α)) : Option α :=
  let ranks := values.map (rankIn order)
  if ranks = [] ∨ -1 ∈ ranks then none else ranks.max?.bind fun rank ↦ order[rank.toNat]?

/-- One of the values than which none is later in the order; nothing, where there is no value or
one that is not in the order. -/
def IsWorst (order : List α) (values : List (Option α)) : Option α → Prop
  | some w => some w ∈ values ∧
      ∀ v ∈ values, ∃ x ∈ order, v = some x ∧ order.idxOf x ≤ order.idxOf w
  | none => values = [] ∨ ∃ v ∈ values, ∀ x ∈ order, v ≠ some x

variable {order : List α} {values : List (Option α)} {v : Option α}

theorem rankIn_eq_neg_one : rankIn order v = -1 ↔ ∀ x ∈ order, v ≠ some x := by
  cases v with
  | none => simp [rankIn]
  | some x =>
    by_cases hx : x ∈ order
    · have hne : (order.idxOf x : Int) ≠ -1 := by omega
      simp [rankIn, hx, hne]
    · have hall : ∀ y ∈ order, x ≠ y := fun y hy heq ↦ hx (heq ▸ hy)
      simpa [rankIn, hx] using hall

theorem rankIn_of_ne (h : rankIn order v ≠ -1) :
    ∃ x ∈ order, v = some x ∧ rankIn order v = order.idxOf x := by
  cases v with
  | none => exact absurd rfl h
  | some x =>
    by_cases hx : x ∈ order
    · exact ⟨x, hx, rfl, if_pos hx⟩
    · exact absurd (if_neg hx) h

theorem isWorst_worstOf (order : List α) (values : List (Option α)) :
    IsWorst order values (worstOf order values) := by
  unfold worstOf
  dsimp only
  split
  · next h =>
    rcases h with h | h
    · exact .inl (List.map_eq_nil_iff.mp h)
    · obtain ⟨v, hv, hrank⟩ := List.mem_map.mp h
      exact .inr ⟨v, hv, rankIn_eq_neg_one.mp hrank⟩
  · next h =>
    rw [not_or] at h
    have hranked : ∀ v ∈ values, ∃ x ∈ order, v = some x ∧ rankIn order v = order.idxOf x :=
      fun v hv ↦ rankIn_of_ne fun hnone ↦ h.2 (List.mem_map.mpr ⟨v, hv, hnone⟩)
    obtain ⟨rank, hmax⟩ := Option.ne_none_iff_exists'.mp (mt List.max?_eq_none_iff.mp h.1)
    obtain ⟨hmem, hgreatest⟩ := List.max?_eq_some_iff.mp hmax
    obtain ⟨v, hv, rfl⟩ := List.mem_map.mp hmem
    obtain ⟨w, hw, rfl, hrank⟩ := hranked v hv
    have hplace : order[(order.idxOf w : Int).toNat]? = some w := by
      rw [Int.toNat_natCast, List.getElem?_eq_getElem (List.idxOf_lt_length_iff.mpr hw),
        List.getElem_idxOf]
    rw [hmax, Option.bind_some, hrank, hplace]
    refine ⟨hv, fun u hu ↦ ?_⟩
    obtain ⟨x, hx, rfl, hrank'⟩ := hranked u hu
    have hle := hgreatest _ (List.mem_map_of_mem hu)
    rw [hrank, hrank'] at hle
    exact ⟨x, hx, rfl, by omega⟩

end FgGas.Machine
