import Mathlib.Data.List.Nodup

/-!
# Looking up in a list of entries
-/

namespace FgGas.Machine

universe u v
variable {α : Type u} {β : Type v} [BEq α] [LawfulBEq α] {entries : List (α × β)} {name : α}

/-- What is looked up is an entry. -/
theorem mem_of_lookup {value : β} (h : entries.lookup name = some value) :
    (name, value) ∈ entries := by
  obtain ⟨front, back, rfl, _⟩ := List.lookup_eq_some_iff.mp h
  exact List.mem_append_right _ List.mem_cons_self

/-- A name that an entry has is looked up. -/
theorem exists_lookup (h : name ∈ entries.map Prod.fst) :
    ∃ value, entries.lookup name = some value ∧ (name, value) ∈ entries := by
  cases hlookup : entries.lookup name with
  | none =>
    obtain ⟨p, hp, rfl⟩ := List.mem_map.mp h
    exact absurd (List.lookup_eq_none_iff.mp hlookup p hp) (by simp)
  | some value => exact ⟨value, rfl, mem_of_lookup hlookup⟩

/-- Among entries under names of their own, each is the one looked up. -/
theorem lookup_of_mem (hnodup : (entries.map Prod.fst).Nodup) {p : α × β} (hp : p ∈ entries) :
    entries.lookup p.1 = some p.2 := by
  obtain ⟨value, hlookup, hmem⟩ := exists_lookup (List.mem_map_of_mem hp)
  rw [hlookup, List.inj_on_of_nodup_map hnodup hp hmem rfl]

end FgGas.Machine
