import Mathlib.Data.List.Perm.Basic
import FgGas.Machine.Lookup

/-!
# Writing entries over an object

An object is the list of its entries in the order they were first written. Writing under a name
that is there replaces the value in its place; entries of several objects are written over it one
object after another, and the last one to have a name wins. Where the objects share no name, the
order in which they are written does not show in what is looked up.
-/

namespace FgGas.Machine

universe u v
variable {α : Type u} {β : Type v} [BEq α] {entries source : List (α × β)}
  {sources : List (List (α × β))} {name other : α} {value : β}

/-- Write a value under a name. -/
def setEntry (name : α) (value : β) : List (α × β) → List (α × β)
  | [] => [(name, value)]
  | entry :: rest =>
    if entry.1 == name then (name, value) :: rest else entry :: setEntry name value rest

/-- Write the entries of another object. -/
def assign (entries source : List (α × β)) : List (α × β) :=
  source.foldl (fun written p ↦ setEntry p.1 p.2 written) entries

/-- Write the entries of several objects, one after another. -/
def assignAll (entries : List (α × β)) (sources : List (List (α × β))) : List (α × β) :=
  sources.foldl assign entries

theorem assignAll_eq_assign : assignAll entries sources = assign entries sources.flatten := by
  rw [assign, List.foldl_flatten]
  rfl

/-- The first entry, or else the others. -/
theorem lookup_cons_eq : ((other, value) :: entries).lookup name =
    if name == other then some value else entries.lookup name := by
  rw [List.lookup_cons]
  cases name == other <;> rfl

/-- An entry afterwards is the one written or was there. -/
theorem mem_setEntry {p : α × β} (h : p ∈ setEntry name value entries) :
    p = (name, value) ∨ p ∈ entries := by
  induction entries with
  | nil => exact .inl (List.mem_singleton.mp h)
  | cons entry rest ih =>
    unfold setEntry at h
    split at h
    · rcases List.mem_cons.mp h with h | h
      · exact .inl h
      · exact .inr (List.mem_cons_of_mem entry h)
    · rcases List.mem_cons.mp h with rfl | h
      · exact .inr List.mem_cons_self
      · exact (ih h).imp_right (List.mem_cons_of_mem entry)

variable [LawfulBEq α]

/-- A written name is looked up as written, any other as before. -/
theorem lookup_setEntry : (setEntry name value entries).lookup other =
    if other == name then some value else entries.lookup other := by
  induction entries with
  | nil => rw [setEntry, lookup_cons_eq]
  | cons entry rest ih =>
    obtain ⟨first, old⟩ := entry
    unfold setEntry
    split
    · next hfirst =>
      obtain rfl := eq_of_beq hfirst
      rw [lookup_cons_eq, lookup_cons_eq]
      split <;> rfl
    · next hfirst =>
      rw [lookup_cons_eq, lookup_cons_eq, ih]
      by_cases h : other == first
      · have hne : ¬ (other == name) = true := fun heq ↦ hfirst (eq_of_beq h ▸ heq)
        rw [if_pos h, if_neg hne, if_pos h]
      · rw [if_neg h, if_neg h]

/-- A name stays there whatever is written. -/
theorem isSome_lookup_setEntry (h : (entries.lookup other).isSome) :
    ((setEntry name value entries).lookup other).isSome := by
  rw [lookup_setEntry]
  split
  · rfl
  · exact h

/-- A new name is written after the others. -/
theorem setEntry_of_notMem (h : name ∉ entries.map Prod.fst) :
    setEntry name value entries = entries ++ [(name, value)] := by
  induction entries with
  | nil => rfl
  | cons entry rest ih =>
    simp only [List.map_cons, List.mem_cons, not_or] at h
    have hne : ¬ (entry.1 == name) = true := fun heq ↦ h.1 (eq_of_beq heq).symm
    rw [setEntry, if_neg hne, ih h.2, List.cons_append]

/-- To write what stands there changes nothing. -/
theorem setEntry_of_lookup (h : entries.lookup name = some value) :
    setEntry name value entries = entries := by
  induction entries with
  | nil => cases h
  | cons entry rest ih =>
    obtain ⟨first, old⟩ := entry
    rw [lookup_cons_eq] at h
    unfold setEntry
    split
    · next hfirst =>
      obtain rfl := eq_of_beq hfirst
      rw [if_pos (beq_self_eq_true first)] at h
      rw [Option.some.inj h]
    · next hfirst =>
      have hne : ¬ (name == first) = true :=
        fun heq ↦ hfirst (by rw [eq_of_beq heq, beq_self_eq_true])
      rw [if_neg hne] at h
      rw [ih h]

/-- The names stay distinct. -/
theorem nodup_setEntry (h : (entries.map Prod.fst).Nodup) :
    ((setEntry name value entries).map Prod.fst).Nodup := by
  induction entries with
  | nil => exact List.nodup_singleton name
  | cons entry rest ih =>
    simp only [List.map_cons, List.nodup_cons] at h
    unfold setEntry
    split
    · next hfirst =>
      simp only [List.map_cons, List.nodup_cons]
      exact ⟨eq_of_beq hfirst ▸ h.1, h.2⟩
    · next hfirst =>
      simp only [List.map_cons, List.nodup_cons]
      refine ⟨fun hmem ↦ ?_, ih h.2⟩
      obtain ⟨p, hp, hname⟩ := List.mem_map.mp hmem
      rcases mem_setEntry hp with rfl | hp
      · exact hfirst (beq_iff_eq.mpr hname.symm)
      · exact h.1 (hname ▸ List.mem_map_of_mem hp)

/-- The last object to have a name wins over the ones before. -/
theorem lookup_assign : (assign entries source).lookup name =
    (source.reverse.lookup name).or (entries.lookup name) := by
  induction source generalizing entries with
  | nil => simp only [assign, List.foldl_nil, List.reverse_nil, List.lookup_nil, Option.none_or]
  | cons p source ih =>
    change (assign (setEntry p.1 p.2 entries) source).lookup name = _
    rw [ih, lookup_setEntry, List.reverse_cons, List.lookup_append, Option.or_assoc,
      lookup_cons_eq]
    split <;> rfl

/-- Entries under names of their own are looked up alike in any order. -/
theorem lookup_perm {l l' : List (α × β)} (h : l.Perm l') (hnodup : (l.map Prod.fst).Nodup) :
    l.lookup name = l'.lookup name := by
  have hnodup' : (l'.map Prod.fst).Nodup := (h.map Prod.fst).nodup_iff.mp hnodup
  by_cases hname : name ∈ l.map Prod.fst
  · obtain ⟨value, hlookup, hmem⟩ := exists_lookup hname
    rw [hlookup, lookup_of_mem hnodup' (h.mem_iff.mp hmem)]
  · have hname' : name ∉ l'.map Prod.fst := fun hmem ↦ hname ((h.map Prod.fst).mem_iff.mpr hmem)
    have hnone {l : List (α × β)} (hl : name ∉ l.map Prod.fst) : l.lookup name = none := by
      cases hlookup : l.lookup name with
      | none => rfl
      | some value => exact absurd (List.mem_map_of_mem (mem_of_lookup hlookup)) hl
    rw [hnone hname, hnone hname']

/-- An object's entries under names of their own are looked up before those written over. -/
theorem lookup_assign_of_nodup (hnodup : (source.map Prod.fst).Nodup) :
    (assign entries source).lookup name = (source.lookup name).or (entries.lookup name) := by
  rw [lookup_assign, lookup_perm (List.reverse_perm source).symm hnodup]

theorem nodup_assign (h : (entries.map Prod.fst).Nodup) :
    ((assign entries source).map Prod.fst).Nodup := by
  induction source generalizing entries with
  | nil => exact h
  | cons p source ih => exact ih (nodup_setEntry h)

/-- Objects that share no name are looked up in as one, in whatever order they were written. -/
theorem lookup_assignAll_of_perm {sources' : List (List (α × β))} (h : sources'.Perm sources)
    (hnodup : ((sources.flatten).map Prod.fst).Nodup) :
    (assignAll entries sources').lookup name =
      (sources.flatten.lookup name).or (entries.lookup name) := by
  have hnodup' : ((sources'.flatten).map Prod.fst).Nodup :=
    (h.flatten.map Prod.fst).nodup_iff.mpr hnodup
  rw [assignAll_eq_assign, lookup_assign_of_nodup hnodup', lookup_perm h.flatten hnodup']

end FgGas.Machine
