import FgGas.Machine.Lookup

/-!
# Properties of an object

What `object[name]` finds of a plain object whose own values are objects. A name may be the
object's own, or one every object inherits; a test for truth does not tell these apart.
-/

namespace FgGas.Machine

variable {α : Type} {entries : List (String × α)} {name : String}

/-- The names every object inherits from `Object.prototype`. -/
def objectPrototype : List String :=
  ["constructor", "__defineGetter__", "__defineSetter__", "hasOwnProperty", "__lookupGetter__",
    "__lookupSetter__", "isPrototypeOf", "propertyIsEnumerable", "toString", "valueOf",
    "__proto__", "toLocaleString"]

/-- What `object[name]` finds. -/
inductive Property (α : Type)
  | own (value : α)
  | inherited
  | undefined
  deriving DecidableEq, Repr

/-- `object[name]`. -/
def property (entries : List (String × α)) (name : String) : Property α :=
  match entries.lookup name with
  | some value => .own value
  | none => if name ∈ objectPrototype then .inherited else .undefined

/-- Whether there is something. -/
def Property.isTruthy : Property α → Bool
  | .undefined => false
  | _ => true

/-- A name of the object's own is looked up. -/
theorem exists_own (h : name ∈ entries.map Prod.fst) :
    ∃ value, (name, value) ∈ entries ∧ property entries name = .own value := by
  obtain ⟨value, hlookup, hmem⟩ := exists_lookup h
  exact ⟨value, hmem, by rw [property, hlookup]⟩

/-- What is found as the object's own is one of its entries. -/
theorem mem_of_own {value : α} (h : property entries name = .own value) :
    (name, value) ∈ entries := by
  unfold property at h
  split at h
  · rename_i found hlookup
    obtain rfl := Property.own.inj h
    exact mem_of_lookup hlookup
  · split at h <;> cases h

/-- Something is found under the object's own names and the inherited ones. -/
theorem property_isTruthy : (property entries name).isTruthy = true ↔
    name ∈ entries.map Prod.fst ∨ name ∈ objectPrototype := by
  by_cases hown : name ∈ entries.map Prod.fst
  · obtain ⟨value, _, hfound⟩ := exists_own hown
    simp only [hfound, Property.isTruthy, hown, true_or]
  · have hnone : entries.lookup name = none := by
      rw [List.lookup_eq_none_iff]
      intro p hp
      have hne : name ≠ p.1 := fun heq ↦ hown (heq ▸ List.mem_map_of_mem hp)
      simpa using hne
    rw [property, hnone]
    by_cases hinherited : name ∈ objectPrototype
    · simp only [hinherited, if_true, Property.isTruthy, or_true]
    · simp only [hinherited, if_false, Property.isTruthy, hown, or_false, Bool.false_eq_true]

end FgGas.Machine
