import Mathlib.Data.List.Nodup

/-!
# Checks that throw

A check is an `Except` value without a result; a validator runs checks one after another and
stops at the first that throws. What a validator that went through has established is read
off with the lemmas below.
-/

namespace FgGas.Machine

variable {ε ε' α β : Type}

/-- Throw unless the condition holds. -/
def require (condition : Bool) (error : ε) : Except ε Unit :=
  if condition then .ok () else .error error

@[simp] theorem require_eq_ok {condition : Bool} {error : ε} :
    require condition error = .ok () ↔ condition = true := by
  cases condition <;> simp [require]

/-- Two checks in a row go through when both do. -/
theorem andThen_eq_ok {x : Except ε Unit} {y : Except ε β} {b : β} :
    (x >>= fun _ ↦ y) = .ok b ↔ x = .ok () ∧ y = .ok b := by
  cases x with
  | error e => simp [bind, Except.bind]
  | ok u => simp [bind, Except.bind]

/-- What goes on with a result goes through when both do. -/
theorem bind_eq_ok {x : Except ε α} {f : α → Except ε β} {b : β} :
    (x >>= f) = .ok b ↔ ∃ a, x = .ok a ∧ f a = .ok b := by
  cases x with
  | error e => simp [bind, Except.bind]
  | ok a => simp [bind, Except.bind]

/-- A check of each entry goes through when it does for all. -/
theorem forM_eq_ok {xs : List α} {check : α → Except ε Unit} :
    xs.forM check = .ok () ↔ ∀ x ∈ xs, check x = .ok () := by
  induction xs with
  | nil => simp [List.forM, pure, Except.pure]
  | cons x xs ih =>
    change ((check x >>= fun _ ↦ xs.forM check) = .ok ()) ↔ _
    rw [andThen_eq_ok, ih, List.forall_mem_cons]

/-- Rewording an error lets through what went through. -/
theorem mapError_ok_iff {x : Except ε α} {reword : ε → ε'} {a : α} :
    x.mapError reword = .ok a ↔ x = .ok a := by
  cases x <;> simp [Except.mapError]

/-- What is made an option of went through when there is something. -/
theorem toOption_eq_some {x : Except ε α} {a : α} : x.toOption = some a ↔ x = .ok a := by
  cases x <;> simp [Except.toOption]

section
variable [DecidableEq α]

/-- The first entry that stands earlier in the list or among those seen before. -/
def firstRepeated (seen : List α) : List α → Option α
  | [] => none
  | x :: xs => if x ∈ seen then some x else firstRepeated (x :: seen) xs

theorem firstRepeated_eq_none {seen xs : List α} :
    firstRepeated seen xs = none ↔ xs.Nodup ∧ ∀ x ∈ xs, x ∉ seen := by
  induction xs generalizing seen with
  | nil => simp [firstRepeated]
  | cons x xs ih =>
    by_cases h : x ∈ seen
    · simp [firstRepeated, h]
    · rw [firstRepeated, if_neg h, ih, List.nodup_cons, List.forall_mem_cons]
      constructor
      · rintro ⟨hnodup, hnew⟩
        refine ⟨⟨fun hx ↦ hnew x hx List.mem_cons_self, hnodup⟩, h, fun y hy hs ↦ ?_⟩
        exact hnew y hy (List.mem_cons_of_mem _ hs)
      · rintro ⟨⟨hx, hnodup⟩, _, hnew⟩
        refine ⟨hnodup, fun y hy hs ↦ ?_⟩
        rcases List.mem_cons.mp hs with rfl | hs
        · exact hx hy
        · exact hnew y hy hs

end

/-- In a list whose keys do not repeat, an entry is the first with its key. -/
theorem find?_of_nodup {κ : Type} [DecidableEq κ] {key : α → κ} {xs : List α}
    (hnodup : (xs.map key).Nodup) {x : α} (hx : x ∈ xs) :
    xs.find? (fun y ↦ key y = key x) = some x := by
  have hsome : (xs.find? fun y ↦ key y = key x).isSome := by
    rw [List.find?_isSome]
    exact ⟨x, hx, by simp⟩
  obtain ⟨y, hy⟩ := Option.isSome_iff_exists.mp hsome
  have hkey : key y = key x := by simpa using List.find?_some hy
  rw [hy, List.inj_on_of_nodup_map hnodup (List.mem_of_find?_eq_some hy) hx hkey]

end FgGas.Machine
