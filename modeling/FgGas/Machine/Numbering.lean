import Mathlib.Data.List.MinMax
import Mathlib.Order.Nat

/-!
# Numbered names

Names of a kind are numbered from 1 on. Where some of a list of names are wanted as they stand
and the others are new, the new ones are numbered above a mark that no number in use exceeds;
so as long as the mark never falls, a new name is one that was never in use.
-/

namespace FgGas.Machine

/-! ### Names and their numbers -/

/-- The name of a kind with the number. -/
def numbered (kind : String) (n : Nat) : String := kind ++ ":" ++ toString n

/-- Decimal digits that do not start with a zero. -/
def isNumeral : List Char → Bool
  | [] => false
  | c :: cs => c ≠ '0' && (c :: cs).all Char.isDigit

/-- What follows the kind in a name. -/
def numeralOf (kind name : String) : List Char := name.toList.drop (kind ++ ":").toList.length

/-- The name is one of the kind with a number from 1 on. -/
def isNumbered (kind name : String) : Bool :=
  (kind ++ ":").toList.isPrefixOf name.toList && isNumeral (numeralOf kind name)

/-- The number of a name of the kind, and 0 for any other name. -/
def numberOf (kind name : String) : Nat :=
  if isNumbered kind name then Nat.ofDigitChars 10 (numeralOf kind name) 0 else 0

/-- The digits of a positive number do not start with a zero. -/
theorem head_toDigits {n : Nat} (hn : 0 < n) : (Nat.toDigits 10 n).head? ≠ some '0' := by
  induction n using Nat.strongRecOn with
  | ind n ih =>
    by_cases hlt : n < 10
    · rw [Nat.toDigits_of_lt_base hlt]
      simp only [List.head?_cons, ne_eq, Option.some.injEq, Nat.digitChar_eq_zero]
      omega
    · rw [Nat.toDigits_of_base_le (by omega) (by omega)]
      have hrec := ih (n / 10) (by omega) (by omega)
      cases hdigits : Nat.toDigits 10 (n / 10) with
      | nil => exact absurd hdigits Nat.toDigits_ne_nil
      | cons c cs => simpa [hdigits] using hrec

theorem isNumeral_toDigits {n : Nat} (hn : 0 < n) : isNumeral (Nat.toDigits 10 n) = true := by
  have hdigit : ∀ c ∈ Nat.toDigits 10 n, c.isDigit := fun c hc ↦
    Nat.isDigit_of_mem_toDigits (by omega) (by omega) hc
  have hhead := head_toDigits hn
  cases hdigits : Nat.toDigits 10 n with
  | nil => exact absurd hdigits Nat.toDigits_ne_nil
  | cons c cs =>
    rw [hdigits] at hdigit hhead
    simp only [isNumeral, Bool.and_eq_true, List.all_eq_true]
    exact ⟨by simpa using hhead, hdigit⟩

theorem toList_numbered (kind : String) (n : Nat) :
    (numbered kind n).toList = (kind ++ ":").toList ++ Nat.toDigits 10 n := by
  rw [numbered, String.toList_append, Nat.toString_eq_ofList_toDigits, String.toList_ofList]

/-- A name has the number it was made with. -/
theorem numberOf_numbered (kind : String) {n : Nat} (hn : 0 < n) :
    numberOf kind (numbered kind n) = n := by
  have hnumeral : numeralOf kind (numbered kind n) = Nat.toDigits 10 n := by
    rw [numeralOf, toList_numbered, List.drop_left]
  have his : isNumbered kind (numbered kind n) = true := by
    simp [isNumbered, hnumeral, toList_numbered, isNumeral_toDigits hn]
  rw [numberOf, if_pos his, hnumeral, Nat.ofDigitChars_ten_toDigits]

theorem numbered_injective (kind : String) {m n : Nat} (hm : 0 < m) (hn : 0 < n)
    (h : numbered kind m = numbered kind n) : m = n := by
  rw [← numberOf_numbered kind hm, h, numberOf_numbered kind hn]

/-! ### Names that are wanted -/

/-- The names given for those wanted, numbering the new ones from `next` on up to `next'`: a
name wanted as it stands is a known one. -/
inductive Assigned {α : Type} (known : List α) (name : Nat → α) :
    Nat → List (Option α) → List α → Nat → Prop
  | nil {next : Nat} : Assigned known name next [] [] next
  | kept {next next' : Nat} {x : α} {wanted : List (Option α)} {xs : List α} (hx : x ∈ known)
      (h : Assigned known name next wanted xs next') :
      Assigned known name next (some x :: wanted) (x :: xs) next'
  | fresh {next next' : Nat} {wanted : List (Option α)} {xs : List α}
      (h : Assigned known name (next + 1) wanted xs next') :
      Assigned known name next (none :: wanted) (name next :: xs) next'

section
variable {α : Type} {known : List α} {name : Nat → α} {next next' : Nat}
  {wanted : List (Option α)} {xs : List α}

/-- What is wanted as it stands is known. -/
theorem Assigned.mem_known (h : Assigned known name next wanted xs next') {x : α}
    (hx : some x ∈ wanted) : x ∈ known := by
  induction h with
  | nil => exact absurd hx List.not_mem_nil
  | kept hknown _ ih =>
    rcases List.mem_cons.mp hx with he | hx
    · cases he
      exact hknown
    · exact ih hx
  | fresh _ ih =>
    rcases List.mem_cons.mp hx with he | hx
    · cases he
    · exact ih hx

/-- There are as many new numbers as new names. -/
theorem Assigned.next_eq (h : Assigned known name next wanted xs next') :
    next' = next + wanted.countP Option.isNone := by
  induction h with
  | nil => simp
  | kept _ _ ih => simpa using ih
  | fresh _ ih =>
    rw [ih, List.countP_cons_of_pos (by simp)]
    omega

/-- A name given is known or new. -/
theorem Assigned.mem (h : Assigned known name next wanted xs next') {x : α} (hx : x ∈ xs) :
    x ∈ known ∨ ∃ n, next ≤ n ∧ n < next' ∧ x = name n := by
  induction h with
  | nil => exact absurd hx List.not_mem_nil
  | kept hknown _ ih =>
    rcases List.mem_cons.mp hx with rfl | hx
    · exact .inl hknown
    · exact ih hx
  | @fresh next next' wanted xs h ih =>
    rcases List.mem_cons.mp hx with rfl | hx
    · have hnext := h.next_eq
      exact .inr ⟨next, le_rfl, by omega, rfl⟩
    · rcases ih hx with hx | ⟨n, hle, hlt, he⟩
      · exact .inl hx
      · exact .inr ⟨n, by omega, hlt, he⟩

/-- The name given where a new one is wanted has a new number. -/
theorem Assigned.fresh_number (h : Assigned known name next wanted xs next') {x : α}
    (hx : (none, x) ∈ wanted.zip xs) : ∃ n, next ≤ n ∧ n < next' ∧ x = name n := by
  induction h with
  | nil => exact absurd hx List.not_mem_nil
  | kept _ _ ih =>
    rcases List.mem_cons.mp hx with he | hx
    · cases he
    · exact ih hx
  | @fresh next next' wanted xs h ih =>
    rcases List.mem_cons.mp hx with he | hx
    · cases he
      have hnext := h.next_eq
      exact ⟨next, le_rfl, by omega, rfl⟩
    · obtain ⟨n, hle, hlt, he⟩ := ih hx
      exact ⟨n, by omega, hlt, he⟩

/-- Every new number is given. -/
theorem Assigned.given (h : Assigned known name next wanted xs next') {n : Nat} (hle : next ≤ n)
    (hlt : n < next') : name n ∈ xs := by
  induction h with
  | nil => omega
  | kept _ _ ih => exact List.mem_cons_of_mem _ (ih hle hlt)
  | @fresh next next' wanted xs h ih =>
    by_cases he : n = next
    · rw [he]
      exact List.mem_cons_self
    · exact List.mem_cons_of_mem _ (ih (by omega) hlt)

end

/-! ### Names below a mark -/

/-- The names are numbered from 1 to the mark. -/
def Below (kind : String) (mark : Nat) (names : List String) : Prop :=
  ∀ x ∈ names, ∃ n, 0 < n ∧ n ≤ mark ∧ x = numbered kind n

section
variable {kind : String} {mark next' : Nat} {known xs : List String} {wanted : List (Option String)}

theorem Below.mono {mark' : Nat} (h : Below kind mark xs) (hle : mark ≤ mark') :
    Below kind mark' xs := by
  intro x hx
  obtain ⟨n, hpos, hn, rfl⟩ := h x hx
  exact ⟨n, hpos, by omega, rfl⟩

theorem Below.numberOf_le (h : Below kind mark xs) {n : Nat} (hn : n ∈ xs.map (numberOf kind)) :
    n ≤ mark := by
  obtain ⟨x, hx, rfl⟩ := List.mem_map.mp hn
  obtain ⟨m, hpos, hm, rfl⟩ := h x hx
  rwa [numberOf_numbered kind hpos]

/-- Names that are given are below the mark raised by the new ones. -/
theorem Assigned.below_mark (h : Assigned known (numbered kind) (mark + 1) wanted xs next')
    (hknown : Below kind mark known) :
    Below kind (mark + wanted.countP Option.isNone) xs := by
  have hnext := h.next_eq
  intro x hx
  rcases h.mem hx with hold | ⟨n, hle, hlt, rfl⟩
  · exact hknown.mono (by omega) x hold
  · exact ⟨n, by omega, by omega, rfl⟩

/-- The highest number in use after names are given, or the mark, is the mark raised by the
new ones. -/
theorem Assigned.max_eq (h : Assigned known (numbered kind) (mark + 1) wanted xs next')
    (hknown : Below kind mark known) :
    max mark ((xs.map (numberOf kind)).foldr max 0) = mark + wanted.countP Option.isNone := by
  have hnext := h.next_eq
  have hbelow := h.below_mark hknown
  apply le_antisymm
  · refine max_le (by omega) ?_
    exact List.max_le_of_forall_le _ _ fun n hn ↦ hbelow.numberOf_le hn
  · by_cases hnone : wanted.countP Option.isNone = 0
    · omega
    · -- the last of the new numbers is in use
      refine le_trans ?_ (le_max_right _ _)
      refine List.le_max_of_le (List.mem_map_of_mem (h.given (n := next' - 1) ?_ ?_)) ?_
      · omega
      · omega
      · rw [numberOf_numbered kind (by omega)]
        omega

/-- A new name is none of those that were below the mark. -/
theorem Assigned.not_mem (h : Assigned known (numbered kind) (mark + 1) wanted xs next')
    {old : List String} (hold : Below kind mark old) {x : String}
    (hx : (none, x) ∈ wanted.zip xs) : x ∉ old := by
  intro hmem
  obtain ⟨n, hle, _, rfl⟩ := h.fresh_number hx
  obtain ⟨m, hpos, hm, he⟩ := hold _ hmem
  have := numbered_injective kind (by omega) hpos he
  omega

end

end FgGas.Machine
