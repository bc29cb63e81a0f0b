import Mathlib.Data.List.DropRight

/-!
# Trimming

What is left of a list when the symbols that count as space are taken off both of its ends.
-/

namespace FgGas.Machine

universe u

variable {α : Type u} (isSpace : α → Bool)

/-- Take the space off both ends. -/
def trimBy (symbols : List α) : List α := (symbols.dropWhile isSpace).rdropWhile isSpace

variable {isSpace} {symbols : List α}

/-- A list that starts and ends with something else has no space to take off. -/
theorem trimBy_eq_self (hhead : ∀ c ∈ symbols.head?, isSpace c = false)
    (hlast : ∀ c ∈ symbols.getLast?, isSpace c = false) : trimBy isSpace symbols = symbols := by
  have hdrop : symbols.dropWhile isSpace = symbols := by
    cases symbols with
    | nil => rfl
    | cons c symbols => exact List.dropWhile_cons_of_neg (by simp [hhead c rfl])
  rw [trimBy, hdrop, List.rdropWhile_eq_self_iff]
  intro hne
  rw [hlast _ (List.getLast?_eq_some_getLast hne)]
  exact Bool.false_ne_true

theorem trimBy_of_all (h : ∀ c ∈ symbols, isSpace c = false) : trimBy isSpace symbols = symbols :=
  trimBy_eq_self (fun c hc ↦ h c (List.mem_of_mem_head? hc))
    fun c hc ↦ h c (List.mem_of_mem_getLast? hc)

/-- What is trimmed has no space at its ends. -/
theorem trimBy_trimBy : trimBy isSpace (trimBy isSpace symbols) = trimBy isSpace symbols := by
  have hlast (c : α) (hc : c ∈ (trimBy isSpace symbols).getLast?) : isSpace c = false := by
    obtain ⟨hne, rfl⟩ := List.mem_getLast?_eq_getLast hc
    exact Bool.eq_false_iff.mpr (List.rdropWhile_last_not isSpace _ hne)
  have hhead (c : α) (hc : c ∈ (trimBy isSpace symbols).head?) : isSpace c = false := by
    obtain ⟨rest, hrest⟩ := List.rdropWhile_prefix isSpace (l := symbols.dropWhile isSpace)
    have hhead' : c ∈ (symbols.dropWhile isSpace).head? := by
      change c ∈ ((symbols.dropWhile isSpace).rdropWhile isSpace).head? at hc
      rw [← hrest]
      cases hcase : (symbols.dropWhile isSpace).rdropWhile isSpace with
      | nil => rw [hcase] at hc; cases hc
      | cons c' tail => rw [hcase] at hc; exact hc
    have hsome := Option.mem_def.mp hhead'
    cases hdrop : symbols.dropWhile isSpace with
    | nil => rw [hdrop] at hsome; cases hsome
    | cons c' tail =>
      rw [hdrop] at hsome
      obtain rfl := Option.some.inj hsome
      have hne : symbols.dropWhile isSpace ≠ [] := by rw [hdrop]; exact List.cons_ne_nil _ _
      have := List.head_dropWhile_not isSpace hne
      simpa [hdrop] using this
  exact trimBy_eq_self hhead hlast

/-- What `String.prototype.trim` takes off. -/
def isWhitespace (c : Char) : Bool :=
  (9 ≤ c.toNat && c.toNat ≤ 13) || (0x2000 ≤ c.toNat && c.toNat ≤ 0x200A) ||
    c.toNat ∈ [0x20, 0xA0, 0x1680, 0x2028, 0x2029, 0x202F, 0x205F, 0x3000, 0xFEFF]

theorem isWhitespace_of_isDigit {c : Char} (h : c.isDigit = true) : isWhitespace c = false := by
  have hrange : 48 ≤ c.toNat ∧ c.toNat ≤ 57 := by
    simpa [Char.isDigit, UInt32.le_iff_toNat_le] using h
  simp [isWhitespace]
  omega

/-- `value.trim()`. -/
def trimText (value : String) : String := String.ofList (trimBy isWhitespace value.toList)

theorem trimText_trimText (value : String) : trimText (trimText value) = trimText value := by
  rw [trimText, trimText, String.toList_ofList, trimBy_trimBy]

end FgGas.Machine
