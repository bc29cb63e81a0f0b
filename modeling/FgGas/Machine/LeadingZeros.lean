import FgGas.Machine.Rounding
import Mathlib.Tactic.IntervalCases

/-!
# Decimal digits read as numbers

A sequence of digits is the number it stands for up to leading zeros, and that number as a double
up to what 53 bits can hold.
-/

namespace FgGas.Machine

/-- The digits after the leading zeros. -/
def significantDigits (digits : List Char) : List Char := digits.dropWhile (· = '0')

/-- The number that digits stand for. -/
abbrev digitsValue (digits : List Char) : ℕ := Nat.ofDigitChars 10 digits 0

theorem digitsValue_significant (digits : List Char) :
    digitsValue (significantDigits digits) = digitsValue digits := by
  induction digits with
  | nil => rfl
  | cons c cs ih =>
    unfold significantDigits at ih ⊢
    by_cases hc : c = '0'
    · rw [List.dropWhile_cons_of_pos (by simpa using hc), ih, hc, digitsValue, digitsValue,
        Nat.ofDigitChars_cons]
      rfl
    · rw [List.dropWhile_cons_of_neg (by simpa using hc)]

theorem digitChar_digit {c : Char} (h : c.isDigit = true) : (c.toNat - 48).digitChar = c := by
  obtain ⟨hlow, hhigh⟩ := Char.isDigit_iff_toNat.mp h
  have hlow : 48 ≤ c.toNat := hlow
  have hhigh : c.toNat ≤ 57 := hhigh
  apply Char.toNat_inj.mp
  rw [Nat.toNat_digitChar_of_lt_ten (by omega)]
  omega

/-- Digits that do not start with a zero are those of their number. -/
theorem toDigits_digitsValue {digits : List Char} (hdigit : ∀ c ∈ digits, c.isDigit = true)
    (hne : digits ≠ []) (hhead : digits.head? ≠ some '0') :
    0 < digitsValue digits ∧ Nat.toDigits 10 (digitsValue digits) = digits := by
  induction digits using List.reverseRecOn with
  | nil => exact absurd rfl hne
  | append_singleton digits c ih =>
    have hc := hdigit c (List.mem_append_right _ List.mem_cons_self)
    have hchar := digitChar_digit hc
    have hlt : c.toNat - 48 < 10 := by
      have := (Char.isDigit_iff_toNat.mp hc).2
      have : c.toNat ≤ 57 := this
      omega
    have hvalue : digitsValue (digits ++ [c]) = 10 * digitsValue digits + (c.toNat - 48) := by
      rw [digitsValue, Nat.ofDigitChars_append, Nat.ofDigitChars_cons, Nat.ofDigitChars_nil]
      rfl
    rw [hvalue]
    cases digits with
    | nil =>
      have hpos : c.toNat - 48 ≠ 0 := by
        intro hzero
        rw [hzero] at hchar
        exact hhead (by rw [← hchar]; rfl)
      have hnil : digitsValue [] = 0 := rfl
      rw [hnil, Nat.mul_zero, Nat.zero_add, Nat.toDigits_of_lt_base hlt, hchar]
      exact ⟨Nat.pos_of_ne_zero hpos, rfl⟩
    | cons d ds =>
      obtain ⟨hpos, hdigits⟩ := ih (fun x hx ↦ hdigit x (List.mem_append_left _ hx))
        (List.cons_ne_nil _ _) hhead
      refine ⟨by omega, ?_⟩
      rw [Nat.toDigits_of_base_le (by omega) (by omega)]
      have hdiv : (10 * digitsValue (d :: ds) + (c.toNat - 48)) / 10 = digitsValue (d :: ds) := by
        omega
      have hmod : (10 * digitsValue (d :: ds) + (c.toNat - 48)) % 10 = c.toNat - 48 := by omega
      rw [hdiv, hmod, hdigits, hchar]

/-- Digits stand for one number exactly when they differ in no more than leading zeros. -/
theorem digitsValue_eq_iff {a b : List Char} (ha : ∀ c ∈ a, c.isDigit = true)
    (hb : ∀ c ∈ b, c.isDigit = true) :
    digitsValue a = digitsValue b ↔ significantDigits a = significantDigits b := by
  constructor
  · intro h
    rw [← digitsValue_significant a, ← digitsValue_significant b] at h
    have hhead : ∀ digits, (significantDigits digits).head? ≠ some '0' := by
      intro digits hzero
      have := List.head?_dropWhile_not (fun c ↦ decide (c = '0')) digits
      unfold significantDigits at hzero
      rw [hzero] at this
      simp at this
    have hdigit : ∀ digits, (∀ c ∈ digits, c.isDigit = true) →
        ∀ c ∈ significantDigits digits, c.isDigit = true := fun digits hall c hc ↦
      hall c ((List.dropWhile_suffix _).mem hc)
    by_cases hna : significantDigits a = []
    · by_cases hnb : significantDigits b = []
      · rw [hna, hnb]
      · have := (toDigits_digitsValue (hdigit b hb) hnb (hhead b)).1
        rw [hna] at h
        change 0 = _ at h
        omega
    · by_cases hnb : significantDigits b = []
      · have := (toDigits_digitsValue (hdigit a ha) hna (hhead a)).1
        rw [hnb] at h
        change _ = 0 at h
        omega
      · rw [← (toDigits_digitsValue (hdigit a ha) hna (hhead a)).2, h,
          (toDigits_digitsValue (hdigit b hb) hnb (hhead b)).2]
  · intro h
    rw [← digitsValue_significant a, h, digitsValue_significant]

/-- A natural number below 2 to the 53 is a double. -/
theorem nearestDouble_natCast {n : ℕ} (h : n < 2 ^ 53) : nearestDouble (n : ℚ) = some (n : ℚ) :=
  nearestDouble_of_isDouble (Nat.cast_nonneg n)
    ⟨n, 0, by rw [Nat.abs_cast]; exact_mod_cast h, by norm_num, by norm_num, by simp⟩

/-- A natural number below 2 to the 53 shares its double with no other. -/
theorem nearestDouble_natCast_inj {m n : ℕ} (h : m < 2 ^ 53) :
    nearestDouble (m : ℚ) = nearestDouble (n : ℚ) ↔ m = n := by
  constructor
  · intro heq
    by_cases hn : n < 2 ^ 53
    · rw [nearestDouble_natCast h, nearestDouble_natCast hn] at heq
      exact_mod_cast Option.some.inj heq
    · -- 2 to the 53 is a double nearer to what is beyond it
      rw [nearestDouble_natCast h] at heq
      have hpow : IsDouble (2 ^ 53 : ℚ) :=
        ⟨1, 53, by norm_num, by norm_num, by norm_num, by norm_num⟩
      have hle := nearestDouble_nearest_of_nonneg (Nat.cast_nonneg n) heq.symm hpow
      have hm : (m : ℚ) < 2 ^ 53 := by exact_mod_cast h
      have hge : (2 ^ 53 : ℚ) ≤ n := by exact_mod_cast not_lt.mp hn
      rw [abs_of_nonneg (by linarith), abs_of_nonneg (by linarith)] at hle
      linarith
  · rintro rfl
    rfl

end FgGas.Machine
