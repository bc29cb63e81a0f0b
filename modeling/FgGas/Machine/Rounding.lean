import Mathlib.Algebra.Order.Field.Power
import Mathlib.Data.Int.Log
import Mathlib.Data.Rat.Floor
import Mathlib.Tactic.Linarith
import Mathlib.Tactic.Positivity

/-!
# Rationals rounded to doubles

The double nearest to a rational number, ties to even, or none where it is past the greatest. What
is used of it is that no other double is nearer.
-/

namespace FgGas.Machine

/-- A number that a double holds. -/
def IsDouble (q : ℚ) : Prop :=
  ∃ m e : ℤ, |m| < 2 ^ 53 ∧ -1074 ≤ e ∧ e ≤ 971 ∧ q = m * 2 ^ e

/-- The nearest integer, the even one of two. -/
def nearestEven (q : ℚ) : ℤ :=
  if q - ⌊q⌋ < 1 / 2 ∨ q - ⌊q⌋ = 1 / 2 ∧ ⌊q⌋ % 2 = 0 then ⌊q⌋ else ⌊q⌋ + 1

/-- The exponent of the last place of a double near a number. -/
def lastPlace (q : ℚ) : ℤ := max (Int.log 2 q - 52) (-1074)

/-- A number that is not negative, rounded to 53 significant bits. -/
def roundPlaces (q : ℚ) : ℚ := nearestEven (q / 2 ^ lastPlace q) * 2 ^ lastPlace q

/-- The greatest double. -/
def maxDouble : ℚ := (2 ^ 53 - 1) * 2 ^ (971 : ℤ)

/-- The nearest double, where it is finite. -/
def nearestDouble (q : ℚ) : Option ℚ :=
  if roundPlaces |q| ≤ maxDouble then
    some (if q < 0 then -roundPlaces |q| else roundPlaces |q|)
  else none

theorem abs_sub_nearestEven_le (q : ℚ) (z : ℤ) : |q - nearestEven q| ≤ |q - z| := by
  have hlow := Int.floor_le q
  have hhigh := Int.lt_floor_add_one q
  have hside : (z : ℚ) ≤ ⌊q⌋ ∨ (⌊q⌋ : ℚ) + 1 ≤ z := by
    rcases le_or_gt z ⌊q⌋ with h | h
    · exact .inl (mod_cast h)
    · exact .inr (mod_cast h)
  have hdistance : min (q - ⌊q⌋) (⌊q⌋ + 1 - q) ≤ |q - z| := by
    rcases hside with h | h
    · rw [abs_of_nonneg (by linarith)]
      exact (min_le_left _ _).trans (by linarith)
    · rw [abs_of_nonpos (by linarith)]
      exact (min_le_right _ _).trans (by linarith)
  refine le_trans ?_ hdistance
  unfold nearestEven
  split
  · next h =>
    rw [abs_of_nonneg (by linarith), le_min_iff]
    rcases h with h | h
    · exact ⟨le_rfl, by linarith⟩
    · exact ⟨le_rfl, by linarith⟩
  · next h =>
    rw [not_or, not_lt] at h
    push_cast
    rw [abs_of_nonpos (by linarith), le_min_iff]
    exact ⟨by linarith, by linarith⟩

theorem isDouble_zero : IsDouble 0 := ⟨0, 0, by norm_num, by norm_num, by norm_num, by norm_num⟩

theorem IsDouble.neg {q : ℚ} (h : IsDouble q) : IsDouble (-q) := by
  obtain ⟨m, e, hm, hlow, hhigh, rfl⟩ := h
  exact ⟨-m, e, by rwa [abs_neg], hlow, hhigh, by push_cast; ring⟩

theorem IsDouble.abs {q : ℚ} (h : IsDouble q) : IsDouble |q| := by
  rcases abs_choice q with heq | heq
  · rwa [heq]
  · rw [heq]
    exact h.neg

/-- No double is nearer to a number than the one it is rounded to. -/
theorem roundPlaces_nearest {q y : ℚ} (hq : 0 < q) (hy : IsDouble y) :
    |q - roundPlaces q| ≤ |q - y| := by
  obtain ⟨m, e, hm, hlow, _, rfl⟩ := hy
  have hunit : (0 : ℚ) < 2 ^ lastPlace q := by positivity
  -- a multiple of the last place is no nearer
  have hgrid : ∀ z : ℤ, |q - roundPlaces q| ≤ |q - z * 2 ^ lastPlace q| := by
    intro z
    have hscale : ∀ w : ℚ, q - w * 2 ^ lastPlace q =
        (q / 2 ^ lastPlace q - w) * 2 ^ lastPlace q := by
      intro w
      field_simp
    rw [roundPlaces, hscale, hscale, abs_mul, abs_mul]
    exact mul_le_mul_of_nonneg_right (abs_sub_nearestEven_le _ z) (abs_nonneg _)
  rcases le_or_gt (lastPlace q) e with hle | hlt
  · have hmultiple : (m : ℚ) * 2 ^ e = (m * 2 ^ (e - lastPlace q).toNat : ℤ) * 2 ^ lastPlace q := by
      push_cast
      rw [mul_assoc, ← zpow_natCast, ← zpow_add₀ two_ne_zero]
      congr 2
      omega
    rw [hmultiple]
    exact hgrid _
  · -- a double of smaller places is below a power of two that is a multiple and below `q`
    have hlog : lastPlace q = Int.log 2 q - 52 := by
      unfold lastPlace at hlt ⊢
      omega
    have hpower : (2 : ℚ) ^ (52 : ℕ) * 2 ^ lastPlace q ≤ q := by
      have hself := @Int.zpow_log_le_self ℚ _ _ _ _ 2 q (by norm_num) hq
      rw [← zpow_natCast, ← zpow_add₀ two_ne_zero, hlog]
      simpa using hself
    have hbelow : (m : ℚ) * 2 ^ e ≤ 2 ^ (52 : ℕ) * 2 ^ lastPlace q := by
      have hm' : (m : ℚ) ≤ 2 ^ 53 := by exact_mod_cast ((le_abs_self m).trans hm.le)
      calc (m : ℚ) * 2 ^ e ≤ 2 ^ 53 * 2 ^ e := mul_le_mul_of_nonneg_right hm' (by positivity)
        _ = 2 ^ (52 : ℕ) * 2 ^ (e + 1) := by rw [zpow_add₀ two_ne_zero]; ring
        _ ≤ 2 ^ (52 : ℕ) * 2 ^ lastPlace q :=
          mul_le_mul_of_nonneg_left (zpow_le_zpow_right₀ one_le_two (by omega)) (by positivity)
    calc |q - roundPlaces q| ≤ |q - ((2 ^ 52 : ℤ) : ℚ) * 2 ^ lastPlace q| := hgrid _
      _ = q - 2 ^ (52 : ℕ) * 2 ^ lastPlace q := by
        rw [abs_of_nonneg]
        · push_cast
          rfl
        · push_cast
          linarith
      _ ≤ q - m * 2 ^ e := by linarith
      _ ≤ |q - m * 2 ^ e| := le_abs_self _

theorem nearestDouble_nearest_of_nonneg {q x y : ℚ} (hq : 0 ≤ q) (h : nearestDouble q = some x)
    (hy : IsDouble y) : |q - x| ≤ |q - y| := by
  unfold nearestDouble at h
  split at h
  · rw [if_neg (not_lt.mpr hq), abs_of_nonneg hq] at h
    obtain rfl := Option.some.inj h
    rcases hq.eq_or_lt with rfl | hpos
    · simp [roundPlaces, nearestEven]
    · exact roundPlaces_nearest hpos hy
  · cases h

theorem nearestDouble_neg {q : ℚ} (hq : 0 < q) :
    nearestDouble (-q) = (nearestDouble q).map (-·) := by
  unfold nearestDouble
  rw [abs_neg]
  split
  · rw [if_pos (by linarith), if_neg (by linarith)]
    rfl
  · rfl

/-- The greatest double is the greatest. -/
theorem IsDouble.le_max {q : ℚ} (h : IsDouble q) : q ≤ maxDouble := by
  obtain ⟨m, e, hm, _, hhigh, rfl⟩ := h
  have hm' : (m : ℚ) ≤ 2 ^ 53 - 1 := by
    have hint : m ≤ 2 ^ 53 - 1 := by
      have := le_abs_self m
      omega
    exact_mod_cast hint
  calc (m : ℚ) * 2 ^ e ≤ (2 ^ 53 - 1) * 2 ^ e := mul_le_mul_of_nonneg_right hm' (by positivity)
    _ ≤ maxDouble :=
      mul_le_mul_of_nonneg_left (zpow_le_zpow_right₀ one_le_two hhigh) (by norm_num)

/-- A double that is not negative is rounded to itself. -/
theorem nearestDouble_of_isDouble {q : ℚ} (hq : 0 ≤ q) (h : IsDouble q) :
    nearestDouble q = some q := by
  have heq : roundPlaces q = q := by
    rcases hq.eq_or_lt with rfl | hpos
    · simp [roundPlaces, nearestEven]
    · have hnearest := roundPlaces_nearest hpos h
      rw [sub_self, abs_zero] at hnearest
      have hzero := abs_eq_zero.mp (le_antisymm hnearest (abs_nonneg _))
      linarith
  rw [nearestDouble, abs_of_nonneg hq, heq, if_pos h.le_max, if_neg (not_lt.mpr hq)]

/-- Twice a double that is not among the greatest. -/
theorem IsDouble.two_mul {q : ℚ} (h : IsDouble q) (hq : |q| ≤ 2 ^ 53) : IsDouble (2 * q) := by
  obtain ⟨m, e, hm, hlow, hhigh, rfl⟩ := h
  rcases hhigh.eq_or_lt with rfl | hlt
  · have hzero : m = 0 := by
      by_contra hne
      have hone : (1 : ℚ) ≤ |(m : ℚ)| := by exact_mod_cast Int.one_le_abs hne
      rw [abs_mul, abs_of_pos (by positivity : (0 : ℚ) < 2 ^ (971 : ℤ))] at hq
      have hle : (2 : ℚ) ^ (971 : ℤ) ≤ |(m : ℚ)| * 2 ^ (971 : ℤ) :=
        le_mul_of_one_le_left (by positivity) hone
      have hbig : (2 : ℚ) ^ (53 : ℤ) < 2 ^ (971 : ℤ) :=
        zpow_lt_zpow_right₀ one_lt_two (by norm_num)
      exact absurd (hle.trans hq) (not_le.mpr hbig)
    rw [hzero]
    simpa using isDouble_zero
  · refine ⟨m, e + 1, hm, by omega, by omega, ?_⟩
    rw [zpow_add₀ two_ne_zero, zpow_one]
    ring

/-- A number and a smaller one by some powers of ten are not rounded to one double. -/
theorem nearestDouble_ne_of_shifted {q x : ℚ} {j : ℕ} (hx : 0 < x) (hq : 0 < q) (hj : 0 < j)
    (hdouble : IsDouble (2 * x)) (h : nearestDouble q = some x) :
    nearestDouble (q / 10 ^ j) ≠ some x := by
  intro hshifted
  have hpow : (10 : ℚ) ≤ 10 ^ j := by
    calc (10 : ℚ) = 10 ^ 1 := (pow_one _).symm
      _ ≤ 10 ^ j := pow_le_pow_right₀ (by norm_num) hj
  have hsmall : q / 10 ^ j ≤ q / 10 := div_le_div_of_nonneg_left hq.le (by norm_num) hpow
  have hpos : 0 < q / 10 ^ j := by positivity
  have hzero := nearestDouble_nearest_of_nonneg hpos.le hshifted isDouble_zero
  rw [sub_zero, abs_of_pos hpos] at hzero
  have hbelow := abs_le.mp hzero
  have htwice := nearestDouble_nearest_of_nonneg hq.le h hdouble
  rw [abs_of_nonneg (by linarith), abs_of_nonneg (by linarith)] at htwice
  linarith

end FgGas.Machine
