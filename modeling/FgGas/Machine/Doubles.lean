import Mathlib.Algebra.Order.Ring.Int
import Mathlib.Algebra.BigOperators.Group.List.Basic

/-!
# Integers added as doubles

A double holds 53 significant bits, so an integer of more is rounded to the nearest that it can
hold, ties to even. Sums of integers are then exact for as long as they stay where every integer is
held, and a sum that leaves that range is seen to have left it.
-/

namespace FgGas.Machine

/-- The integers that a double tells from their neighbours. -/
def SafeInteger (n : Int) : Prop := -(2 ^ 53 - 1) ≤ n ∧ n ≤ 2 ^ 53 - 1

instance (n : Int) : Decidable (SafeInteger n) := inferInstanceAs (Decidable (_ ∧ _))

/-- The nearest natural number of 53 significant bits, the even one of two. -/
def roundToDouble (n : Nat) : Nat :=
  let spacing := 2 ^ (n.log2 - 52)
  let rest := n % spacing
  if 2 * rest < spacing ∨ 2 * rest = spacing ∧ n / spacing % 2 = 0 then n / spacing * spacing
  else (n / spacing + 1) * spacing

/-- The double nearest to an integer. -/
def toDouble (n : Int) : Int := n.sign * roundToDouble n.natAbs

/-- The sum of two doubles that hold integers. -/
def addDouble (a b : Int) : Int := toDouble (a + b)

/-- What a sum in doubles runs through. -/
def runningTotals (amounts : List Int) : List Int := amounts.scanl addDouble 0

/-- What an exact sum runs through. -/
def exactTotals (amounts : List Int) : List Int := amounts.scanl (· + ·) 0

theorem roundToDouble_of_lt {n : Nat} (h : n < 2 ^ 53) : roundToDouble n = n := by
  have hlog : n.log2 - 52 = 0 := by
    by_cases hn : n = 0
    · rw [hn]
      rfl
    · have := (Nat.log2_lt hn).mpr h
      omega
  simp [roundToDouble, hlog, Nat.mod_one]

/-- What is beyond 53 bits stays there. -/
theorem le_roundToDouble {n : Nat} (h : 2 ^ 53 ≤ n) : 2 ^ 53 ≤ roundToDouble n := by
  have hn : n ≠ 0 := by omega
  have hlog : 53 ≤ n.log2 := (Nat.le_log2 hn).mpr h
  have hpow : 2 ^ n.log2 = 2 ^ 52 * 2 ^ (n.log2 - 52) := by
    rw [← pow_add]
    congr 1
    omega
  have hlow : 2 ^ n.log2 ≤ n / 2 ^ (n.log2 - 52) * 2 ^ (n.log2 - 52) := by
    rw [hpow]
    apply Nat.mul_le_mul_right
    rw [Nat.le_div_iff_mul_le (Nat.two_pow_pos _), ← hpow]
    exact Nat.log2_self_le hn
  have hle : 2 ^ 53 ≤ n / 2 ^ (n.log2 - 52) * 2 ^ (n.log2 - 52) :=
    (Nat.pow_le_pow_right (by omega) hlog).trans hlow
  unfold roundToDouble
  dsimp only
  split
  · exact hle
  · exact hle.trans (Nat.mul_le_mul_right _ (Nat.le_succ _))

theorem safeInteger_iff {n : Int} : SafeInteger n ↔ n.natAbs < 2 ^ 53 := by
  unfold SafeInteger
  omega

/-- A safe integer is held as it is. -/
theorem toDouble_of_safe {n : Int} (h : SafeInteger n) : toDouble n = n := by
  rw [toDouble, roundToDouble_of_lt (safeInteger_iff.mp h), Int.sign_mul_natAbs]

/-- No other integer is held as a safe one. -/
theorem safeInteger_toDouble {n : Int} : SafeInteger (toDouble n) ↔ SafeInteger n := by
  constructor
  · intro h
    by_contra hn
    rw [safeInteger_iff] at h hn
    have hround := le_roundToDouble (not_lt.mp hn)
    rw [toDouble, Int.natAbs_mul, Int.natAbs_natCast, Int.natAbs_sign_of_ne_zero (by omega)] at h
    omega
  · intro h
    rw [toDouble_of_safe h]
    exact h

theorem mem_scanl_self {f : Int → Int → Int} {total : Int} {amounts : List Int} :
    total ∈ amounts.scanl f total := by
  cases amounts <;> simp

theorem scanl_safe_iff {total : Int} {amounts : List Int} :
    (∀ t ∈ amounts.scanl addDouble total, SafeInteger t) ↔
      ∀ t ∈ amounts.scanl (· + ·) total, SafeInteger t := by
  induction amounts generalizing total with
  | nil => rfl
  | cons amount amounts ih =>
    rw [List.scanl_cons, List.scanl_cons, List.forall_mem_cons, List.forall_mem_cons]
    apply and_congr_right
    intro _
    by_cases hsafe : SafeInteger (total + amount)
    · rw [addDouble, toDouble_of_safe hsafe, ih]
    · have hdouble : ¬ SafeInteger (addDouble total amount) := by
        rw [addDouble, safeInteger_toDouble]
        exact hsafe
      exact iff_of_false (fun h ↦ hdouble (h _ mem_scanl_self)) fun h ↦ hsafe (h _ mem_scanl_self)

/-- The totals in doubles are all safe exactly when the exact ones are. -/
theorem runningTotals_safe_iff {amounts : List Int} :
    (∀ t ∈ runningTotals amounts, SafeInteger t) ↔ ∀ t ∈ exactTotals amounts, SafeInteger t :=
  scanl_safe_iff

/-- A sum whose exact totals are all safe is exact. -/
theorem foldl_addDouble {total : Int} {amounts : List Int}
    (h : ∀ t ∈ amounts.scanl (· + ·) total, SafeInteger t) :
    amounts.foldl addDouble total = total + amounts.sum := by
  induction amounts generalizing total with
  | nil => simp
  | cons amount amounts ih =>
    rw [List.scanl_cons, List.forall_mem_cons] at h
    rw [List.foldl_cons, addDouble, toDouble_of_safe (h.2 _ mem_scanl_self), ih h.2,
      List.sum_cons, Int.add_assoc]

end FgGas.Machine
