import FgGas.Machine.Rounding
import Mathlib.Data.List.Basic
import Mathlib.Data.Nat.Prime.Basic
import Mathlib.Tactic.FieldSimp

/-!
# Numbers as text

How a double is written in decimal, and which double a decimal literal is read as. The digits a
number is written with are left open but for this, that they are read back as the number.
-/

namespace FgGas.Machine

/-- A whole number, and how many of its digits stand before the point. -/
structure Digits where
  significand : ℕ
  point : ℤ

namespace Digits

/-- The digits, as they are written. -/
def chars (d : Digits) : List Char := Nat.toDigits 10 d.significand

/-- What the digits stand for. -/
def value (d : Digits) : ℚ := d.significand * 10 ^ (d.point - d.chars.length)

end Digits

/-- An exponent, with its sign. -/
def exponentText (e : ℤ) : List Char := (if e < 0 then '-' else '+') :: Nat.toDigits 10 e.natAbs

/-- How the digits are written: with zeros after them, with the point among them or before them, or
with an exponent. -/
def Digits.text (d : Digits) : List Char :=
  if d.chars.length ≤ d.point ∧ d.point ≤ 21 then
    d.chars ++ List.replicate (d.point - d.chars.length).toNat '0'
  else if 0 < d.point ∧ d.point ≤ 21 then
    d.chars.take d.point.toNat ++ '.' :: d.chars.drop d.point.toNat
  else if -6 < d.point ∧ d.point ≤ 0 then
    '0' :: '.' :: (List.replicate (-d.point).toNat '0' ++ d.chars)
  else
    d.chars.take 1 ++ (if d.chars.length = 1 then [] else '.' :: d.chars.drop 1) ++
      'e' :: exponentText (d.point - 1)

/-- A number, written. -/
def numberText (digits : ℚ → Digits) (x : ℚ) : List Char :=
  if x = 0 then ['0'] else if x < 0 then '-' :: (digits (-x)).text else (digits x).text

/-- The digits of a positive double are read back as it. -/
def ReadBack (digits : ℚ → Digits) : Prop :=
  ∀ x, IsDouble x → 0 < x → 0 < (digits x).significand ∧ nearestDouble (digits x).value = some x

/-- A row of digits, at least one. -/
def readNatural (cs : List Char) : Option ℕ :=
  if cs ≠ [] ∧ cs.all Char.isDigit then some (Nat.ofDigitChars 10 cs 0) else none

/-- The exponent of a decimal literal. -/
def readExponent : List Char → Option ℤ
  | '-' :: cs => (readNatural cs).map fun n : ℕ ↦ -(n : ℤ)
  | '+' :: cs => (readNatural cs).map fun n : ℕ ↦ (n : ℤ)
  | cs => (readNatural cs).map fun n : ℕ ↦ (n : ℤ)

/-- What follows the digits before the point: the digits after it, and the rest. -/
def splitFraction : List Char → List Char × List Char
  | '.' :: cs => (cs.takeWhile Char.isDigit, cs.dropWhile Char.isDigit)
  | cs => ([], cs)

/-- A decimal literal without a sign. -/
def readUnsigned (cs : List Char) : Option ℚ :=
  let whole := cs.takeWhile Char.isDigit
  let (fraction, rest) := splitFraction (cs.dropWhile Char.isDigit)
  let coefficient : ℚ := Nat.ofDigitChars 10 (whole ++ fraction) 0 / 10 ^ fraction.length
  if whole = [] ∧ fraction = [] then none
  else match rest with
    | [] => some coefficient
    | 'e' :: exponent => (readExponent exponent).map fun e ↦ coefficient * 10 ^ e
    | 'E' :: exponent => (readExponent exponent).map fun e ↦ coefficient * 10 ^ e
    | _ => none

/-- A decimal literal. -/
def readLiteral : List Char → Option ℚ
  | '-' :: cs => (readUnsigned cs).map (-·)
  | '+' :: cs => readUnsigned cs
  | cs => readUnsigned cs

/-- The finite number that a text is read as. -/
def readNumber (cs : List Char) : Option ℚ := (readLiteral cs).bind nearestDouble

/-! ### Digits -/

theorem isDigit_of_mem_chars {d : Digits} {c : Char} (h : c ∈ d.chars) : c.isDigit = true :=
  Nat.isDigit_of_mem_toDigits (by omega) (by omega) h

theorem length_chars_pos (d : Digits) : 0 < d.chars.length := Nat.length_toDigits_pos

theorem ofDigitChars_zeros_append (j : ℕ) (cs : List Char) :
    Nat.ofDigitChars 10 (List.replicate j '0' ++ cs) 0 = Nat.ofDigitChars 10 cs 0 := by
  rw [Nat.ofDigitChars_append, Nat.ofDigitChars_replicate_zero, Nat.mul_zero]

/-- The significand is at least the power of ten of its first digit. -/
theorem pow_le_significand {d : Digits} (h : 0 < d.significand) :
    10 ^ (d.chars.length - 1) ≤ d.significand := by
  by_contra hlt
  by_cases hone : d.chars.length = 1
  · rw [hone] at hlt
    simp at hlt
    omega
  · have hpos := length_chars_pos d
    have hle := (Nat.length_toDigits_le_iff (by omega) (by omega)).mpr (not_le.mp hlt)
    change d.chars.length ≤ d.chars.length - 1 at hle
    omega

theorem Digits.value_pos {d : Digits} (h : 0 < d.significand) : 0 < d.value := by
  unfold Digits.value
  positivity

/-- The value is at least the power of ten that the point gives. -/
theorem pow_le_value {d : Digits} (h : 0 < d.significand) : (10 : ℚ) ^ (d.point - 1) ≤ d.value := by
  have hpos := length_chars_pos d
  have hle : (10 : ℚ) ^ (d.chars.length - 1) ≤ d.significand := by
    exact_mod_cast pow_le_significand h
  calc (10 : ℚ) ^ (d.point - 1) =
        10 ^ (d.chars.length - 1) * 10 ^ (d.point - d.chars.length) := by
        rw [← zpow_natCast, ← zpow_add₀ (by norm_num)]
        congr 1
        omega
    _ ≤ d.value := mul_le_mul_of_nonneg_right hle (by positivity)

/-! ### Reading -/

section
variable {whole fraction : List Char}

/-- Digits up to something that is none. -/
theorem digits_then (hwhole : ∀ c ∈ whole, c.isDigit = true) {rest : List Char}
    (hrest : rest.takeWhile Char.isDigit = []) :
    (whole ++ rest).takeWhile Char.isDigit = whole ∧
      (whole ++ rest).dropWhile Char.isDigit = rest := by
  have hkept : rest.dropWhile Char.isDigit = rest := by
    have hall := List.takeWhile_append_dropWhile (p := Char.isDigit) (l := rest)
    rwa [hrest, List.nil_append] at hall
  rw [List.takeWhile_append_of_pos hwhole, List.dropWhile_append_of_pos hwhole, hrest, hkept,
    List.append_nil]
  exact ⟨rfl, rfl⟩

theorem readNatural_toDigits (m : ℕ) : readNatural (Nat.toDigits 10 m) = some m := by
  have hall : (Nat.toDigits 10 m).all Char.isDigit = true :=
    List.all_eq_true.mpr fun c hc ↦ Nat.isDigit_of_mem_toDigits (by omega) (by omega) hc
  rw [readNatural, if_pos ⟨Nat.toDigits_ne_nil, hall⟩, Nat.ofDigitChars_ten_toDigits]

/-- Digits with a point among them or after them. -/
theorem readUnsigned_pointed (hwhole : ∀ c ∈ whole, c.isDigit = true) (hne : whole ≠ [])
    (hfraction : ∀ c ∈ fraction, c.isDigit = true) :
    readUnsigned (whole ++ '.' :: fraction) =
      some (Nat.ofDigitChars 10 (whole ++ fraction) 0 / 10 ^ fraction.length : ℚ) := by
  have hpoint : ('.' :: fraction).takeWhile Char.isDigit = [] := rfl
  have hend := @digits_then fraction hfraction [] rfl
  rw [List.append_nil] at hend
  simp only [readUnsigned, digits_then hwhole hpoint, splitFraction, hend, hne, false_and,
    if_false]

/-- Digits with a point among them and an exponent. -/
theorem readUnsigned_exponent (hwhole : ∀ c ∈ whole, c.isDigit = true) (hne : whole ≠ [])
    (hfraction : ∀ c ∈ fraction, c.isDigit = true) (m : ℕ) :
    readUnsigned (whole ++ '.' :: (fraction ++ 'e' :: '-' :: Nat.toDigits 10 m)) =
      some (Nat.ofDigitChars 10 (whole ++ fraction) 0 / 10 ^ fraction.length *
        10 ^ (-(m : ℤ)) : ℚ) := by
  have hpoint : ('.' :: (fraction ++ 'e' :: '-' :: Nat.toDigits 10 m)).takeWhile Char.isDigit =
      [] := rfl
  have hend := @digits_then fraction hfraction ('e' :: '-' :: Nat.toDigits 10 m) rfl
  simp only [readUnsigned, digits_then hwhole hpoint, splitFraction, hend, hne, false_and,
    if_false, readExponent, readNatural_toDigits, Option.map_some]

end

theorem count_point_of_digits {cs : List Char} (h : cs.all Char.isDigit = true) :
    cs.count '.' = 0 :=
  List.count_eq_zero.mpr fun hmem ↦ absurd (List.all_eq_true.mp h _ hmem) (by decide)

theorem count_point_takeWhile (cs : List Char) : (cs.takeWhile Char.isDigit).count '.' = 0 :=
  count_point_of_digits List.all_takeWhile

theorem count_point_dropWhile (cs : List Char) :
    (cs.dropWhile Char.isDigit).count '.' = cs.count '.' := by
  have hall := List.takeWhile_append_dropWhile (p := Char.isDigit) (l := cs)
  have hcount := congrArg (List.count '.') hall
  rwa [List.count_append, count_point_takeWhile, Nat.zero_add] at hcount

theorem count_point_readNatural {cs : List Char} {n : ℕ} (h : readNatural cs = some n) :
    cs.count '.' = 0 := by
  unfold readNatural at h
  split at h
  · next hdigits => exact count_point_of_digits hdigits.2
  · cases h

theorem count_point_readExponent {cs : List Char} {e : ℤ} (h : readExponent cs = some e) :
    cs.count '.' = 0 := by
  unfold readExponent at h
  split at h <;> obtain ⟨n, hn, _⟩ := Option.map_eq_some_iff.mp h
  · simpa using count_point_readNatural hn
  · simpa using count_point_readNatural hn
  · exact count_point_readNatural hn

theorem count_point_splitFraction (cs : List Char) :
    cs.count '.' ≤ (splitFraction cs).2.count '.' + 1 := by
  unfold splitFraction
  split
  · rw [count_point_dropWhile]
    simp
  · exact Nat.le_succ _

/-- A text with two points is no number. -/
theorem readUnsigned_two_points {cs : List Char} (h : 2 ≤ cs.count '.') :
    readUnsigned cs = none := by
  have hrest := count_point_splitFraction (cs.dropWhile Char.isDigit)
  rw [count_point_dropWhile] at hrest
  simp only [readUnsigned]
  split
  · rfl
  · split
    · next heq =>
      rw [heq] at hrest
      simp at hrest
      omega
    · next exponent heq =>
      rw [heq] at hrest
      cases hread : readExponent exponent with
      | none => rfl
      | some e =>
        have hcount := count_point_readExponent hread
        simp [hcount] at hrest
        omega
    · next exponent heq =>
      rw [heq] at hrest
      cases hread : readExponent exponent with
      | none => rfl
      | some e =>
        have hcount := count_point_readExponent hread
        simp [hcount] at hrest
        omega
    · rfl

/-! ### How a number is written -/

theorem Digits.text_plain {d : Digits} (h : d.chars.length ≤ d.point) (hpoint : d.point ≤ 21) :
    d.text.all Char.isDigit = true ∧ d.text ≠ [] ∧
      (Nat.ofDigitChars 10 d.text 0 : ℚ) = d.value := by
  have htext : d.text =
      d.chars ++ List.replicate (d.point - d.chars.length).toNat '0' := if_pos ⟨h, hpoint⟩
  rw [htext]
  refine ⟨?_, ?_, ?_⟩
  · rw [List.all_append, Bool.and_eq_true, List.all_eq_true, List.all_eq_true]
    refine ⟨fun c ↦ isDigit_of_mem_chars, fun c hc ↦ ?_⟩
    rw [List.eq_of_mem_replicate hc]
    rfl
  · have hpos := length_chars_pos d
    intro hnil
    rw [(List.append_eq_nil_iff.mp hnil).1] at hpos
    cases hpos
  · rw [Nat.ofDigitChars_append, Nat.ofDigitChars_replicate_zero, Digits.chars,
      Nat.ofDigitChars_ten_toDigits, Digits.value, mul_comm]
    push_cast
    congr 1
    rw [← zpow_natCast]
    congr 1
    unfold Digits.chars at h ⊢
    omega

theorem Digits.text_small {d : Digits} (h : d.point ≤ -6) :
    ∃ coefficient, d.text = coefficient ++
        'e' :: '-' :: Nat.toDigits 10 (1 - d.point).toNat ∧ 'e' ∉ coefficient ∧
      (coefficient = d.chars ∧ d.chars.length = 1 ∨ '.' ∈ coefficient) := by
  have hpos := length_chars_pos d
  have htext : d.text = d.chars.take 1 ++ (if d.chars.length = 1 then [] else
      '.' :: d.chars.drop 1) ++ 'e' :: exponentText (d.point - 1) := by
    unfold Digits.text
    rw [if_neg (by omega), if_neg (by omega), if_neg (by omega)]
  have hexponent : exponentText (d.point - 1) = '-' :: Nat.toDigits 10 (1 - d.point).toNat := by
    have habs : (d.point - 1).natAbs = (1 - d.point).toNat := by omega
    rw [exponentText, if_pos (by omega), habs]
  have hletter : ∀ cs : List Char, (∀ c ∈ cs, c ∈ d.chars) → 'e' ∉ cs :=
    fun cs hcs hmem ↦ absurd (isDigit_of_mem_chars (hcs _ hmem)) (by decide)
  refine ⟨_, hexponent ▸ htext, ?_, ?_⟩
  · rw [List.mem_append, not_or]
    refine ⟨hletter _ fun c ↦ List.mem_of_mem_take, ?_⟩
    split
    · exact List.not_mem_nil
    · rw [List.mem_cons, not_or]
      exact ⟨by decide, hletter _ fun c ↦ List.mem_of_mem_drop⟩
  · by_cases hone : d.chars.length = 1
    · rw [if_pos hone, List.append_nil, List.take_of_length_le (by omega)]
      exact .inl ⟨rfl, hone⟩
    · rw [if_neg hone]
      exact .inr (List.mem_append_right _ List.mem_cons_self)

theorem Digits.text_pointed {d : Digits} (h : d.point < d.chars.length) (hpoint : -6 < d.point)
    (hle : d.point ≤ 21) : ∃ whole fraction, d.text = whole ++ '.' :: fraction ∧
      (∀ c ∈ whole, c.isDigit = true) ∧ (∀ c ∈ fraction, c.isDigit = true) ∧ fraction ≠ [] := by
  unfold Digits.text
  rw [if_neg (by omega)]
  split
  · next hamong =>
    refine ⟨_, _, rfl, fun c hc ↦ isDigit_of_mem_chars (List.mem_of_mem_take hc),
      fun c hc ↦ isDigit_of_mem_chars (List.mem_of_mem_drop hc), fun hnil ↦ ?_⟩
    have := List.drop_eq_nil_iff.mp hnil
    omega
  · rw [if_pos (by omega)]
    refine ⟨['0'], _, rfl, by simp, fun c hc ↦ ?_, fun hnil ↦ ?_⟩
    · rcases List.mem_append.mp hc with hzero | hdigit
      · rw [List.eq_of_mem_replicate hzero]
        rfl
      · exact isDigit_of_mem_chars hdigit
    · have := length_chars_pos d
      rw [(List.append_eq_nil_iff.mp hnil).2] at this
      cases this

/-- The digits of a number in full. -/
def exactDigits (x : ℚ) : Digits where
  significand := x.num.natAbs * 5 ^ x.den.log2
  point := (Nat.toDigits 10 (x.num.natAbs * 5 ^ x.den.log2)).length - x.den.log2

theorem den_dvd_two_pow (m : ℤ) {e : ℤ} {k : ℕ} (h : -k ≤ e) : ((m : ℚ) * 2 ^ e).den ∣ 2 ^ k := by
  have hfraction : (m : ℚ) * 2 ^ e = (m * 2 ^ (e + k).toNat : ℤ) / (2 ^ k : ℤ) := by
    rw [eq_div_iff (by positivity)]
    push_cast
    rw [mul_assoc, ← zpow_natCast, ← zpow_natCast, ← zpow_add₀ two_ne_zero]
    congr 2
    omega
  have hdvd := Rat.den_dvd (m * 2 ^ (e + k).toNat) (2 ^ k)
  rw [Rat.divInt_eq_div, ← hfraction] at hdvd
  exact_mod_cast hdvd

theorem den_of_isDouble {x : ℚ} (h : IsDouble x) : x.den = 2 ^ x.den.log2 := by
  obtain ⟨m, e, _, hlow, _, rfl⟩ := h
  obtain ⟨j, _, hj⟩ := (Nat.dvd_prime_pow Nat.prime_two).mp (den_dvd_two_pow m (k := 1074) hlow)
  rw [hj, Nat.log2_two_pow]

theorem readBack_exactDigits : ReadBack exactDigits := by
  intro x hx hpos
  have hnum : 0 < x.num := Rat.num_pos.mpr hpos
  have hvalue : (exactDigits x).value = x := by
    have hcast : ((x.num.natAbs : ℕ) : ℚ) = x.num := by
      rw [← Int.cast_natCast, Int.natAbs_of_nonneg hnum.le]
    have hden : (x.den : ℚ) = 2 ^ x.den.log2 := by exact_mod_cast den_of_isDouble hx
    have hpoint : (exactDigits x).point - (exactDigits x).chars.length = -(x.den.log2 : ℤ) := by
      dsimp only [exactDigits, Digits.chars]
      omega
    calc (exactDigits x).value = x.num * 5 ^ x.den.log2 * 10 ^ (-(x.den.log2 : ℤ)) := by
          rw [Digits.value, hpoint, exactDigits]
          push_cast
          rw [hcast]
      _ = x.num / 2 ^ x.den.log2 := by
          have hten : (10 : ℚ) = 5 * 2 := by norm_num
          rw [zpow_neg, zpow_natCast, hten, mul_pow]
          field_simp
      _ = x := by rw [← hden, Rat.num_div_den]
  refine ⟨?_, ?_⟩
  · unfold exactDigits
    have := Int.natAbs_pos.mpr hnum.ne'
    positivity
  · rw [hvalue]
    exact nearestDouble_of_isDouble hpos.le hx

end FgGas.Machine
