import FgGas.Machine.NumberText

/-!
# Decimals by their text

How many decimal places an entered number has (`src/grants/models/entitlement-template.js`), and
what a stored number is shown as, its point moved by as many digits as its field has decimal places
(`src/grants/services/map-claimable-entitlement.js`). Both work on the number's text.
-/

namespace FgGas.Grants

open Machine

/-- `#decimalPlaces`, of a number's text. -/
def decimalPlacesOf (text : List Char) : ℕ :=
  let parts := text.splitOn 'e'
  let decimals := (((parts.headD []).splitOn '.')[1]?.getD []).length
  (decimals - (parts[1]?.bind readExponent).getD 0).toNat

/-- `unscaleDecimalAsText`. -/
def unscaleDecimalAsText (digits : ℚ → Digits) (value : ℚ) (decimalPlaces : ℕ) : Option ℚ :=
  let text := numberText digits |value|
  let padded := List.replicate (decimalPlaces + 1 - text.length) '0' ++ text
  let point := padded.length - decimalPlaces
  readNumber ((if value < 0 then ['-'] else []) ++ padded.take point ++ '.' :: padded.drop point)

/-! ### Back from text -/

section
variable {digits : ℚ → Digits} {v q : ℚ} {d : ℕ} {unsigned : List Char}

/-- A literal that starts with a digit has no sign. -/
theorem readLiteral_of_digits {whole rest : List Char} (h : ∀ c ∈ whole, c.isDigit = true)
    (hne : whole ≠ []) : readLiteral (whole ++ rest) = readUnsigned (whole ++ rest) := by
  cases whole with
  | nil => exact absurd rfl hne
  | cons c whole =>
    have hc := h c List.mem_cons_self
    unfold readLiteral
    split
    · next heq => exact absurd ((List.cons.inj heq).1 ▸ hc) (by decide)
    · next heq => exact absurd ((List.cons.inj heq).1 ▸ hc) (by decide)
    · rfl

/-- A sign before a number that is read. -/
theorem readNumber_signed (hliteral : readLiteral unsigned = some q)
    (hread : readUnsigned unsigned = some q) (hq : 0 < q) (hv : v ≠ 0) :
    readNumber ((if v < 0 then ['-'] else []) ++ unsigned) = some v ↔
      nearestDouble q = some |v| := by
  unfold readNumber
  by_cases hneg : v < 0
  · have hminus : readLiteral ('-' :: unsigned) = some (-q) := by
      rw [readLiteral, hread, Option.map_some]
    rw [if_pos hneg, List.singleton_append, hminus, Option.bind_some, nearestDouble_neg hq,
      abs_of_neg hneg, Option.map_eq_some_iff]
    constructor
    · rintro ⟨x, hx, rfl⟩
      rw [hx, neg_neg]
    · exact fun h ↦ ⟨-v, h, neg_neg v⟩
  · rw [if_neg hneg, List.nil_append, hliteral, Option.bind_some, abs_of_nonneg (not_lt.mp hneg)]

/-- A text with two points is none, whatever its sign. -/
theorem readNumber_two_points (h : 2 ≤ unsigned.count '.') :
    readNumber ((if v < 0 then ['-'] else []) ++ unsigned) = none := by
  have hall : ∀ cs : List Char, 2 ≤ cs.count '.' → readLiteral cs = none := by
    intro cs hcs
    unfold readLiteral
    split
    · rw [readUnsigned_two_points (by simpa using hcs)]
      rfl
    · exact readUnsigned_two_points (by simpa using hcs)
    · exact readUnsigned_two_points hcs
  rw [readNumber, hall]
  · rfl
  · rw [List.count_append]
    omega

/-- What `unscaleDecimalAsText` reads, its sign apart. -/
def pointedText (text : List Char) (d : ℕ) : List Char :=
  let padded := List.replicate (d + 1 - text.length) '0' ++ text
  padded.take (padded.length - d) ++ '.' :: padded.drop (padded.length - d)

theorem unscaleDecimalAsText_eq (v : ℚ) (d : ℕ) : unscaleDecimalAsText digits v d =
    readNumber ((if v < 0 then ['-'] else []) ++ pointedText (numberText digits |v|) d) := by
  rw [unscaleDecimalAsText, pointedText, List.append_assoc]

/-- Digits alone are read as what they stand for, its point moved. -/
theorem readUnsigned_pointedText {text : List Char} (hdigits : ∀ c ∈ text, c.isDigit = true)
    (d : ℕ) :
    readLiteral (pointedText text d) = readUnsigned (pointedText text d) ∧
      readUnsigned (pointedText text d) = some (Nat.ofDigitChars 10 text 0 / 10 ^ d : ℚ) := by
  have hpadded : ∀ c ∈ List.replicate (d + 1 - text.length) '0' ++ text, c.isDigit = true := by
    intro c hc
    rcases List.mem_append.mp hc with hzero | hdigit
    · rw [List.eq_of_mem_replicate hzero]
      rfl
    · exact hdigits c hdigit
  have hlength : (List.replicate (d + 1 - text.length) '0' ++ text).length ≥ d + 1 := by
    rw [List.length_append, List.length_replicate]
    omega
  have hvalue := ofDigitChars_zeros_append (d + 1 - text.length) text
  unfold pointedText
  dsimp only
  generalize List.replicate (d + 1 - text.length) '0' ++ text = padded at *
  have hwhole : ∀ c ∈ padded.take (padded.length - d), c.isDigit = true :=
    fun c hc ↦ hpadded c (List.mem_of_mem_take hc)
  have hne : padded.take (padded.length - d) ≠ [] := by
    rw [← List.length_pos_iff, List.length_take]
    omega
  refine ⟨readLiteral_of_digits hwhole hne, ?_⟩
  have hfraction : (padded.drop (padded.length - d)).length = d := by
    rw [List.length_drop]
    omega
  rw [readUnsigned_pointed hwhole hne fun c hc ↦ hpadded c (List.mem_of_mem_drop hc),
    List.take_append_drop, hfraction, hvalue]

theorem count_pointedText (text : List Char) (d : ℕ) :
    (pointedText text d).count '.' = text.count '.' + 1 := by
  have hcount : (List.replicate (d + 1 - text.length) '0' ++ text).count '.' = text.count '.' := by
    rw [List.count_append, List.count_replicate]
    simp
  rw [pointedText, List.count_append, List.count_cons_self, ← Nat.add_assoc, ← List.count_append,
    List.take_append_drop, hcount]

/-- A number but 0 is written as the digits of its size after its sign. -/
theorem numberText_signed (hv : v ≠ 0) : numberText digits v =
    (if v < 0 then ['-'] else []) ++ (digits |v|).text := by
  rw [numberText, if_neg hv]
  split
  · next hneg => rw [abs_of_neg hneg, List.singleton_append]
  · next hneg => rw [abs_of_nonneg (not_lt.mp hneg), List.nil_append]

theorem numberText_abs (hv : v ≠ 0) : numberText digits |v| = (digits |v|).text := by
  rw [numberText_signed (abs_ne_zero.mpr hv), if_neg (not_lt.mpr (abs_nonneg v)), abs_abs,
    List.nil_append]

theorem notMem_sign {c : Char} (hc : c ≠ '-') : c ∉ (if v < 0 then ['-'] else []) := by
  split
  · rwa [List.mem_singleton]
  · exact List.not_mem_nil

theorem notMem_digits {cs : List Char} (h : ∀ c ∈ cs, c.isDigit = true) {c : Char}
    (hc : c.isDigit = false) : c ∉ cs := by
  intro hmem
  rw [h c hmem] at hc
  cases hc

/-- A number with a point and no exponent has the decimal places that are written. -/
theorem decimalPlacesOf_pointed {whole fraction : List Char}
    (hwhole : ∀ c ∈ whole, c.isDigit = true)
    (hfraction : ∀ c ∈ fraction, c.isDigit = true) :
    decimalPlacesOf ((if v < 0 then ['-'] else []) ++ (whole ++ '.' :: fraction)) =
      fraction.length := by
  have hletter : 'e' ∉ (if v < 0 then ['-'] else []) ++ (whole ++ '.' :: fraction) := by
    rw [List.mem_append, List.mem_append, List.mem_cons, not_or, not_or, not_or]
    exact ⟨notMem_sign (by decide), notMem_digits hwhole (by decide), by decide,
      notMem_digits hfraction (by decide)⟩
  have hpoint : '.' ∉ (if v < 0 then ['-'] else []) ++ whole := by
    rw [List.mem_append, not_or]
    exact ⟨notMem_sign (by decide), notMem_digits hwhole (by decide)⟩
  rw [decimalPlacesOf, List.splitOn_eq_singleton hletter, List.headD_cons, ← List.append_assoc,
    List.splitOn_append_cons_self_of_not_mem hpoint,
    List.splitOn_eq_singleton (notMem_digits hfraction (by decide))]
  simp

/-- A number with a negative exponent has at least as many decimal places. -/
theorem le_decimalPlacesOf_exponent {coefficient : List Char} (h : 'e' ∉ coefficient) (m : ℕ) :
    m ≤ decimalPlacesOf ((if v < 0 then ['-'] else []) ++
      (coefficient ++ 'e' :: '-' :: Nat.toDigits 10 m)) := by
  have hcoefficient : 'e' ∉ (if v < 0 then ['-'] else []) ++ coefficient := by
    rw [List.mem_append, not_or]
    exact ⟨notMem_sign (by decide), h⟩
  have hexponent : 'e' ∉ '-' :: Nat.toDigits 10 m := by
    rw [List.mem_cons, not_or]
    exact ⟨by decide, notMem_digits (fun c hc ↦
      Nat.isDigit_of_mem_toDigits (by omega) (by omega) hc) (by decide)⟩
  rw [decimalPlacesOf, ← List.append_assoc, List.splitOn_append_cons_self_of_not_mem hcoefficient,
    List.splitOn_eq_singleton hexponent]
  simp only [List.getElem?_cons_succ, List.getElem?_cons_zero, Option.bind_some, readExponent,
    readNatural_toDigits, Option.map_some, Option.getD_some]
  omega

/-- A stored number is not so large that it is written with an exponent. -/
theorem point_le (hdigits : ReadBack digits) (hv : IsDouble v) (hpos : 0 < v)
    (hsafe : v ≤ 2 ^ 53 - 1) : (digits v).point ≤ 21 := by
  obtain ⟨hsignificand, hread⟩ := hdigits v hv hpos
  by_contra hpoint
  have hbig : (10 : ℚ) ^ (21 : ℤ) ≤ (digits v).value :=
    (zpow_le_zpow_right₀ (by norm_num) (by omega)).trans (pow_le_value hsignificand)
  have hdouble : IsDouble (2 ^ 53) :=
    ⟨2 ^ 52, 1, by norm_num, by norm_num, by norm_num, by norm_num⟩
  have hnear := nearestDouble_nearest_of_nonneg (by linarith) hread hdouble
  rw [abs_of_nonneg (by linarith), abs_of_nonneg (by linarith)] at hnear
  linarith

theorem length_toDigits_add_le {m : ℕ} (h : 7 ≤ m) : (Nat.toDigits 10 m).length + 3 ≤ m := by
  have hlt : m < 10 ^ (m - 3) := by
    induction m, h using Nat.le_induction with
    | base => norm_num
    | succ m hm ih =>
      have hsucc : m + 1 - 3 = m - 3 + 1 := by omega
      rw [hsucc, pow_succ]
      omega
  have := (Nat.length_toDigits_le_iff (by omega) (by omega)).mpr hlt
  omega

/-- A single digit and a negative exponent are read as less by some powers of ten. -/
theorem readUnsigned_small {D : Digits} {text : List Char} (hone : D.chars.length = 1)
    (hpoint : D.point ≤ -6) (htext : text = D.chars ++
      'e' :: '-' :: Nat.toDigits 10 (1 - D.point).toNat) (hd : (1 - D.point).toNat ≤ d) :
    readLiteral (pointedText text d) = readUnsigned (pointedText text d) ∧
      ∃ j, 0 < j ∧ readUnsigned (pointedText text d) = some (D.value / 10 ^ j) := by
  have hlength : text.length = (Nat.toDigits 10 (1 - D.point).toNat).length + 3 := by
    rw [htext, List.length_append, hone, List.length_cons, List.length_cons]
    omega
  have hshort := length_toDigits_add_le (m := (1 - D.point).toNat) (by omega)
  obtain ⟨z, hz⟩ : ∃ z, d + 1 - text.length = z + 1 := ⟨d - text.length, by omega⟩
  have hpointed : pointedText text d = ['0'] ++ '.' :: ((List.replicate z '0' ++ D.chars) ++
      'e' :: '-' :: Nat.toDigits 10 (1 - D.point).toNat) := by
    have hpadded : (List.replicate (z + 1) '0' ++ text).length - d = 1 := by
      rw [List.length_append, List.length_replicate]
      omega
    rw [pointedText, hz, hpadded, List.replicate_succ, List.cons_append, List.take_succ_cons,
      List.take_zero, List.drop_succ_cons, List.drop_zero, htext, List.append_assoc,
      List.singleton_append]
  have hzero : ∀ c ∈ ['0'], c.isDigit = true := by simp
  have hfraction : ∀ c ∈ List.replicate z '0' ++ D.chars, c.isDigit = true := by
    intro c hc
    rcases List.mem_append.mp hc with hc | hc
    · rw [List.eq_of_mem_replicate hc]
      rfl
    · exact isDigit_of_mem_chars hc
  have hvalue : Nat.ofDigitChars 10 (['0'] ++ (List.replicate z '0' ++ D.chars)) 0 =
      D.significand := by
    have hzeros : ['0'] ++ (List.replicate z '0' ++ D.chars) =
        List.replicate (z + 1) '0' ++ D.chars := rfl
    rw [hzeros, ofDigitChars_zeros_append, Digits.chars, Nat.ofDigitChars_ten_toDigits]
  refine ⟨?_, z + 1, Nat.succ_pos z, ?_⟩
  · rw [hpointed]
    exact readLiteral_of_digits hzero (by simp)
  · rw [hpointed, readUnsigned_exponent hzero (by simp) hfraction, hvalue, List.length_append,
      List.length_replicate, hone, Digits.value, hone]
    have hexponent : -((1 - D.point).toNat : ℤ) = D.point - (1 : ℕ) := by omega
    rw [hexponent]
    congr 1
    ring

/-- A number that is accepted and stored is shown as it is exactly when it is 0 or has no decimal
places. -/
theorem unscaleDecimalAsText_eq_iff (hdigits : ReadBack digits) (hv : IsDouble v)
    (hsafe : |v| ≤ 2 ^ 53 - 1) (hplaces : decimalPlacesOf (numberText digits v) ≤ d) :
    unscaleDecimalAsText digits v d = some v ↔ v = 0 ∨ d = 0 := by
  rw [unscaleDecimalAsText_eq]
  by_cases hzero : v = 0
  · have htext : numberText digits |v| = ['0'] := by
      rw [hzero, abs_zero]
      rfl
    obtain ⟨hliteral, hread⟩ := @readUnsigned_pointedText ['0'] (by simp) d
    rw [htext, hzero, if_neg (lt_irrefl _), List.nil_append, readNumber, hliteral, hread]
    have hnone : (Nat.ofDigitChars 10 ['0'] 0 / 10 ^ d : ℚ) = 0 := by
      simp [Nat.ofDigitChars]
    rw [hnone, Option.bind_some, nearestDouble_of_isDouble le_rfl isDouble_zero]
    simp
  have hpos : 0 < |v| := abs_pos.mpr hzero
  obtain ⟨hsignificand, hread⟩ := hdigits |v| hv.abs hpos
  have hlarge := point_le hdigits hv.abs hpos hsafe
  have hshifted : ∀ j, 0 < j → nearestDouble ((digits |v|).value / 10 ^ j) ≠ some |v| := by
    intro j hj
    refine nearestDouble_ne_of_shifted hpos (Digits.value_pos hsignificand) hj ?_ hread
    exact hv.abs.two_mul (by rw [abs_abs]; linarith)
  rw [numberText_signed hzero] at hplaces
  rw [numberText_abs hzero]
  simp only [hzero, false_or]
  rcases le_or_gt (digits |v|).point (-6) with hsmall | hpoint
  · -- with a negative exponent
    obtain ⟨coefficient, htext, hletter, hform⟩ := Digits.text_small hsmall
    have hd : (1 - (digits |v|).point).toNat ≤ d := by
      rw [htext] at hplaces
      exact (le_decimalPlacesOf_exponent hletter _).trans hplaces
    have hne : d ≠ 0 := by omega
    rcases hform with ⟨rfl, hone⟩ | hdot
    · obtain ⟨hliteral, j, hj, hshift⟩ := readUnsigned_small hone hsmall htext hd
      rw [readNumber_signed (hliteral.trans hshift) hshift
        (div_pos (Digits.value_pos hsignificand) (by positivity)) hzero]
      exact iff_of_false (hshifted j hj) hne
    · rw [readNumber_two_points]
      · exact iff_of_false (by simp) hne
      · have hmem : '.' ∈ (digits |v|).text := htext ▸ List.mem_append_left _ hdot
        have := List.count_pos_iff.mpr hmem
        rw [count_pointedText]
        omega
  rcases lt_or_ge (digits |v|).point (digits |v|).chars.length with hamong | hplain
  · -- with a point of its own
    obtain ⟨whole, fraction, htext, hwhole, hfraction, hne⟩ :=
      Digits.text_pointed hamong hpoint hlarge
    have hd : 0 < d := by
      rw [htext, decimalPlacesOf_pointed hwhole hfraction] at hplaces
      exact (List.length_pos_iff.mpr hne).trans_le hplaces
    rw [readNumber_two_points]
    · exact iff_of_false (by simp) hd.ne'
    · have hmem : '.' ∈ (digits |v|).text := by simp [htext]
      have := List.count_pos_iff.mpr hmem
      rw [count_pointedText]
      omega
  · -- digits alone
    obtain ⟨hall, _, hvalue⟩ := Digits.text_plain hplain hlarge
    obtain ⟨hliteral, hshift⟩ := readUnsigned_pointedText (List.all_eq_true.mp hall) d
    rw [hvalue] at hshift
    rw [readNumber_signed (hliteral.trans hshift) hshift
      (div_pos (Digits.value_pos hsignificand) (by positivity)) hzero]
    by_cases hd : d = 0
    · rw [hd, pow_zero, div_one]
      exact iff_of_true hread rfl
    · exact iff_of_false (hshifted d (Nat.pos_of_ne_zero hd)) hd

end

end FgGas.Grants
