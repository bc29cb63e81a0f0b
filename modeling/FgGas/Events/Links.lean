import FgGas.Machine.Delimited
import Mathlib.Data.List.DropRight
import Mathlib.Data.Nat.Digits.Lemmas

/-!
# Links of records

The links that a record's own events are listed by (`src/events/case-refs.js`,
`src/common/buckets/refs.js`). A text is its code points, a lone surrogate being one. What
`toLowerCase` does to letters beyond ASCII is left open: a link has none.
-/

namespace FgGas.Events

open Machine

/-- A text, as its code points. -/
abbrev Text := List Nat

/-- A literal. -/
def lit (s : String) : Text := s.toList.map Char.toNat

/-- What `trim` removes. -/
def isSpace (c : Nat) : Bool :=
  (9 ≤ c && c ≤ 13) || (0x2000 ≤ c && c ≤ 0x200A) ||
    c ∈ [0x20, 0xA0, 0x1680, 0x2028, 0x2029, 0x202F, 0x205F, 0x3000, 0xFEFF]

/-- `trim`. -/
def trim (value : Text) : Text := (value.dropWhile isSpace).rdropWhile isSpace

/-- The lower case of an ASCII character. -/
def lowerAscii (c : Nat) : Nat := if 65 ≤ c ∧ c ≤ 90 then c + 32 else c

/-- What is known of `toLowerCase`: what it does to ASCII characters. -/
def LowersAscii (toLowerCase : Text → Text) : Prop :=
  ∀ value : Text, (∀ c ∈ value, c < 128) → toLowerCase value = value.map lowerAscii

section
variable (toLowerCase : Text → Text)

/-- `toRef`. -/
def toRef (kind : String) (value : Text) : Option Text :=
  if trim value = [] then none else some (lit kind ++ lit ":" ++ toLowerCase (trim value))

/-- `hasValue`. -/
def hasValue (value : Text) : Bool := (toRef toLowerCase "value" value).isSome

/-- A lower-case letter, a digit or `-`. -/
def isPlain (c : Nat) : Bool := (97 ≤ c && c ≤ 122) || (48 ≤ c && c ≤ 57) || c = 45

/-- A hexadecimal digit. -/
def hexDigit (d : Nat) : Nat := if d < 10 then 48 + d else 87 + d

/-- The digits of a number to the base 16, the highest first. -/
def hexDigits (n : Nat) : List Nat := if n = 0 then [0] else (Nat.digits 16 n).reverse

/-- `toString(16)`. -/
def toHex (n : Nat) : Text := (hexDigits n).map hexDigit

/-- A character as `keepCase` writes it. -/
def writeChar (c : Nat) : Text := if isPlain c then [c] else lit "~" ++ toHex c ++ lit "."

/-- `keepCase`. -/
def keepCase (value : Text) : Text := (trim value).flatMap writeChar

/-- A key of two parts; null when either is missing. -/
def keyOf (separator : String) (first second : Text) : Option Text :=
  if hasValue toLowerCase first && hasValue toLowerCase second then
    some (keepCase first ++ lit separator ++ keepCase second)
  else none

/-- `toApplicationLink`. -/
def toApplicationLink (code clientRef : Text) : Option Text :=
  (keyOf toLowerCase ":" code clientRef).bind (toRef toLowerCase "application")

/-- `toCaseLink`. -/
def toCaseLink (workflowCode caseRef : Text) : Option Text :=
  (keyOf toLowerCase ":" workflowCode caseRef).bind (toRef toLowerCase "case")

/-- `toConfigLink`. -/
def toConfigLink (code version : Text) : Option Text :=
  (keyOf toLowerCase "@" code version).bind (toRef toLowerCase "config")

end

/-! ### What the code words say -/

theorem hexDigit_inj {m n : Nat} (hm : m < 16) (hn : n < 16) (h : hexDigit m = hexDigit n) :
    m = n := by
  unfold hexDigit at h
  split at h <;> split at h <;> omega

theorem map_hexDigit_inj {xs ys : List Nat} (hx : ∀ x ∈ xs, x < 16) (hy : ∀ y ∈ ys, y < 16)
    (h : xs.map hexDigit = ys.map hexDigit) : xs = ys := by
  induction xs generalizing ys with
  | nil => cases ys with
    | nil => rfl
    | cons y ys => cases h
  | cons x xs ih => cases ys with
    | nil => cases h
    | cons y ys =>
      obtain ⟨hhead, htail⟩ := List.cons.inj h
      rw [List.forall_mem_cons] at hx hy
      rw [hexDigit_inj hx.1 hy.1 hhead, ih hx.2 hy.2 htail]

theorem hexDigits_lt {n d : Nat} (h : d ∈ hexDigits n) : d < 16 := by
  unfold hexDigits at h
  split at h
  · rw [List.mem_singleton.mp h]
    omega
  · exact Nat.digits_lt_base (by omega) (List.mem_reverse.mp h)

theorem ofDigits_hexDigits (n : Nat) : Nat.ofDigits 16 (hexDigits n).reverse = n := by
  unfold hexDigits
  split
  · next h =>
    rw [h]
    rfl
  · rw [List.reverse_reverse, Nat.ofDigits_digits]

theorem toHex_injective : Function.Injective toHex := by
  intro m n h
  have hdigits := map_hexDigit_inj (fun _ ↦ hexDigits_lt) (fun _ ↦ hexDigits_lt) h
  rw [← ofDigits_hexDigits m, hdigits, ofDigits_hexDigits]

/-- A hexadecimal digit is a digit or one of the letters up to `f`. -/
theorem of_mem_toHex {n c : Nat} (h : c ∈ toHex n) : 48 ≤ c ∧ c ≤ 57 ∨ 97 ≤ c ∧ c ≤ 102 := by
  obtain ⟨d, hd, rfl⟩ := List.mem_map.mp h
  have hlt := hexDigits_lt hd
  unfold hexDigit
  split <;> omega

theorem isPlain_eq_true {c : Nat} : isPlain c = true ↔
    97 ≤ c ∧ c ≤ 122 ∨ 48 ≤ c ∧ c ≤ 57 ∨ c = 45 := by
  simp [isPlain, or_assoc]

/-- What a character is written with: itself, or between `~` and `.` its number. -/
theorem of_mem_writeChar {c x : Nat} (h : x ∈ writeChar c) :
    isPlain x = true ∨ x = 126 ∨ x = 46 := by
  unfold writeChar at h
  split at h
  · next hplain =>
    rw [List.mem_singleton.mp h]
    exact .inl hplain
  · simp only [List.mem_append] at h
    rcases h with (h | h) | h
    · exact .inr (.inl (List.mem_singleton.mp h))
    · rw [isPlain_eq_true]
      have := of_mem_toHex h
      omega
    · exact .inr (.inr (List.mem_singleton.mp h))

/-- A text up to a symbol that is not in it. -/
theorem append_stop_inj {xs ys r r' : List Nat} {stop : Nat} (hx : stop ∉ xs) (hy : stop ∉ ys)
    (h : xs ++ stop :: r = ys ++ stop :: r') : xs = ys ∧ r = r' := by
  induction xs generalizing ys with
  | nil => cases ys with
    | nil => exact ⟨rfl, (List.cons.inj h).2⟩
    | cons y ys => exact absurd ((List.cons.inj h).1 ▸ List.mem_cons_self) hy
  | cons x xs ih => cases ys with
    | nil => exact absurd ((List.cons.inj h).1 ▸ List.mem_cons_self) hx
    | cons y ys =>
      obtain ⟨hhead, htail⟩ := List.cons.inj h
      rw [List.mem_cons, not_or] at hx hy
      obtain ⟨rfl, rfl⟩ := ih hx.2 hy.2 htail
      exact ⟨by rw [hhead], rfl⟩

theorem not_mem_toHex {n : Nat} : 46 ∉ toHex n := by
  intro h
  have := of_mem_toHex h
  omega

/-- Where a character ends is seen from how it is written. -/
theorem delimited_writeChar : Delimited writeChar := by
  intro c d r r' h
  have hne : ∀ {e : Nat}, isPlain e = true → e ≠ 126 := by
    intro e he
    rw [isPlain_eq_true] at he
    omega
  have hwritten : ∀ {e : Nat}, isPlain e ≠ true → ∀ rest,
      writeChar e ++ rest = 126 :: (toHex e ++ 46 :: rest) := by
    intro e he rest
    rw [writeChar, if_neg he, List.append_assoc, List.append_assoc]
    rfl
  have hplain : ∀ {e : Nat}, isPlain e = true → ∀ rest, writeChar e ++ rest = e :: rest := by
    intro e he rest
    rw [writeChar, if_pos he]
    rfl
  by_cases hc : isPlain c = true <;> by_cases hd : isPlain d = true
  · rw [hplain hc, hplain hd] at h
    exact List.cons.inj h
  · rw [hplain hc, hwritten hd] at h
    exact absurd (List.cons.inj h).1 (hne hc)
  · rw [hwritten hc, hplain hd] at h
    exact absurd (List.cons.inj h).1.symm (hne hd)
  · rw [hwritten hc, hwritten hd] at h
    obtain ⟨hhex, hr⟩ := append_stop_inj not_mem_toHex not_mem_toHex (List.cons.inj h).2
    exact ⟨toHex_injective hhex, hr⟩

theorem writeChar_ne_nil (c : Nat) : writeChar c ≠ [] := by
  unfold writeChar
  split <;> simp [lit]

/-- The separators never start a character. -/
theorem neverStarts_writeChar {stop : Nat} (hplain : isPlain stop = false) (htilde : stop ≠ 126) :
    NeverStarts writeChar stop := by
  intro c r r' h
  unfold writeChar at h
  split at h
  · next hc =>
    rw [(List.cons.inj h).1] at hc
    rw [hplain] at hc
    cases hc
  · exact htilde (List.cons.inj h).1.symm

/-! ### Links -/

section
variable {toLowerCase : Text → Text} {value : Text}

/-- A text of plain characters, `~`, `.` and a separator stays as it is. -/
def Settled (value : Text) : Prop := ∀ c ∈ value, isPlain c = true ∨ c ∈ [126, 46, 58, 64]

theorem isSpace_of_settled {c : Nat} (h : isPlain c = true ∨ c ∈ [126, 46, 58, 64]) :
    isSpace c = false := by
  have hrange : 45 ≤ c ∧ c ≤ 126 := by
    rcases h with h | h
    · rw [isPlain_eq_true] at h
      omega
    · simp only [List.mem_cons, List.not_mem_nil, or_false] at h
      omega
  rw [Bool.eq_false_iff]
  intro hspace
  simp only [isSpace, Bool.or_eq_true, Bool.and_eq_true, decide_eq_true_eq, List.mem_cons,
    List.not_mem_nil, or_false] at hspace
  omega

theorem trim_of_settled (h : Settled value) : trim value = value := by
  unfold trim
  rw [List.dropWhile_eq_self_iff.mpr, List.rdropWhile_eq_self_iff.mpr]
  · intro hne
    simp [isSpace_of_settled (h _ (List.getLast_mem hne))]
  · intro hlength
    simp [isSpace_of_settled (h _ (List.getElem_mem hlength))]

theorem toLowerCase_of_settled (hlower : LowersAscii toLowerCase) (h : Settled value) :
    toLowerCase value = value := by
  have hcases : ∀ c ∈ value, 97 ≤ c ∧ c ≤ 126 ∨ 45 ≤ c ∧ c ≤ 64 := by
    intro c hc
    rcases h c hc with hplain | hmem
    · rw [isPlain_eq_true] at hplain
      omega
    · simp only [List.mem_cons, List.not_mem_nil, or_false] at hmem
      omega
  rw [hlower value fun c hc ↦ by have := hcases c hc; omega]
  have hkept : ∀ c ∈ value, lowerAscii c = id c := by
    intro c hc
    have := hcases c hc
    exact if_neg (by omega)
  rw [List.map_congr_left hkept, List.map_id]

theorem settled_keepCase : Settled (keepCase value) := by
  intro x hx
  obtain ⟨c, _, hx⟩ := List.mem_flatMap.mp hx
  rcases of_mem_writeChar hx with hplain | rfl | rfl
  · exact .inl hplain
  · simp
  · simp

theorem hasValue_eq_true : hasValue toLowerCase value = true ↔ trim value ≠ [] := by
  unfold hasValue toRef
  split <;> simp_all

/-- A text that is not blank. -/
def NonBlank (value : Text) : Prop := trim value ≠ []

variable {separator kind : String} {stop : Nat} {first second first' second' : Text}

/-- A link of two parts that are there is its kind and the parts written out. -/
theorem link_eq (hlower : LowersAscii toLowerCase) (hstop : lit separator = [stop])
    (hsettled : stop ∈ [126, 46, 58, 64]) (hfirst : NonBlank first) (hsecond : NonBlank second) :
    (keyOf toLowerCase separator first second).bind (toRef toLowerCase kind) =
      some (lit kind ++ lit ":" ++ (keepCase first ++ stop :: keepCase second)) := by
  have hkey : Settled (keepCase first ++ stop :: keepCase second) := by
    intro c hc
    rcases List.mem_append.mp hc with hc | hc
    · exact settled_keepCase c hc
    · rcases List.mem_cons.mp hc with rfl | hc
      · exact .inr hsettled
      · exact settled_keepCase c hc
  have hpresent : keyOf toLowerCase separator first second =
      some (keepCase first ++ stop :: keepCase second) := by
    rw [keyOf, hasValue_eq_true.mpr hfirst, hasValue_eq_true.mpr hsecond, hstop]
    simp
  rw [hpresent, Option.bind_some, toRef, trim_of_settled hkey, toLowerCase_of_settled hlower hkey,
    if_neg (by simp)]

/-- What a link says of its parts. -/
theorem parts_inj (hplain : isPlain stop = false) (htilde : stop ≠ 126)
    (h : keepCase first ++ stop :: keepCase second = keepCase first' ++ stop :: keepCase second') :
    trim first = trim first' ∧ trim second = trim second' := by
  obtain ⟨hfirst, hsecond⟩ :=
    delimited_writeChar.list_stop (neverStarts_writeChar hplain htilde) h
  exact ⟨hfirst, delimited_writeChar.list_end writeChar_ne_nil hsecond⟩

theorem link_inj_iff (hlower : LowersAscii toLowerCase) (hstop : lit separator = [stop])
    (hplain : isPlain stop = false) (hsettled : stop ∈ [46, 58, 64]) (hfirst : NonBlank first)
    (hsecond : NonBlank second) (hfirst' : NonBlank first') (hsecond' : NonBlank second') :
    (keyOf toLowerCase separator first second).bind (toRef toLowerCase kind) =
        (keyOf toLowerCase separator first' second').bind (toRef toLowerCase kind) ↔
      trim first = trim first' ∧ trim second = trim second' := by
  have hmem : stop ∈ [126, 46, 58, 64] := List.mem_cons_of_mem _ hsettled
  have htilde : stop ≠ 126 := by
    rintro rfl
    simp at hsettled
  rw [link_eq hlower hstop hmem hfirst hsecond, link_eq hlower hstop hmem hfirst' hsecond',
    Option.some_inj, List.append_right_inj]
  constructor
  · exact parts_inj hplain htilde
  · rintro ⟨htrim, htrim'⟩
    rw [keepCase, keepCase, keepCase, keepCase, htrim, htrim']

/-- Links of two kinds. -/
theorem links_apart {kind' separator' : String} {stop' : Nat} (hlower : LowersAscii toLowerCase)
    (hstop : lit separator = [stop]) (hstop' : lit separator' = [stop'])
    (hsettled : stop ∈ [126, 46, 58, 64]) (hsettled' : stop' ∈ [126, 46, 58, 64])
    (hfirst : NonBlank first) (hsecond : NonBlank second) (hfirst' : NonBlank first')
    (hsecond' : NonBlank second') (hkind : 58 ∉ lit kind) (hkind' : 58 ∉ lit kind')
    (hne : lit kind ≠ lit kind') :
    (keyOf toLowerCase separator first second).bind (toRef toLowerCase kind) ≠
      (keyOf toLowerCase separator' first' second').bind (toRef toLowerCase kind') := by
  rw [link_eq hlower hstop hsettled hfirst hsecond,
    link_eq hlower hstop' hsettled' hfirst' hsecond']
  intro h
  have hcolon : lit ":" = [58] := rfl
  rw [hcolon, List.append_assoc, List.append_assoc] at h
  exact hne (append_stop_inj hkind hkind' (Option.some.inj h)).1

end

/-- The links of two records of a kind are equal if and only if their parts are, trimmed and case
included; links of different kinds never are. -/
theorem links_tell_records_apart {toLowerCase : Text → Text} (hlower : LowersAscii toLowerCase)
    {first second first' second' : Text} (hfirst : NonBlank first) (hsecond : NonBlank second)
    (hfirst' : NonBlank first') (hsecond' : NonBlank second') :
    (toApplicationLink toLowerCase first second = toApplicationLink toLowerCase first' second' ↔
      trim first = trim first' ∧ trim second = trim second') ∧
    (toCaseLink toLowerCase first second = toCaseLink toLowerCase first' second' ↔
      trim first = trim first' ∧ trim second = trim second') ∧
    (toConfigLink toLowerCase first second = toConfigLink toLowerCase first' second' ↔
      trim first = trim first' ∧ trim second = trim second') ∧
    toApplicationLink toLowerCase first second ≠ toCaseLink toLowerCase first' second' ∧
    toApplicationLink toLowerCase first second ≠ toConfigLink toLowerCase first' second' ∧
    toCaseLink toLowerCase first second ≠ toConfigLink toLowerCase first' second' := by
  have hcolon : lit ":" = [58] := by decide
  have hat : lit "@" = [64] := by decide
  refine ⟨link_inj_iff hlower hcolon (by decide) (by simp) hfirst hsecond hfirst' hsecond',
    link_inj_iff hlower hcolon (by decide) (by simp) hfirst hsecond hfirst' hsecond',
    link_inj_iff hlower hat (by decide) (by simp) hfirst hsecond hfirst' hsecond', ?_, ?_, ?_⟩
  · exact links_apart hlower hcolon hcolon (by simp) (by simp) hfirst hsecond hfirst' hsecond'
      (by decide) (by decide) (by decide)
  · exact links_apart hlower hcolon hat (by simp) (by simp) hfirst hsecond hfirst' hsecond'
      (by decide) (by decide) (by decide)
  · exact links_apart hlower hcolon hat (by simp) (by simp) hfirst hsecond hfirst' hsecond'
      (by decide) (by decide) (by decide)

/-- The same reference in two grants, one the other but for its case. -/
theorem links_tell_records_apart_case :
    NonBlank (lit "alpha") ∧ NonBlank (lit " abc ") ∧
      toApplicationLink (List.map lowerAscii) (lit "alpha") (lit "abc") ≠
        toApplicationLink (List.map lowerAscii) (lit "Alpha") (lit " abc ") := by
  have hlower : LowersAscii (List.map lowerAscii) := fun _ _ ↦ rfl
  have hblank : NonBlank (lit "alpha") ∧ NonBlank (lit "Alpha") ∧ NonBlank (lit "abc") ∧
      NonBlank (lit " abc ") := by
    unfold NonBlank
    decide +kernel
  have hlinks := (links_tell_records_apart hlower hblank.1 hblank.2.2.1 hblank.2.1
    hblank.2.2.2).1
  refine ⟨hblank.1, hblank.2.2.2, fun heq ↦ ?_⟩
  exact absurd (hlinks.mp heq).1 (by decide +kernel)

end FgGas.Events
