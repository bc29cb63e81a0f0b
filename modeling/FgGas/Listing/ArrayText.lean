import Mathlib.Data.List.Basic

/-!
# The JSON text of an array

`JSON.stringify` of an array of texts and nulls. Each character is written in a way that says
where it ends, so arrays of one length are told apart by their texts.
-/

namespace FgGas.Listing

/-- The letter JSON escapes a character by, of those that have one. -/
def letterOf : Char → Option Char
  | '"' => some '"'
  | '\\' => some '\\'
  | '\x08' => some 'b'
  | '\t' => some 't'
  | '\n' => some 'n'
  | '\x0c' => some 'f'
  | '\r' => some 'r'
  | _ => none

/-- A character of a quoted text. -/
def escape (c : Char) : List Char :=
  match letterOf c with
  | some letter => ['\\', letter]
  | none =>
    if c.toNat < 32 then
      ['\\', 'u', '0', '0', (c.toNat / 16).digitChar, (c.toNat % 16).digitChar]
    else [c]

/-- A quoted text, before what follows it. -/
def quoteOnto (cs rest : List Char) : List Char := '"' :: (cs.flatMap escape ++ '"' :: rest)

/-- An item of an array, before what follows it. -/
def itemOnto : Option String → List Char → List Char
  | none, rest => 'n' :: 'u' :: 'l' :: 'l' :: rest
  | some text, rest => quoteOnto text.toList rest

/-- The items of an array and the bracket that closes it. -/
def itemsText : List (Option String) → List Char
  | [] => [']']
  | [value] => itemOnto value [']']
  | value :: values => itemOnto value (',' :: itemsText values)

/-- `JSON.stringify` of an array. -/
def arrayText (values : List (Option String)) : String := String.ofList ('[' :: itemsText values)

theorem letterOf_inj {c d letter : Char} (hc : letterOf c = some letter)
    (hd : letterOf d = some letter) : c = d := by
  unfold letterOf at hc hd
  split at hc <;> cases hc <;> split at hd <;> first | rfl | exact absurd hd (by simp)

theorem letterOf_ne_u {c : Char} : letterOf c ≠ some 'u' := by
  unfold letterOf
  split <;> simp

theorem digitChar_inj {m n : Nat} (hm : m < 16) (hn : n < 16)
    (h : m.digitChar = n.digitChar) : m = n := by
  have hall : ∀ a b : Fin 16, a.val.digitChar = b.val.digitChar → a = b := by decide
  exact congrArg Fin.val (hall ⟨m, hm⟩ ⟨n, hn⟩ h)

/-- Where one character ends is seen from its escape. -/
theorem escape_append_inj {c d : Char} {r r' : List Char} (h : escape c ++ r = escape d ++ r') :
    c = d ∧ r = r' := by
  have hback : ∀ e, letterOf e = none → e ≠ '\\' := by
    rintro _ he rfl
    cases he
  unfold escape at h
  cases hc : letterOf c with
  | some letter =>
    cases hd : letterOf d with
    | some letter' =>
      simp only [hc, hd, List.cons_append, List.nil_append, List.cons.injEq, true_and] at h
      obtain ⟨rfl, rfl⟩ := h
      exact ⟨letterOf_inj hc hd, rfl⟩
    | none =>
      simp only [hc, hd] at h
      split at h
      · simp only [List.cons_append, List.cons.injEq, true_and] at h
        exact absurd (h.1 ▸ hc) letterOf_ne_u
      · simp only [List.cons_append, List.cons.injEq] at h
        exact absurd h.1.symm (hback d hd)
  | none =>
    cases hd : letterOf d with
    | some letter' =>
      simp only [hc, hd] at h
      split at h
      · simp only [List.cons_append, List.cons.injEq, true_and] at h
        exact absurd (h.1 ▸ hd) letterOf_ne_u
      · simp only [List.cons_append, List.cons.injEq] at h
        exact absurd h.1 (hback c hc)
    | none =>
      simp only [hc, hd] at h
      split at h <;> split at h
      · rename_i hc32 hd32
        simp only [List.cons_append, List.nil_append, List.cons.injEq, true_and] at h
        have hhigh := digitChar_inj (by omega) (by omega) h.1
        have hlow := digitChar_inj (by omega) (by omega) h.2.1
        exact ⟨Char.toNat_inj.mp (by omega), h.2.2⟩
      · simp only [List.cons_append, List.cons.injEq] at h
        exact absurd h.1.symm (hback d hd)
      · simp only [List.cons_append, List.cons.injEq] at h
        exact absurd h.1 (hback c hc)
      · simpa using h

theorem escape_append_ne_quote {c : Char} {r r' : List Char} : escape c ++ r ≠ '"' :: r' := by
  unfold escape
  cases hc : letterOf c with
  | some letter => simp
  | none =>
    have hne : c ≠ '"' := by
      rintro rfl
      cases hc
    dsimp only
    split <;> simp [hne]

/-- Where a quoted text ends is seen from its quotes. -/
theorem quoteOnto_inj {cs ds r r' : List Char} (h : quoteOnto cs r = quoteOnto ds r') :
    cs = ds ∧ r = r' := by
  have h : cs.flatMap escape ++ '"' :: r = ds.flatMap escape ++ '"' :: r' := List.cons.inj h |>.2
  induction cs generalizing ds with
  | nil =>
    cases ds with
    | nil => exact ⟨rfl, (List.cons.inj h).2⟩
    | cons d ds =>
      rw [List.flatMap_cons, List.append_assoc] at h
      exact absurd h.symm escape_append_ne_quote
  | cons c cs ih =>
    cases ds with
    | nil =>
      rw [List.flatMap_cons, List.append_assoc] at h
      exact absurd h escape_append_ne_quote
    | cons d ds =>
      rw [List.flatMap_cons, List.flatMap_cons, List.append_assoc, List.append_assoc] at h
      obtain ⟨rfl, hrest⟩ := escape_append_inj h
      obtain ⟨rfl, rfl⟩ := ih (congrArg (List.cons '"') hrest) hrest
      exact ⟨rfl, rfl⟩

theorem itemOnto_inj {value value' : Option String} {r r' : List Char}
    (h : itemOnto value r = itemOnto value' r') : value = value' ∧ r = r' := by
  cases value with
  | none =>
    cases value' with
    | none =>
      simp only [itemOnto, List.cons.injEq, true_and] at h
      exact ⟨rfl, h⟩
    | some text => simp [itemOnto, quoteOnto] at h
  | some text =>
    cases value' with
    | none => simp [itemOnto, quoteOnto] at h
    | some text' =>
      obtain ⟨htext, hrest⟩ := quoteOnto_inj h
      exact ⟨congrArg some (String.toList_inj.mp htext), hrest⟩

/-- The items of arrays of one length are told apart by their texts. -/
theorem itemsText_inj {values values' : List (Option String)}
    (hlength : values.length = values'.length) (h : itemsText values = itemsText values') :
    values = values' := by
  induction values generalizing values' with
  | nil => exact (List.length_eq_zero_iff.mp hlength.symm).symm
  | cons value values ih =>
    obtain ⟨value', values', rfl⟩ := List.exists_cons_of_length_eq_add_one hlength.symm
    have htail : values.length = values'.length := by simpa using hlength
    cases values with
    | nil =>
      obtain rfl := List.length_eq_zero_iff.mp htail.symm
      rw [(itemOnto_inj h).1]
    | cons next values =>
      obtain ⟨next', values', rfl⟩ := List.exists_cons_of_length_eq_add_one htail.symm
      obtain ⟨rfl, hrest⟩ := itemOnto_inj h
      rw [ih htail (List.cons.inj hrest).2]

/-- Arrays of one length are told apart by their texts. -/
theorem arrayText_inj {values values' : List (Option String)}
    (hlength : values.length = values'.length) (h : arrayText values = arrayText values') :
    values = values' :=
  itemsText_inj hlength (List.cons.inj (String.ofList_injective h)).2

end FgGas.Listing
