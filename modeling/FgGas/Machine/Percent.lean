import FgGas.Machine.Delimited

/-!
# Percent encoding

A text written character by character: some characters plainly, the others as the bytes of their
UTF-8 form, each as a percent sign and two hexadecimal digits.
-/

namespace FgGas.Machine

/-- A hexadecimal digit, in upper case. -/
def upperHex (d : Nat) : Char := Char.ofNat (if d < 10 then 48 + d else 55 + d)

/-- A byte. -/
def percentByte (b : UInt8) : List Char :=
  ['%', upperHex (b.toNat / 16), upperHex (b.toNat % 16)]

/-- A character: `plain` says what it is written as when it needs no encoding. -/
def percentChar (plain : Char → Option Char) (c : Char) : List Char :=
  match plain c with
  | some d => [d]
  | none => (String.utf8EncodeChar c).flatMap percentByte

/-- A text. -/
def percentEncode (plain : Char → Option Char) (s : List Char) : List Char :=
  s.flatMap (percentChar plain)

theorem upperHex_inj {m n : Nat} (hm : m < 16) (hn : n < 16) (h : upperHex m = upperHex n) :
    m = n := by
  have hfin : ∀ i j : Fin 16, upperHex i = upperHex j → i = j := by decide
  exact Fin.mk.inj (hfin ⟨m, hm⟩ ⟨n, hn⟩ h)

theorem percentByte_inj {a b : UInt8} {r r' : List Char}
    (h : percentByte a ++ r = percentByte b ++ r') : a = b ∧ r = r' := by
  have ha := a.toNat_lt
  have hb := b.toNat_lt
  simp only [percentByte, List.cons_append, List.nil_append, List.cons.injEq, true_and] at h
  obtain ⟨hhigh, hlow, hr⟩ := h
  have h1 := upperHex_inj (by omega) (by omega) hhigh
  have h2 := upperHex_inj (by omega) (by omega) hlow
  exact ⟨UInt8.toNat_inj.mp (by omega), hr⟩

/-- Of two lists of bytes written before something, one is a prefix of the other. -/
theorem isPrefix_of_percentBytes {xs ys : List UInt8} {r r' : List Char}
    (h : xs.flatMap percentByte ++ r = ys.flatMap percentByte ++ r')
    (hlen : xs.length ≤ ys.length) : xs <+: ys := by
  induction xs generalizing ys with
  | nil => exact List.nil_prefix
  | cons x xs ih =>
    cases ys with
    | nil => simp at hlen
    | cons y ys =>
      rw [List.flatMap_cons, List.flatMap_cons, List.append_assoc, List.append_assoc] at h
      obtain ⟨rfl, hrest⟩ := percentByte_inj h
      exact List.cons_prefix_cons.mpr ⟨rfl, ih hrest (by simpa using hlen)⟩

/-- A character is read off from bytes that start with its own. -/
theorem utf8EncodeChar_inj_of_isPrefix {a b : Char}
    (h : String.utf8EncodeChar a <+: String.utf8EncodeChar b) : a = b := by
  obtain ⟨rest, hrest⟩ := h
  have ha := ByteArray.utf8DecodeChar?_utf8EncodeChar_append (b := rest.toByteArray) (c := a)
  have hb := ByteArray.utf8DecodeChar?_utf8EncodeChar_append (b := ByteArray.empty) (c := b)
  rw [ByteArray.append_empty, ← hrest, List.toByteArray_append, ha] at hb
  exact Option.some.inj hb

/-- What is needed of what is written plainly: that it is told apart, and is no percent sign. -/
structure PlainFaithful (plain : Char → Option Char) : Prop where
  ne_percent : ∀ c, plain c ≠ some '%'
  inj : ∀ ⦃a b d⦄, plain a = some d → plain b = some d → a = b

variable {plain : Char → Option Char}

theorem percentChar_ne_nil (a : Char) : percentChar plain a ≠ [] := by
  unfold percentChar
  split
  · exact List.cons_ne_nil _ _
  · rw [Ne, List.flatMap_eq_nil_iff]
    intro h
    obtain ⟨x, xs, hx⟩ := List.exists_cons_of_ne_nil (String.utf8EncodeChar_ne_nil (c := a))
    exact List.cons_ne_nil _ _ (h x (hx ▸ List.mem_cons_self))

/-- Bytes start with a percent sign. -/
theorem percentBytes_eq_cons (a : Char) (r : List Char) :
    ∃ t, (String.utf8EncodeChar a).flatMap percentByte ++ r = '%' :: t := by
  obtain ⟨x, xs, hx⟩ := List.exists_cons_of_ne_nil (String.utf8EncodeChar_ne_nil (c := a))
  rw [hx, List.flatMap_cons]
  exact ⟨_, rfl⟩

/-- A character says where it ends. -/
theorem PlainFaithful.delimited (h : PlainFaithful plain) : Delimited (percentChar plain) := by
  intro a b r r' heq
  unfold percentChar at heq
  cases ha : plain a with
  | some d =>
    cases hb : plain b with
    | some e =>
      rw [ha, hb] at heq
      obtain ⟨rfl, hr⟩ := List.cons.inj heq
      exact ⟨h.inj ha hb, hr⟩
    | none =>
      obtain ⟨t, ht⟩ := percentBytes_eq_cons b r'
      rw [ha, hb] at heq
      obtain ⟨rfl, -⟩ := List.cons.inj (heq.trans ht)
      exact absurd ha (h.ne_percent a)
  | none =>
    cases hb : plain b with
    | some e =>
      obtain ⟨t, ht⟩ := percentBytes_eq_cons a r
      rw [ha, hb] at heq
      obtain ⟨rfl, -⟩ := List.cons.inj (heq.symm.trans ht)
      exact absurd hb (h.ne_percent b)
    | none =>
      rw [ha, hb] at heq
      have hab : a = b := by
        rcases Nat.le_total (String.utf8EncodeChar a).length (String.utf8EncodeChar b).length with
          hlen | hlen
        · exact utf8EncodeChar_inj_of_isPrefix (isPrefix_of_percentBytes heq hlen)
        · exact (utf8EncodeChar_inj_of_isPrefix (isPrefix_of_percentBytes heq.symm hlen)).symm
      subst hab
      exact ⟨rfl, List.append_cancel_left heq⟩

/-- The characters a percent-encoded text is written with. -/
theorem mem_percentEncode {s : List Char} {d : Char} (h : d ∈ percentEncode plain s) :
    d = '%' ∨ (∃ n < 16, d = upperHex n) ∨ ∃ c, plain c = some d := by
  obtain ⟨c, -, hc⟩ := List.mem_flatMap.mp h
  unfold percentChar at hc
  split at hc
  · next e he =>
    rw [List.mem_singleton] at hc
    exact .inr (.inr ⟨c, hc ▸ he⟩)
  · obtain ⟨b, -, hb⟩ := List.mem_flatMap.mp hc
    have hlt := b.toNat_lt
    simp only [percentByte, List.mem_cons, List.not_mem_nil, or_false] at hb
    rcases hb with rfl | rfl | rfl
    · exact .inl rfl
    · exact .inr (.inl ⟨_, by omega, rfl⟩)
    · exact .inr (.inl ⟨_, by omega, rfl⟩)

end FgGas.Machine
