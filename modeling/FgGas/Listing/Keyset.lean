import Mathlib.Order.Lattice
import Mathlib.Data.List.Basic

/-!
# Listing by pages

A listing is read page by page, each page saying where the next one starts. `Follows` is a
whole reading, and `exists_follows` the rule for it: every page takes its rows off the front
of what is left, and what is left shrinks. Keyset paging starts each page below the key of a
row already listed; the lemmas on descending lists say what such a page takes off.
-/

namespace FgGas.Listing

variable {α π κ : Type}

/-- The pages read from `c` on, each from where the one before says, to one that is the last.
`read` is `none` where a page is refused. -/
inductive Follows (read : Option κ → Option π) (next : π → Option κ) :
    Option κ → List π → Prop
  | last {c : Option κ} {p : π} : read c = some p → next p = none → Follows read next c [p]
  | more {c : Option κ} {d : κ} {p : π} {ps : List π} : read c = some p → next p = some d →
      Follows read next (some d) ps → Follows read next c (p :: ps)

section
variable {read : Option κ → Option π} {next : π → Option κ} {c : Option κ} {ps ps' : List π}

/-- A listing is read in one way. -/
theorem Follows.unique (h : Follows read next c ps) (h' : Follows read next c ps') :
    ps = ps' := by
  induction h generalizing ps' with
  | last hp hnext =>
    cases h' with
    | last hp' _ => rw [Option.some.inj (hp.symm.trans hp')]
    | more hp' hnext' _ =>
      obtain rfl := Option.some.inj (hp.symm.trans hp')
      cases hnext.symm.trans hnext'
  | more hp hnext _ ih =>
    cases h' with
    | last hp' hnext' =>
      obtain rfl := Option.some.inj (hp.symm.trans hp')
      cases hnext.symm.trans hnext'
    | more hp' hnext' hrest' =>
      obtain rfl := Option.some.inj (hp.symm.trans hp')
      obtain rfl := Option.some.inj (hnext.symm.trans hnext')
      rw [ih hrest']

/-- The last page says of none after it. -/
theorem Follows.next_getLast (h : Follows read next c ps) {p : π} (hp : p ∈ ps.getLast?) :
    next p = none := by
  induction h with
  | last _ hnext =>
    obtain rfl := Option.some.inj hp
    exact hnext
  | @more _ _ q qs _ _ hrest ih =>
    have hne : qs ≠ [] := by
      cases hrest <;> simp
    obtain ⟨r, rs, rfl⟩ := List.exists_cons_of_ne_nil hne
    exact ih (by simpa using hp)

/-- The page that says of none after it is the last. -/
theorem Follows.length_of_next_eq_none (h : Follows read next c ps) {i : Nat} {p : π}
    (hp : ps[i]? = some p) (hnext : next p = none) : i + 1 = ps.length := by
  induction h generalizing i with
  | last _ _ =>
    have hlt := (List.getElem?_eq_some_iff.mp hp).1
    simp only [List.length_cons, List.length_nil] at hlt ⊢
    omega
  | more _ hmore _ ih =>
    cases i with
    | zero =>
      obtain rfl := Option.some.inj hp
      cases hmore.symm.trans hnext
    | succ i =>
      rw [List.length_cons, ih hp]

/-- What holds of every page read from a good place holds of every page of a reading, where a
page leads from one good place to another. -/
theorem Follows.forall_mem (good : Option κ → Prop) {P : π → Prop}
    (hpage : ∀ c p, good c → read c = some p → P p ∧ ∀ d, next p = some d → good (some d))
    (hc : good c) (h : Follows read next c ps) : ∀ p ∈ ps, P p := by
  induction h with
  | last hread _ =>
    intro p hp
    obtain rfl := List.mem_singleton.mp hp
    exact (hpage _ _ hc hread).1
  | more hread hnext _ ih =>
    obtain ⟨hP, hgood⟩ := hpage _ _ hc hread
    intro p hp
    rcases List.mem_cons.mp hp with rfl | hp
    · exact hP
    · exact ih (hgood _ hnext) p hp

/-- What a page must do: it takes its rows off the front of what is left, all of it when it is
the last, and leaves less. -/
structure TakesOff (rows : List α) (next : Option κ) (rest : Option κ → List α)
    (left : Option κ → Nat) (good : Option κ → Prop) (c : Option κ) : Prop where
  last : next = none → rows = rest c
  more : ∀ d, next = some d →
    good (some d) ∧ left (some d) < left c ∧ rest c = rows ++ rest (some d)

/-- Pages that take off what is left list all of it and come to an end. -/
theorem exists_follows {rows : π → List α} {rest : Option κ → List α} {left : Option κ → Nat}
    {good : Option κ → Prop}
    (h : ∀ c, good c → ∃ p, read c = some p ∧ TakesOff (rows p) (next p) rest left good c)
    (hc : good c) : ∃ ps, Follows read next c ps ∧ ps.flatMap rows = rest c := by
  induction hn : left c using Nat.strongRecOn generalizing c with
  | ind n ih =>
    obtain ⟨p, hread, htakes⟩ := h c hc
    cases hnext : next p with
    | none => exact ⟨[p], .last hread hnext, by simp [htakes.last hnext]⟩
    | some d =>
      obtain ⟨hd, hless, hrest⟩ := htakes.more d hnext
      obtain ⟨ps, hps, hrows⟩ := ih (left (some d)) (hn ▸ hless) hd rfl
      refine ⟨p :: ps, .more hread hnext hps, ?_⟩
      rw [List.flatMap_cons, hrows, hrest]

end

/-! ### Descending lists -/

section
variable [LinearOrder κ] {key : α → κ} {l : List α}

/-- The keys fall from each entry to the next. -/
def Descending (key : α → κ) (l : List α) : Prop := l.Pairwise fun a b ↦ key b < key a

theorem Descending.filter (h : Descending key l) (p : α → Bool) : Descending key (l.filter p) :=
  List.Pairwise.filter p h

/-- A key below the cursor, or any when there is none. -/
def Below (c : Option κ) (k : κ) : Prop := ∀ d ∈ c, k < d

@[simp] theorem below_none (k : κ) : Below none k := fun _ h ↦ nomatch h

@[simp] theorem below_some {d k : κ} : Below (some d) k ↔ k < d := by
  simp [Below]

instance (c : Option κ) (k : κ) : Decidable (Below c k) :=
  match c with
  | none => .isTrue (below_none k)
  | some _ => decidable_of_iff _ below_some.symm

/-- The entries below the cursor. -/
def rest (key : α → κ) (l : List α) (c : Option κ) : List α := l.filter fun a ↦ Below c (key a)

@[simp] theorem rest_none : rest key l none = l := by
  simp [rest]

theorem mem_rest {c : Option κ} {a : α} : a ∈ rest key l c ↔ a ∈ l ∧ Below c (key a) := by
  simp [rest]

/-- What is below a cursor and below a lower one is what is below the lower one. -/
theorem rest_rest {c : Option κ} {d : κ} (h : Below c d) :
    (rest key l c).filter (fun a ↦ key a < d) = rest key l (some d) := by
  rw [rest, rest, List.filter_filter]
  refine List.filter_congr fun a _ ↦ ?_
  have hbelow : key a < d → Below c (key a) := fun ha e he ↦ ha.trans (h e he)
  by_cases ha : key a < d
  · have hd : Below (some d) (key a) := fun e he ↦ Option.some.inj he ▸ ha
    simp [ha, hbelow ha, hd]
  · have hd : ¬ Below (some d) (key a) := fun hb ↦ ha (hb d rfl)
    simp [ha, hd]

/-- Two descending lists of the same entries are the same. -/
theorem Descending.eq_of_perm {l' : List α} (h : Descending key l) (h' : Descending key l')
    (hperm : l.Perm l') : l = l' :=
  List.Perm.eq_of_pairwise (fun _ _ _ _ hab hba ↦ absurd hab (lt_asymm hba)) h h' hperm

/-- What is below a listed key is less than what is below a cursor above it. -/
theorem length_rest_lt {c : Option κ} {a : α} (ha : a ∈ l) (h : Below c (key a)) :
    (rest key l (some (key a))).length < (rest key l c).length := by
  have hsub : (rest key l (some (key a))).Sublist (rest key l c) := by
    rw [← rest_rest h]
    exact List.filter_sublist
  refine Nat.lt_of_le_of_ne hsub.length_le fun hlength ↦ ?_
  have hmem : a ∈ rest key l (some (key a)) := by
    rw [hsub.eq_of_length hlength]
    exact mem_rest.mpr ⟨ha, h⟩
  exact lt_irrefl (key a) ((mem_rest.mp hmem).2 (key a) rfl)

/-- A descending list is what stands at or above a key, and then what is below it. -/
theorem Descending.split (h : Descending key l) (e : κ) :
    l = l.filter (fun a ↦ e ≤ key a) ++ l.filter (fun a ↦ key a < e) := by
  induction l with
  | nil => rfl
  | cons a l ih =>
    obtain ⟨hhead, htail⟩ := List.pairwise_cons.mp h
    by_cases ha : e ≤ key a
    · simpa [ha, not_lt.mpr ha] using ih htail
    · have hbelow : ∀ b ∈ l, key b < e := fun b hb ↦ (hhead b hb).trans (not_le.mp ha)
      have hnone : l.filter (fun b ↦ e ≤ key b) = [] := by
        simpa [List.filter_eq_nil_iff] using hbelow
      have hall : l.filter (fun b ↦ key b < e) = l := by
        simpa [List.filter_eq_self] using hbelow
      simp [ha, not_le.mp ha, hnone, hall]

/-- The first entries of a descending list, and then what is below the last of them. -/
theorem Descending.take_split (h : Descending key l) {n : Nat} {a : α} (ha : l[n]? = some a) :
    l = l.take (n + 1) ++ l.filter (fun b ↦ key b < key a) := by
  induction l generalizing n with
  | nil => simp at ha
  | cons b l ih =>
    obtain ⟨hhead, htail⟩ := List.pairwise_cons.mp h
    cases n with
    | zero =>
      obtain rfl := Option.some.inj ha
      have hall : l.filter (fun c ↦ key c < key b) = l := by
        simpa [List.filter_eq_self] using hhead
      simp [hall]
    | succ n =>
      have hmem : a ∈ l := List.mem_of_getElem? ha
      have hskip : ¬ key b < key a := not_lt.mpr (hhead a hmem).le
      simpa [hskip] using ih htail ha

end

end FgGas.Listing
