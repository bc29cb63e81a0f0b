import Mathlib.Data.List.Basic
import Mathlib.Data.List.Sublists

/-!
# Brackets collapsed innermost first

Sequences of brackets of several kinds, and of atoms, each a closed pair of one kind that is left
alone. A pass takes out, from the left, what stands between an opening bracket and the next
bracket of its kind where that one closes it; a pair of the atoms' kind is taken out only where no
atom stands in it. What is left in the end is told from how the brackets nest.
-/

namespace FgGas.Machine

universe u

/-- A bracket, or an atom. -/
inductive Mark (κ : Type u)
  | opening (kind : κ)
  | closing (kind : κ)
  | atom
  deriving DecidableEq, Repr

section
variable {κ : Type u} [DecidableEq κ] (a : κ)

/-- The marks of a kind; atoms are of the kind `a`. -/
def Mark.Of (kind : κ) : Mark κ → Bool
  | .opening k | .closing k => k = kind
  | .atom => a = kind

/-- One pass. -/
def collapse : List (Mark κ) → List (Mark κ)
  | [] => []
  | .opening k :: ms =>
      if ms.find? (Mark.Of a k) = some (.closing k) then
        collapse (ms.dropWhile (!Mark.Of a k ·)).tail
      else .opening k :: collapse ms
  | m :: ms => m :: collapse ms
  termination_by ms => ms.length
  decreasing_by
    · have := (List.dropWhile_suffix (l := ms) (!Mark.Of a k ·)).length_le
      rw [List.length_cons, List.length_tail]
      omega
    · exact Nat.lt_succ_self _
    · exact Nat.lt_succ_self _

/-! ### A pass -/

variable {a} {k : κ} {ms inner rest : List (Mark κ)}

theorem find_closing_iff : ms.find? (Mark.Of a k) = some (.closing k) ↔
    ∃ inner rest, ms = inner ++ .closing k :: rest ∧ ∀ m ∈ inner, m.Of a k = false := by
  rw [List.find?_eq_some_iff_append]
  simp [Mark.Of]

theorem collapse_pair (hinner : ∀ m ∈ inner, m.Of a k = false) :
    collapse a (.opening k :: (inner ++ .closing k :: rest)) = collapse a rest := by
  have hdrop : (inner ++ .closing k :: rest).dropWhile (!Mark.Of a k ·) = .closing k :: rest := by
    rw [List.dropWhile_append_of_pos (by simpa using hinner),
      List.dropWhile_cons_of_neg (by simp [Mark.Of])]
  rw [collapse, if_pos (find_closing_iff.mpr ⟨inner, rest, rfl, hinner⟩), hdrop, List.tail_cons]

theorem collapse_opening (h : ms.find? (Mark.Of a k) ≠ some (.closing k)) :
    collapse a (.opening k :: ms) = .opening k :: collapse a ms := by
  rw [collapse, if_neg h]

@[simp] theorem collapse_nil : collapse a [] = [] := by rw [collapse]

@[simp] theorem collapse_closing : collapse a (.closing k :: ms) = .closing k :: collapse a ms := by
  rw [collapse]
  rintro k' h
  cases h

@[simp] theorem collapse_atom : collapse a (.atom :: ms) = .atom :: collapse a ms := by
  rw [collapse]
  rintro k' h
  cases h

theorem length_collapse_le (ms : List (Mark κ)) : (collapse a ms).length ≤ ms.length := by
  induction ms using collapse.induct a with
  | case1 => simp
  | case2 k ms h ih =>
    obtain ⟨inner, rest, rfl, hinner⟩ := find_closing_iff.mp h
    rw [collapse, if_pos h]
    refine ih.trans ?_
    have := (List.dropWhile_suffix (l := inner ++ .closing k :: rest) (!Mark.Of a k ·)).length_le
    rw [List.length_cons, List.length_tail]
    omega
  | case3 k ms h ih =>
    rw [collapse_opening h]
    simpa using ih
  | case4 m ms h ih =>
    cases m with
    | opening k => exact absurd rfl (h k)
    | closing k => simpa using ih
    | atom => simpa using ih

/-- What a pass leaves as it is has no closed pair at its start, and its rest is left too. -/
theorem fixed_cons {m : Mark κ} (h : collapse a (m :: ms) = m :: ms) :
    collapse a ms = ms ∧ ∀ k, m = .opening k → ms.find? (Mark.Of a k) ≠ some (.closing k) := by
  cases m with
  | opening k =>
    by_cases hclosed : ms.find? (Mark.Of a k) = some (.closing k)
    · obtain ⟨inner, rest, rfl, hinner⟩ := find_closing_iff.mp hclosed
      rw [collapse_pair hinner] at h
      have hle := length_collapse_le (a := a) rest
      rw [h] at hle
      simp only [List.length_cons, List.length_append] at hle
      omega
    · rw [collapse_opening hclosed] at h
      refine ⟨(List.cons.inj h).2, fun k' hk ↦ ?_⟩
      cases hk
      exact hclosed
  | closing k =>
    rw [collapse_closing] at h
    exact ⟨(List.cons.inj h).2, fun k' hk ↦ by cases hk⟩
  | atom =>
    rw [collapse_atom] at h
    exact ⟨(List.cons.inj h).2, fun k' hk ↦ by cases hk⟩

theorem fixed_append (h : collapse a (inner ++ rest) = inner ++ rest) :
    collapse a rest = rest := by
  induction inner with
  | nil => exact h
  | cons m inner ih => exact ih (fixed_cons h).1

/-- In what a pass leaves as it is, an opening bracket is followed by a closing one of its kind only
around an atom. -/
theorem atom_between (h : collapse a ms = ms) (hpair : [.opening k, .closing k].Sublist ms) :
    k = a ∧ [.opening k, .atom, .closing k].Sublist ms := by
  induction ms with
  | nil => cases hpair
  | cons m ms ih =>
    obtain ⟨hrest, hopen⟩ := fixed_cons h
    cases hpair with
    | cons _ hpair =>
      obtain ⟨hk, hsub⟩ := ih hrest hpair
      exact ⟨hk, hsub.cons _⟩
    | cons_cons _ hclose =>
      have hmem : Mark.closing k ∈ ms := List.singleton_sublist.mp hclose
      cases hfind : ms.find? (Mark.Of a k) with
      | none => simpa [Mark.Of] using List.find?_eq_none.mp hfind _ hmem
      | some x =>
        obtain ⟨hx, before, after, rfl, hbefore⟩ := List.find?_eq_some_iff_append.mp hfind
        have hlater : x ≠ .closing k → Mark.closing k ∈ after := by
          intro hne
          rcases List.mem_append.mp hmem with hm | hm
          · simpa [Mark.Of] using hbefore _ hm
          · exact (List.mem_cons.mp hm).resolve_left hne.symm
        cases x with
        | opening k' =>
          obtain rfl : k' = k := by simpa [Mark.Of] using hx
          have hsub : [Mark.opening k', Mark.closing k'].Sublist
              (before ++ .opening k' :: after) :=
            ((List.singleton_sublist.mpr (hlater (by simp))).cons_cons _).trans
              (List.sublist_append_right _ _)
          obtain ⟨hk, hsub⟩ := ih hrest hsub
          exact ⟨hk, hsub.cons _⟩
        | closing k' =>
          obtain rfl : k' = k := by simpa [Mark.Of] using hx
          exact absurd hfind (hopen k' rfl)
        | atom =>
          obtain rfl : a = k := by simpa [Mark.Of] using hx
          exact ⟨rfl, (((List.singleton_sublist.mpr (hlater (by simp))).cons_cons _).trans
            (List.sublist_append_right _ _)).cons_cons _⟩

end

/-! ### Brackets that nest -/

/-- Brackets, each closed by one of its kind. -/
inductive Nested (κ : Type u)
  | nil
  | atom (rest : Nested κ)
  | group (kind : κ) (inner rest : Nested κ)
  deriving DecidableEq, Repr

/-- The sequence of the brackets and atoms. -/
def Nested.flatten {κ : Type u} : Nested κ → List (Mark κ)
  | .nil => []
  | .atom rest => .atom :: rest.flatten
  | .group kind inner rest =>
      .opening kind :: (inner.flatten ++ .closing kind :: rest.flatten)

section
variable {κ : Type u} [DecidableEq κ] (a : κ)

/-- An atom stands outside the groups of other kinds. -/
def Nested.exposes : Nested κ → Bool
  | .nil => false
  | .atom _ => true
  | .group kind inner rest => (kind = a && inner.exposes) || rest.exposes

/-- What a pass makes of it. -/
def Nested.level : Nested κ → Nested κ
  | .nil => .nil
  | .atom rest => .atom rest.level
  | .group kind inner rest =>
      if inner.flatten.any (Mark.Of a kind) then .group kind inner.level rest.level
      else rest.level

variable {a} {k : κ}

/-- The first bracket of a kind is not a closing one. -/
theorem Nested.find_flatten (n : Nested κ) :
    n.flatten.find? (Mark.Of a k) ≠ some (.closing k) := by
  induction n with
  | nil => simp [flatten]
  | atom rest ih =>
    rw [flatten, List.find?_cons]
    split
    · simp
    · exact ih
  | group kind inner rest ihi ihr =>
    by_cases hk : kind = k
    · simp [flatten, Mark.Of, hk]
    · have hopen : Mark.Of a k (.opening kind) = false := by simpa [Mark.Of] using hk
      have hclose : Mark.Of a k (.closing kind) = false := by simpa [Mark.Of] using hk
      rw [flatten, List.find?_cons_of_neg (by simp [hopen]), List.find?_append,
        List.find?_cons_of_neg (by simp [hclose])]
      cases hfind : inner.flatten.find? (Mark.Of a k) with
      | none => simpa using ihr
      | some m =>
        rw [hfind] at ihi
        simpa using ihi

/-- A pass works on nested brackets by themselves. -/
theorem Nested.collapse_flatten (n : Nested κ) (ms : List (Mark κ)) :
    collapse a (n.flatten ++ ms) = (n.level a).flatten ++ collapse a ms := by
  induction n generalizing ms with
  | nil => rfl
  | atom rest ih =>
    rw [flatten, level, flatten, List.cons_append, List.cons_append, collapse_atom, ih]
  | group kind inner rest ihi ihr =>
    have hflat : (Nested.group kind inner rest).flatten ++ ms =
        .opening kind :: (inner.flatten ++ .closing kind :: (rest.flatten ++ ms)) := by
      simp [flatten]
    rw [hflat, level]
    by_cases hany : inner.flatten.any (Mark.Of a kind) = true
    · have hfirst : (inner.flatten ++ .closing kind :: (rest.flatten ++ ms)).find?
          (Mark.Of a kind) ≠ some (.closing kind) := by
        rw [List.find?_append, Option.or_of_isSome (by rwa [List.find?_isSome, ← List.any_eq_true])]
        exact inner.find_flatten
      rw [if_pos hany, collapse_opening hfirst, ihi, collapse_closing, ihr]
      simp [flatten]
    · rw [if_neg hany, collapse_pair (by simpa using hany), ihr]

theorem Nested.length_level_le (n : Nested κ) :
    (n.level a).flatten.length ≤ n.flatten.length := by
  have h := length_collapse_le (a := a) n.flatten
  have heq := n.collapse_flatten (a := a) []
  rw [List.append_nil, collapse_nil, List.append_nil] at heq
  rwa [heq] at h

theorem Nested.any_of_exposes {n : Nested κ} (h : n.exposes a = true) :
    n.flatten.any (Mark.Of a a) = true := by
  induction n with
  | nil => cases h
  | atom rest ih => simp [flatten, Mark.Of]
  | group kind inner rest ihi ihr =>
    rw [exposes, Bool.or_eq_true, Bool.and_eq_true, decide_eq_true_eq] at h
    rcases h with ⟨rfl, -⟩ | h
    · simp [flatten, Mark.Of]
    · simp [flatten, ihr h]

theorem Nested.exposes_level (n : Nested κ) : (n.level a).exposes a = n.exposes a := by
  induction n with
  | nil => rfl
  | atom rest ih => rfl
  | group kind inner rest ihi ihr =>
    rw [level]
    split
    · rw [exposes, exposes, ihi, ihr]
    · next hany =>
      rw [exposes, ihr]
      by_cases hk : kind = a
      · subst hk
        have hinner : inner.exposes kind = false := by
          by_contra hexposes
          exact hany (any_of_exposes (by simpa using hexposes))
        simp [hinner]
      · simp [hk]

/-- Where a bracket stands that is not of the atoms' kind, a pass takes something out. -/
theorem Nested.level_shorter_of_any {n : Nested κ} (hk : k ≠ a)
    (h : n.flatten.any (Mark.Of a k) = true) :
    (n.level a).flatten.length < n.flatten.length := by
  induction n generalizing k with
  | nil => cases h
  | atom rest ih =>
    have hrest : rest.flatten.any (Mark.Of a k) = true := by
      simpa [flatten, Mark.Of, hk.symm] using h
    simpa [level, flatten] using ih hk hrest
  | group kind inner rest ihi ihr =>
    have hinner := inner.length_level_le (a := a)
    have hrest := rest.length_level_le (a := a)
    rw [level]
    split
    · next hany =>
      simp only [flatten, List.length_cons, List.length_append]
      by_cases hkind : kind = a
      · have hne : kind ≠ k := fun heq ↦ hk (heq ▸ hkind)
        have hparts : inner.flatten.any (Mark.Of a k) = true ∨
            rest.flatten.any (Mark.Of a k) = true := by
          simpa [flatten, Mark.Of, hne] using h
        rcases hparts with hparts | hparts
        · have := ihi hk hparts
          omega
        · have := ihr hk hparts
          omega
      · have := ihi hkind hany
        omega
    · simp only [flatten, List.length_cons, List.length_append]
      omega

/-- Where no atom is exposed, a pass takes something out. -/
theorem Nested.level_shorter {n : Nested κ} (hexposes : n.exposes a = false)
    (hne : n.flatten ≠ []) : (n.level a).flatten.length < n.flatten.length := by
  induction n with
  | nil => exact absurd rfl hne
  | atom rest ih => cases hexposes
  | group kind inner rest ihi ihr =>
    have hinner := inner.length_level_le (a := a)
    have hrest := rest.length_level_le (a := a)
    rw [exposes, Bool.or_eq_false_iff] at hexposes
    rw [level]
    split
    · next hany =>
      simp only [flatten, List.length_cons, List.length_append]
      by_cases hkind : kind = a
      · have hsome : inner.flatten ≠ [] := by
          rintro hnil
          rw [hnil] at hany
          cases hany
        have := ihi (by simpa [hkind] using hexposes.1) hsome
        omega
      · have := level_shorter_of_any hkind hany
        omega
    · simp only [flatten, List.length_cons, List.length_append]
      omega

end

/-! ### Readings -/

/-- A mark that stands by itself, or a group. -/
inductive Item (κ : Type u)
  | stray (m : Mark κ)
  | group (kind : κ) (inner : Nested κ)
  deriving DecidableEq, Repr

section
variable {κ : Type u} [DecidableEq κ] (a : κ)

/-- The marks of an item. -/
def Item.flatten : Item κ → List (Mark κ)
  | .stray m => [m]
  | .group kind inner => (Nested.group kind inner .nil).flatten

/-- The marks that a reading stands for. -/
def flattenItems (items : List (Item κ)) : List (Mark κ) := items.flatMap Item.flatten

/-- The marks that stand by themselves. -/
def strays (items : List (Item κ)) : List (Mark κ) :=
  items.filterMap fun | .stray m => some m | .group _ _ => none

/-- No atom is exposed in a group of the atoms' kind. -/
def Item.clean : Item κ → Bool
  | .stray _ => true
  | .group kind inner => !(kind = a && inner.exposes a)

/-- What a pass leaves of an item. -/
def Item.level : Item κ → Option (Item κ)
  | .stray m => some (.stray m)
  | .group kind inner =>
      if inner.flatten.any (Mark.Of a kind) then some (.group kind (inner.level a)) else none

/-- No closing bracket follows an opening one of its kind. -/
def Unpaired (ms : List (Mark κ)) : Prop := ∀ k, ¬ [.opening k, .closing k].Sublist ms

/-- The marks can be read as clean groups and marks by themselves, of which no atom stands between
an opening and a closing bracket of its kind. -/
def Readable (ms : List (Mark κ)) : Prop :=
  ∃ items : List (Item κ), flattenItems items = ms ∧ (∀ item ∈ items, item.clean a = true) ∧
    ¬ [.opening a, .atom, .closing a].Sublist (strays items)

variable {a} {k : κ} {items : List (Item κ)} {ms : List (Mark κ)}

omit [DecidableEq κ] in
@[simp] theorem flattenItems_cons (item : Item κ) :
    flattenItems (item :: items) = item.flatten ++ flattenItems items := rfl

/-- A pass works on a group by itself. -/
theorem collapse_group (inner : Nested κ) :
    collapse a ((Item.group k inner).flatten ++ ms) =
      flattenItems ((Item.group k inner).level a).toList ++ collapse a ms := by
  rw [Item.flatten, Nested.collapse_flatten, Nested.level, Item.level]
  split
  · simp [flattenItems, Item.flatten, Nested.level]
  · rfl

theorem Item.length_level_lt {inner : Nested κ} (h : (Item.group k inner).clean a = true) :
    (flattenItems ((Item.group k inner).level a).toList).length <
      (Item.group k inner).flatten.length := by
  have hlevel := @collapse_group κ _ a k [] inner
  rw [List.append_nil, collapse_nil, List.append_nil] at hlevel
  have hnested := (Nested.group k inner .nil).collapse_flatten (a := a) []
  rw [List.append_nil, collapse_nil, List.append_nil] at hnested
  rw [← hlevel, Item.flatten, hnested]
  rw [Item.clean, Bool.not_eq_true'] at h
  refine Nested.level_shorter ?_ (by simp [Nested.flatten])
  rw [Nested.exposes, h]
  rfl

/-- The closing bracket that ends a pair over a reading stands by itself. -/
theorem exists_stray_of_pair {inner rest : List (Mark κ)}
    (h : flattenItems items = inner ++ .closing k :: rest)
    (hinner : ∀ m ∈ inner, m.Of a k = false) :
    ∃ before after, items = before ++ .stray (.closing k) :: after ∧
      flattenItems after = rest := by
  induction items generalizing inner with
  | nil =>
    rw [flattenItems, List.flatMap_nil] at h
    simp at h
  | cons item items ih =>
    rw [flattenItems_cons] at h
    rcases List.append_eq_append_iff.mp h with ⟨more, rfl, hmore⟩ | ⟨more, hitem, hmore⟩
    · obtain ⟨before, after, rfl, hafter⟩ := ih hmore fun m hm ↦
        hinner m (List.mem_append_right _ hm)
      exact ⟨item :: before, after, rfl, hafter⟩
    · cases more with
      | nil =>
        obtain ⟨before, after, rfl, hafter⟩ := @ih [] hmore.symm (by simp)
        exact ⟨item :: before, after, rfl, hafter⟩
      | cons m more =>
        obtain ⟨rfl, rfl⟩ := List.cons.inj hmore
        cases item with
        | stray m =>
          cases inner with
          | nil =>
            obtain ⟨rfl, hnil⟩ := List.cons.inj hitem
            rw [← hnil]
            exact ⟨[], items, rfl, rfl⟩
          | cons x inner =>
            have hlen := congrArg List.length hitem
            simp [Item.flatten] at hlen
        | group kind inside =>
          exact absurd (find_closing_iff.mpr ⟨inner, more, hitem, hinner⟩)
            (Nested.find_flatten _)

omit [DecidableEq κ] in
theorem flattenItems_append (before after : List (Item κ)) :
    flattenItems (before ++ after) = flattenItems before ++ flattenItems after :=
  List.flatMap_append

omit [DecidableEq κ] in
theorem strays_append (before after : List (Item κ)) :
    strays (before ++ after) = strays before ++ strays after := List.filterMap_append

omit [DecidableEq κ] in
@[simp] theorem strays_stray (m : Mark κ) : strays (.stray m :: items) = m :: strays items := rfl

omit [DecidableEq κ] in
@[simp] theorem strays_group (inner : Nested κ) :
    strays (.group k inner :: items) = strays items := rfl

theorem Item.clean_level {inner : Nested κ} (h : (Item.group k inner).clean a = true) :
    ∀ item ∈ ((Item.group k inner).level a).toList, item.clean a = true := by
  intro item hitem
  rw [Item.level] at hitem
  split at hitem
  · rw [Option.toList_some, List.mem_singleton] at hitem
    rw [hitem, Item.clean, Nested.exposes_level]
    exact h
  · cases hitem

/-- A pass over clean groups leaves clean groups, and no mark more. -/
theorem exists_reading_of_collapse (items : List (Item κ))
    (hclean : ∀ item ∈ items, item.clean a = true) :
    ∃ items', flattenItems items' = collapse a (flattenItems items) ∧
      (∀ item ∈ items', item.clean a = true) ∧ (strays items').Sublist (strays items) := by
  induction hlen : items.length using Nat.strong_induction_on generalizing items with
  | h n ih =>
    subst hlen
    cases items with
    | nil => exact ⟨[], by simp [flattenItems], by simp, List.Sublist.refl _⟩
    | cons item items =>
      have hitem := hclean item List.mem_cons_self
      obtain ⟨items', hflat, hclean', hsub⟩ := ih items.length (Nat.lt_succ_self _) items
        (fun x hx ↦ hclean x (List.mem_cons_of_mem _ hx)) rfl
      have hkept : ∀ m : Mark κ, collapse a (m :: flattenItems items) =
          m :: collapse a (flattenItems items) → ∃ items',
            flattenItems items' = collapse a (m :: flattenItems items) ∧
            (∀ item ∈ items', item.clean a = true) ∧
              (strays items').Sublist (m :: strays items) := by
        intro m hm
        refine ⟨.stray m :: items', ?_, ?_, hsub.cons_cons _⟩
        · rw [hm, flattenItems_cons, hflat]
          rfl
        · exact List.forall_mem_cons.mpr ⟨rfl, hclean'⟩
      cases item with
      | stray m =>
        rw [flattenItems_cons, Item.flatten, List.singleton_append, strays_stray]
        cases m with
        | closing k => exact hkept _ collapse_closing
        | atom => exact hkept _ collapse_atom
        | opening k =>
          by_cases hclosed : (flattenItems items).find? (Mark.Of a k) = some (.closing k)
          · -- a pair across the reading takes whole items out
            obtain ⟨inner, rest, hinside, hinner⟩ := find_closing_iff.mp hclosed
            obtain ⟨before, after, rfl, rfl⟩ := exists_stray_of_pair hinside hinner
            rw [hinside, collapse_pair hinner]
            have hshort : after.length <
                (Item.stray (.opening k) :: (before ++ .stray (.closing k) :: after)).length := by
              simp only [List.length_cons, List.length_append]
              omega
            obtain ⟨items', hflat, hclean', hsub⟩ := ih after.length hshort after
              (fun x hx ↦ hclean x (List.mem_cons_of_mem _
                (List.mem_append_right _ (List.mem_cons_of_mem _ hx)))) rfl
            refine ⟨items', hflat, hclean', hsub.trans ?_⟩
            rw [strays_append, strays_stray]
            exact ((List.sublist_cons_self _ _).trans (List.sublist_append_right _ _)).cons _
          · exact hkept _ (collapse_opening hclosed)
      | group k inner =>
        rw [flattenItems_cons, collapse_group]
        refine ⟨((Item.group k inner).level a).toList ++ items', ?_, ?_, ?_⟩
        · rw [flattenItems_append, hflat]
        · intro x hx
          rcases List.mem_append.mp hx with hx | hx
          · exact Item.clean_level hitem x hx
          · exact hclean' x hx
        · rw [strays_append, strays_group]
          have hnone : strays ((Item.group k inner).level a).toList = [] := by
            rw [Item.level]
            split <;> rfl
          rwa [hnone]

theorem Readable.collapse (h : Readable a ms) : Readable a (collapse a ms) := by
  obtain ⟨items, rfl, hclean, hbetween⟩ := h
  obtain ⟨items', hflat, hclean', hsub⟩ := exists_reading_of_collapse items hclean
  exact ⟨items', hflat, hclean', fun h ↦ hbetween (h.trans hsub)⟩

/-- What is readable and left as it is by a pass has no pair left. -/
theorem Readable.unpaired (h : Readable a ms) (hfixed : FgGas.Machine.collapse a ms = ms) :
    Unpaired ms := by
  obtain ⟨items, rfl, hclean, hbetween⟩ := h
  -- a clean group would have lost a pair
  have hstray : ∀ item ∈ items, ∃ m, item = .stray m := by
    intro item hmem
    cases item with
    | stray m => exact ⟨m, rfl⟩
    | group k inner =>
      obtain ⟨before, after, rfl⟩ := List.append_of_mem hmem
      rw [flattenItems_append, flattenItems_cons] at hfixed
      have hgroup := fixed_append hfixed
      have hafter := fixed_append hgroup
      rw [collapse_group, hafter] at hgroup
      have hlen := congrArg List.length hgroup
      have hlt := Item.length_level_lt (hclean _ hmem)
      rw [List.length_append, List.length_append] at hlen
      omega
  have hstrays : strays items = flattenItems items := by
    clear hclean hbetween hfixed
    induction items with
    | nil => rfl
    | cons item items ih =>
      obtain ⟨m, rfl⟩ := hstray item List.mem_cons_self
      rw [strays_stray, flattenItems_cons, ih fun x hx ↦ hstray x (List.mem_cons_of_mem _ hx)]
      rfl
  intro k hpair
  obtain ⟨rfl, hatom⟩ := atom_between hfixed hpair
  exact hbetween (hstrays ▸ hatom)

/-! ### Brackets that do not cross -/

/-- The marks can be read as groups and marks by themselves, of which no closing bracket follows an
opening one of its kind: no two pairs cross. -/
def Uncrossed (ms : List (Mark κ)) : Prop :=
  ∃ items : List (Item κ), flattenItems items = ms ∧ Unpaired (strays items)

/-- A pass over pairs that do not cross works on each item by itself. -/
theorem collapse_flattenItems (h : Unpaired (strays items)) :
    collapse a (flattenItems items) = flattenItems (items.filterMap (Item.level a)) := by
  induction items with
  | nil => simp [flattenItems]
  | cons item items ih =>
    cases item with
    | stray m =>
      rw [strays_stray] at h
      have hrest := ih fun k hk ↦ h k (hk.cons _)
      rw [List.filterMap_cons_some (show (Item.stray m).level a = some (.stray m) from rfl),
        flattenItems_cons, flattenItems_cons, Item.flatten, List.singleton_append,
        List.singleton_append, ← hrest]
      cases m with
      | closing k => exact collapse_closing
      | atom => exact collapse_atom
      | opening k =>
        apply collapse_opening
        intro hclosed
        obtain ⟨inner, rest, hinside, hinner⟩ := find_closing_iff.mp hclosed
        obtain ⟨before, after, rfl, -⟩ := exists_stray_of_pair hinside hinner
        refine h k ((List.singleton_sublist.mpr ?_).cons_cons _)
        rw [strays_append, strays_stray]
        exact List.mem_append_right _ List.mem_cons_self
    | group k inner =>
      rw [flattenItems_cons, collapse_group, ih h]
      cases hlevel : (Item.group k inner).level a with
      | none =>
        rw [List.filterMap_cons_none hlevel]
        rfl
      | some item =>
        rw [List.filterMap_cons_some hlevel]
        simp [flattenItems]

theorem strays_filterMap_level : strays (items.filterMap (Item.level a)) = strays items := by
  induction items with
  | nil => rfl
  | cons item items ih =>
    cases item with
    | stray m =>
      rw [List.filterMap_cons_some (show (Item.stray m).level a = some (.stray m) from rfl),
        strays_stray, strays_stray, ih]
    | group k inner =>
      rw [strays_group, ← ih]
      cases hlevel : (Item.group k inner).level a with
      | none => rw [List.filterMap_cons_none hlevel]
      | some item =>
        rw [List.filterMap_cons_some hlevel]
        rw [Item.level] at hlevel
        split at hlevel
        · cases hlevel
          rfl
        · cases hlevel

/-- A group with an atom exposed in it stays. -/
theorem exists_group_of_level {inner : Nested κ} (hmem : Item.group a inner ∈ items)
    (hexposes : inner.exposes a = true) :
    ∃ inner', Item.group a inner' ∈ items.filterMap (Item.level a) ∧
      inner'.exposes a = true := by
  refine ⟨inner.level a, List.mem_filterMap.mpr ⟨_, hmem, ?_⟩, ?_⟩
  · rw [Item.level, if_pos (Nested.any_of_exposes hexposes)]
  · rw [Nested.exposes_level, hexposes]

theorem exists_group_of_iterate (n : ℕ) {items : List (Item κ)} (h : Unpaired (strays items))
    {inner : Nested κ} (hmem : Item.group a inner ∈ items) (hexposes : inner.exposes a = true) :
    ∃ (items' : List (Item κ)) (inner' : Nested κ),
      flattenItems items' = (collapse a)^[n] (flattenItems items) ∧
        Item.group a inner' ∈ items' := by
  induction n generalizing items inner with
  | zero => exact ⟨items, inner, rfl, hmem⟩
  | succ n ih =>
    obtain ⟨inner', hmem', hexposes'⟩ := exists_group_of_level hmem hexposes
    rw [Function.iterate_succ_apply, collapse_flattenItems h]
    exact ih (by rwa [strays_filterMap_level]) hmem' hexposes'

variable {n : ℕ} (hfixed : collapse a ((collapse a)^[n] ms) = (collapse a)^[n] ms)
include hfixed

/-- Of readable marks the passes leave no pair. -/
theorem unpaired_of_readable (h : Readable a ms) : Unpaired ((collapse a)^[n] ms) := by
  have hreadable : Readable a ((collapse a)^[n] ms) := by
    clear hfixed
    induction n generalizing ms with
    | zero => exact h
    | succ n ih => exact ih h.collapse
  exact hreadable.unpaired hfixed

/-- Of marks whose pairs do not cross the passes leave no pair exactly when they are readable. -/
theorem unpaired_iff_readable (h : Uncrossed ms) :
    Unpaired ((collapse a)^[n] ms) ↔ Readable a ms := by
  refine ⟨fun hunpaired ↦ ?_, unpaired_of_readable hfixed⟩
  obtain ⟨items, rfl, hstrays⟩ := h
  refine ⟨items, rfl, fun item hitem ↦ ?_, fun hbetween ↦ ?_⟩
  · by_contra hunclean
    cases item with
    | stray m => exact hunclean rfl
    | group k inner =>
      rw [Item.clean, Bool.not_eq_true', Bool.not_eq_false, Bool.and_eq_true,
        decide_eq_true_eq] at hunclean
      obtain ⟨rfl, hexposes⟩ := hunclean
      obtain ⟨items', inner', hflat, hmem⟩ := exists_group_of_iterate n hstrays hitem hexposes
      obtain ⟨before, after, rfl⟩ := List.append_of_mem hmem
      refine hunpaired k ?_
      rw [← hflat, flattenItems_append, flattenItems_cons]
      have hpair : [Mark.opening k, Mark.closing k].Sublist (Item.group k inner').flatten := by
        rw [Item.flatten, Nested.flatten]
        exact (List.singleton_sublist.mpr (by simp)).cons_cons _
      exact (hpair.trans (List.sublist_append_left _ _)).trans (List.sublist_append_right _ _)
  · have hskip : [Mark.opening a, Mark.closing a].Sublist [.opening a, .atom, .closing a] :=
      ((List.Sublist.refl _).cons _).cons_cons _
    exact hstrays a (hskip.trans hbetween)

end

end FgGas.Machine
