import FgGas.Buckets.Groups

/-!
# Values stored of a fact

The `$group` of a stored fact is cut one past `MAX_VALUES`, and null is dropped after the cut. A
fact with more values is noticed as such unless the null group is among those that are left.
-/

namespace FgGas.Buckets

variable {τ ι : Type}

/-- The distinct values the rows hold of a fact, null apart. -/
def distinctValues (rows : List (Document τ ι)) (fact : String) : List String :=
  (rows.filterMap fun d ↦ d.fact fact).dedup

/-- The values of a fact are all answered, each once, or null where there are too many. -/
def NeverCutShort (platform : Platform) (rows : List (Document τ ι)) (fact : String) : Prop :=
  (MAX_VALUES < (distinctValues rows fact).length → readStoredValues platform rows fact = none) ∧
    ((distinctValues rows fact).length ≤ MAX_VALUES →
      ∃ names, readStoredValues platform rows fact = some names ∧ names.Nodup ∧
        ∀ value, value ∈ names ↔ ∃ d ∈ rows, d.fact fact = some value)

/-- Of distinct groups, the null one is the only one dropped. -/
theorem length_filterMap_id {groups : List (Option String)} (h : groups.Nodup) :
    (groups.filterMap id).length + (if none ∈ groups then 1 else 0) = groups.length := by
  induction groups with
  | nil => rfl
  | cons group groups ih =>
    obtain ⟨hgroup, hrest⟩ := List.nodup_cons.mp h
    have ih := ih hrest
    cases group with
    | none =>
      rw [if_neg hgroup] at ih
      rw [List.filterMap_cons_none rfl, if_pos List.mem_cons_self, List.length_cons]
      omega
    | some value =>
      have hcons : (some value :: groups).filterMap id = value :: groups.filterMap id := rfl
      rw [hcons, List.length_cons, List.length_cons]
      simp only [List.mem_cons, reduceCtorEq, false_or]
      omega

section
variable {platform : Platform} {rows : List (Document τ ι)} {fact : String}

theorem groupOrder_nodup (values : List (Option String)) : (platform.groupOrder values).Nodup :=
  (platform.groups values).nodup_iff.mpr (List.nodup_dedup values)

theorem mem_groupOrder {values : List (Option String)} {value : Option String} :
    value ∈ platform.groupOrder values ↔ value ∈ values := by
  rw [(platform.groups values).mem_iff, List.mem_dedup]

/-- All groups but the null one are the distinct values. -/
theorem filterMap_groupOrder :
    ((platform.groupOrder (rows.map fun d ↦ d.fact fact)).filterMap id).Perm
      (distinctValues rows fact) := by
  apply (List.perm_ext_iff_of_nodup _ (List.nodup_dedup _)).mpr
  · intro value
    simp [mem_groupOrder, List.mem_dedup]
  · apply (groupOrder_nodup _).filterMap
    intro a b value ha hb
    exact (show a = some value from ha).trans (show b = some value from hb).symm

theorem length_groupOrder :
    (distinctValues rows fact).length +
        (if none ∈ platform.groupOrder (rows.map fun d ↦ d.fact fact) then 1 else 0) =
      (platform.groupOrder (rows.map fun d ↦ d.fact fact)).length := by
  rw [← (@filterMap_groupOrder τ ι platform rows fact).length_eq]
  exact length_filterMap_id (groupOrder_nodup _)

/-- Up to `MAX_VALUES` values are all read. -/
theorem readStoredValues_of_le (h : (distinctValues rows fact).length ≤ MAX_VALUES) :
    ∃ names, readStoredValues platform rows fact = some names ∧
      names.Perm (distinctValues rows fact) := by
  have hlength := @length_groupOrder τ ι platform rows fact
  have hall : groupsRead platform rows fact =
      platform.groupOrder (rows.map fun d ↦ d.fact fact) := by
    apply List.take_of_length_le
    split at hlength <;> omega
  have hperm : (((groupsRead platform rows fact).filterMap id).mergeSort platform.localeLe).Perm
      (distinctValues rows fact) := by
    rw [hall]
    exact (List.mergeSort_perm _ _).trans filterMap_groupOrder
  refine ⟨_, if_neg ?_, hperm⟩
  rw [hperm.length_eq]
  omega

/-- More than `MAX_VALUES` values are noticed where the null group is not among those read. -/
theorem readStoredValues_eq_none_iff (h : MAX_VALUES < (distinctValues rows fact).length) :
    readStoredValues platform rows fact = none ↔ none ∉ groupsRead platform rows fact := by
  have hlength := @length_groupOrder τ ι platform rows fact
  have hread : (groupsRead platform rows fact).length = MAX_VALUES + 1 := by
    rw [groupsRead, List.length_take]
    split at hlength <;> omega
  have hnodup : (groupsRead platform rows fact).Nodup :=
    (groupOrder_nodup _).sublist (List.take_sublist _ _)
  have hnames := length_filterMap_id hnodup
  have hsorted : (((groupsRead platform rows fact).filterMap id).mergeSort
      platform.localeLe).length = ((groupsRead platform rows fact).filterMap id).length :=
    (List.mergeSort_perm _ _).length_eq
  simp only [readStoredValues, hsorted]
  by_cases hnone : none ∈ groupsRead platform rows fact
  · rw [if_pos hnone] at hnames
    have hle : ¬ MAX_VALUES < ((groupsRead platform rows fact).filterMap id).length := by omega
    rw [if_neg hle]
    exact ⟨fun heq ↦ (Option.some_ne_none _ heq).elim, fun hnot ↦ absurd hnone hnot⟩
  · rw [if_neg hnone] at hnames
    have hlt : MAX_VALUES < ((groupsRead platform rows fact).filterMap id).length := by omega
    rw [if_pos hlt]
    exact ⟨fun _ ↦ hnone, fun _ ↦ rfl⟩

end

/-- A list of values is never cut short if and only if there are at most `MAX_VALUES`, or the
database's first `MAX_VALUES + 1` groups leave null out. -/
theorem never_cut_short_iff (platform : Platform) (rows : List (Document τ ι)) (fact : String) :
    NeverCutShort platform rows fact ↔ (distinctValues rows fact).length ≤ MAX_VALUES ∨
      none ∉ (platform.groupOrder (rows.map fun d ↦ d.fact fact)).take (MAX_VALUES + 1) := by
  have hwhole : (distinctValues rows fact).length ≤ MAX_VALUES →
      ∃ names, readStoredValues platform rows fact = some names ∧ names.Nodup ∧
        ∀ value, value ∈ names ↔ ∃ d ∈ rows, d.fact fact = some value := by
    intro hle
    obtain ⟨names, hnames, hperm⟩ := readStoredValues_of_le hle
    refine ⟨names, hnames, hperm.nodup_iff.mpr (List.nodup_dedup _), fun value ↦ ?_⟩
    rw [hperm.mem_iff, distinctValues, List.mem_dedup, List.mem_filterMap]
  constructor
  · rintro ⟨hmany, _⟩
    by_cases hle : (distinctValues rows fact).length ≤ MAX_VALUES
    · exact .inl hle
    · have hlt : MAX_VALUES < (distinctValues rows fact).length := by omega
      exact .inr ((readStoredValues_eq_none_iff hlt).mp (hmany hlt))
  · intro hor
    refine ⟨fun hlt ↦ ?_, hwhole⟩
    rcases hor with hle | hnone
    · omega
    · exact (readStoredValues_eq_none_iff hlt).mpr hnone

/-- A hundred and one grants' events and one without a grant: a hundred codes are read. -/
theorem cut_short_at_null :
    MAX_VALUES < (distinctValues grantEvents "grantCode").length ∧
      (∃ names, readStoredValues firstMet grantEvents "grantCode" = some names) ∧
      ¬ NeverCutShort firstMet grantEvents "grantCode" := by
  obtain ⟨names, hnames⟩ := readStoredValues_grantEvents
  have hlt : MAX_VALUES < (distinctValues grantEvents "grantCode").length := by
    have hcodes : (grantEvents.map fun d ↦ d.fact "grantCode") =
        (List.finRange 102).map grantCodeOf := by
      rw [grantEvents, List.map_map]
      rfl
    have hlength := @length_groupOrder _ _ firstMet grantEvents "grantCode"
    rw [hcodes, firstMet_groupOrder ((List.nodup_finRange 102).map grantCodeOf_injective),
      List.length_map, List.length_finRange] at hlength
    have hmax : MAX_VALUES = 100 := rfl
    split at hlength <;> omega
  refine ⟨hlt, ⟨names, hnames⟩, fun hkept ↦ ?_⟩
  rw [hkept.1 hlt] at hnames
  cases hnames

end FgGas.Buckets
