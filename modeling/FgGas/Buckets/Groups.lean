import Mathlib.Data.List.Count
import Mathlib.Data.List.Dedup
import FgGas.Buckets.Paging
import FgGas.Listing.Tally

/-!
# Groups of a list

The tiles beside a list: for each value of a grouping how many rows the list shows filtered by
it, and how many without the grouping's own filter (`readGroup` of
`src/common/buckets/engine.js`). The values of a stored fact are read from the collection, at
most `MAX_VALUES` of them.
-/

namespace FgGas.Buckets

open Listing

/-- What the database and the runtime leave open: in which order `$group` answers the distinct
values it is given, and how `localeCompare` orders texts. -/
structure Platform where
  groupOrder : List (Option String) → List (Option String)
  groups : ∀ values, (groupOrder values).Perm values.dedup
  localeLe : String → String → Bool

/-- `MAX_VALUES`. -/
def MAX_VALUES : Nat := 100

/-- A value of a grouping with its count. -/
structure GroupValue where
  value : String
  counted : Count
  deriving DecidableEq, Repr

/-- The group of a fact; its values and its total are none when they cannot be read exactly. -/
structure Group where
  byFact : String
  values : Option (List GroupValue)
  total : Option Count
  deriving DecidableEq, Repr

variable {τ ι : Type}

/-- The values of a fact a `$group` with a limit of one more than `MAX_VALUES` answers. -/
def groupsRead (platform : Platform) (rows : List (Document τ ι)) (fact : String) :
    List (Option String) :=
  (platform.groupOrder (rows.map fun d ↦ d.fact fact)).take (MAX_VALUES + 1)

/-- `readStoredValues`. -/
def readStoredValues (platform : Platform) (rows : List (Document τ ι)) (fact : String) :
    Option (List String) :=
  let values := ((groupsRead platform rows fact).filterMap id).mergeSort platform.localeLe
  if MAX_VALUES < values.length then none else some values

/-- `valuesOf`, of a fact with closed or stored values. -/
def listedValues (platform : Platform) (rows : List (Document τ ι)) (bucket : Bucket)
    (fact : String) : Option (List String) :=
  if isClosed bucket fact then some ((bucket.valuesOf fact).map FactValue.value)
  else readStoredValues platform rows fact

/-- `{ ...where, [fact]: value }`. -/
def withFilter {α : Type} (wanted : List (String × α)) (fact : String) (value : α) :
    List (String × α) :=
  wanted.filter (fun p ↦ p.1 ≠ fact) ++ [(fact, value)]

/-- The facts asked but for one. -/
def Query.others (query : Query τ ι) (fact : String) : List String :=
  query.asked.filter (· ≠ fact)

/-- `planOf`. -/
def planOf (bucket : Bucket) (query : Query τ ι) (asked : List String) : Plan :=
  choosePlan bucket asked query.ref.isSome query.shown

section
variable [LinearOrder τ] [LinearOrder ι]

/-- `countValue`. -/
def countValue (rows : List (Document τ ι)) (read : Read τ ι) (asked : List String)
    (fact value : String) : GroupValue where
  value := value
  counted := readCount rows
    { read with
      query := { read.query with
        asked := asked
        wanted := withFilter read.query.wanted fact (some value) } } COUNT_CAP

/-- `readGroupValues`. -/
def readGroupValues (platform : Platform) (rows : List (Document τ ι)) (read : Read τ ι)
    (others : List String) (fact : String) : Option (List GroupValue) :=
  let asked := others ++ [fact]
  let plan := planOf read.bucket read.query asked
  if plan.kind = .exact then
    (listedValues platform rows read.bucket fact).map fun values ↦
      values.map (countValue rows { read with plan := plan } asked fact)
  else none

/-- `readGroupTotal`. -/
def readGroupTotal (rows : List (Document τ ι)) (read : Read τ ι) (others : List String) :
    Option Count :=
  let plan := planOf read.bucket read.query others
  if plan.kind = .exact then
    some (readCount rows { read with plan := plan, query := { read.query with asked := others } }
      COUNT_CAP)
  else none

/-- `readGroup`. -/
def readGroup (platform : Platform) (rows : List (Document τ ι)) (read : Read τ ι)
    (fact : String) : Group :=
  let others := read.query.others fact
  ⟨fact, readGroupValues platform rows read others fact, readGroupTotal rows read others⟩

end

/-! ### What is counted -/

section
variable {bucket : Bucket} {fact other value : String} {d : Document τ ι}

theorem lookup_withFilter {α : Type} (wanted : List (String × α)) (fact : String) (value : α) :
    (withFilter wanted fact value).lookup fact = some value := by
  have hnone : (wanted.filter fun p ↦ p.1 ≠ fact).lookup fact = none := by
    rw [List.lookup_eq_none_iff]
    intro p hp
    have hne : p.1 ≠ fact := by simpa using (List.mem_filter.mp hp).2
    simpa using hne.symm
  rw [withFilter, List.lookup_append, hnone]
  simp

theorem lookup_withFilter_of_ne {α : Type} (wanted : List (String × α)) (value : α)
    (h : other ≠ fact) : (withFilter wanted fact value).lookup other = wanted.lookup other := by
  have hlast : List.lookup other [(fact, value)] = none := by simp [h]
  rw [withFilter, List.lookup_append, hlast, Option.or_none]
  induction wanted with
  | nil => rfl
  | cons p wanted ih =>
    obtain ⟨name, v⟩ := p
    by_cases hother : other = name
    · have hname : name ≠ fact := hother ▸ h
      simp [hname, hother]
    · have hskip : (other == name) = false := beq_eq_false_iff_ne.mpr hother
      by_cases hname : name = fact
      · simpa [hname, List.lookup_cons, hname ▸ hskip] using ih
      · simpa [hname, List.lookup_cons, hskip] using ih

/-- The query with one more filter, in the place of any the fact had. -/
def Query.filteredBy (query : Query τ ι) (fact value : String) : Query τ ι :=
  { query with
    asked := query.others fact ++ [fact]
    wanted := withFilter query.wanted fact (some value) }

/-- The query without the fact's filter. -/
def Query.dropping (query : Query τ ι) (fact : String) : Query τ ι :=
  { query with asked := query.others fact }

/-- A value the list shows rows of when the fact is not asked. -/
def isVisible (bucket : Bucket) (shown : List String) (fact value : String) : Bool :=
  !isClosed bucket fact || value ∈ fillOf bucket fact shown

variable [LinearOrder τ] {query : Query τ ι}

/-- Filtering by a visible value picks out the rows that hold it. -/
theorem selected_filteredBy (hvisible : isVisible bucket query.shown fact value = true) :
    Selected bucket (query.filteredBy fact value) d ↔
      Selected bucket (query.dropping fact) d ∧ d.fact fact = some value := by
  have hother : ∀ other, other ≠ fact →
      (query.filteredBy fact value).value other = query.value other := fun other hne ↦
    congrArg (Option.getD · none) (lookup_withFilter_of_ne query.wanted _ hne)
  have hfact : (query.filteredBy fact value).value fact = some value :=
    congrArg (Option.getD · none) (lookup_withFilter query.wanted fact _)
  have hasked : ∀ name, name ∈ (query.filteredBy fact value).asked ↔
      name ∈ query.others fact ∨ name = fact := fun name ↦ by
    simp [Query.filteredBy]
  have hne : ∀ name ∈ query.others fact, name ≠ fact := fun name hname ↦ by
    simpa using (List.mem_filter.mp hname).2
  constructor
  · intro h
    have hvalue : d.fact fact = some value :=
      (h.asked fact ((hasked fact).mpr (.inr rfl))).trans hfact
    refine ⟨⟨fun name hname ↦ ?_, fun name hname hshown hhidden ↦ ?_, h.ref, h.since, h.until_⟩,
      hvalue⟩
    · exact (h.asked name ((hasked name).mpr (.inl hname))).trans (hother name (hne name hname))
    · by_cases heq : name = fact
      · obtain rfl := heq
        have hfill : value ∈ fillOf bucket name query.shown := by
          simpa [isVisible, isClosed_of_hasHidden hhidden] using hvisible
        obtain ⟨v, hv, hvis, rfl⟩ := mem_fillOf.mp hfill
        exact .inr ⟨v, hv, hvis.resolve_left hshown, hvalue⟩
      · exact h.unhidden name (fun hmem ↦ ((hasked name).mp hmem).elim hname heq) hshown hhidden
  · rintro ⟨h, hvalue⟩
    refine ⟨fun name hname ↦ ?_, fun name hname hshown hhidden ↦ ?_, h.ref, h.since, h.until_⟩
    · rcases (hasked name).mp hname with hmem | rfl
      · exact (h.asked name hmem).trans (hother name (hne name hmem)).symm
      · exact hvalue.trans hfact.symm
    · exact h.unhidden name (fun hmem ↦ hname ((hasked name).mpr (.inl hmem))) hshown hhidden

variable [LinearOrder ι]

/-- What an exact plan counts: the rows the query asks for, up to the cap. -/
theorem readCount_of_exact {rows : List (Document τ ι)} {hasRef : Bool} {cap : Nat}
    (hlead : ∀ fact ∈ bucket.lead, isClosed bucket fact = true)
    (hrows : ∀ d ∈ rows, HoldsDeclared bucket d)
    (hexact : (choosePlan bucket query.asked hasRef query.shown).kind = .exact)
    (huncapped : (readCount rows ⟨bucket, query,
      choosePlan bucket query.asked hasRef query.shown⟩ cap).capped = false) :
    (readCount rows ⟨bucket, query, choosePlan bucket query.asked hasRef query.shown⟩ cap).count =
      rows.countP fun d ↦ Selected bucket query d := by
  obtain ⟨line, hplan, hfillable⟩ := choosePlan_eq query.asked query.shown hasRef hlead
  rw [hplan] at hexact huncapped ⊢
  have hresidual : without (neededFacts bucket query.asked query.shown) (factsOf bucket line) =
      [] := by
    by_contra hne
    simp [planFor, hne] at hexact
  have hpasses : rows.countP (passes (matchParts ⟨bucket, query,
      planFor bucket line query.asked (neededFacts bucket query.asked query.shown)⟩)) =
      rows.countP fun d ↦ Selected bucket query d := by
    refine List.countP_congr fun d hd ↦ ?_
    have hselected : passes (selectParts ⟨bucket, query,
        planFor bucket line query.asked (neededFacts bucket query.asked query.shown)⟩) d = true ↔
          Selected bucket query d := passes_iff_selected rfl hfillable (hrows d hd)
    rw [decide_eq_true_eq, ← hselected, passes_selectParts_iff, iff_self_and]
    intro _
    simp [residualPart, planFor, hresidual, Part.admits]
  simp only [readCount, countDocuments, hpasses, decide_eq_false_iff_not, not_lt] at huncapped ⊢
  omega

/-- A count of fewer rows than the cap is not capped. -/
theorem readCount_uncapped {rows : List (Document τ ι)} {read : Read τ ι} {cap : Nat}
    (h : rows.length ≤ cap) : (readCount rows read cap).capped = false := by
  have hle : rows.countP (passes (matchParts read)) ≤ rows.length := List.countP_le_length
  have hnot : ¬ cap < countDocuments rows (matchParts read) (cap + 1) := by
    rw [countDocuments]
    omega
  exact decide_eq_false hnot

/-! ### Tiles and the list -/

/-- The request with one more filter, in the place of any the fact had. -/
def Body.filteredBy (body : Body τ) (fact value : String) : Body τ :=
  { body with wanted := withFilter body.wanted fact value }

/-- The tiles of a grouping tell what the list shows: each value counts the rows on the pages of
the list filtered by it, and the total counts the rows of the values the list shows and those
without one. -/
def TilesTellTheList (codec : Codec τ ι) (rows : List (Document τ ι)) (bucket : Bucket)
    (body : Body τ) (query : Query τ ι) (fact : String) (values : List GroupValue)
    (total : Count) : Prop :=
  (∀ v ∈ values, ∃ pages, Follows (pageFrom codec rows bucket (body.filteredBy fact v.value))
      BucketPage.following none pages ∧
      v.counted.count = (pages.flatMap BucketPage.rows).length) ∧
  total.count = ((values.filter fun v ↦ isVisible bucket query.shown fact v.value).map
      fun v ↦ v.counted.count).sum +
    rows.countP fun d ↦ Selected bucket (query.dropping fact) d ∧ d.fact fact = none

/-- A value stands once among the closed values of a fact, or among the stored values answered. -/
def ListedOnce (platform : Platform) (rows : List (Document τ ι)) (bucket : Bucket)
    (fact value : String) : Prop :=
  if isClosed bucket fact = true then
    ((bucket.valuesOf fact).map FactValue.value).count value = 1
  else some value ∈ groupsRead platform rows fact

/-- Every value that a row matching the other filters holds is listed once. -/
def HeldListedOnce (platform : Platform) (rows : List (Document τ ι)) (bucket : Bucket)
    (query : Query τ ι) (fact : String) : Prop :=
  ∀ d ∈ rows, Selected bucket (query.dropping fact) d → ∀ value, d.fact fact = some value →
    ListedOnce platform rows bucket fact value

variable {codec : Codec τ ι} {platform : Platform} {rows : List (Document τ ι)}
  {declared : Bucket} {body : Body τ} {cursor : Option (τ × ι)}

omit [LinearOrder ι] in
/-- The filtered request asks for what the filtered query does. -/
theorem selected_query_filteredBy :
    Selected bucket ((body.filteredBy fact value).query bucket cursor) d ↔
      Selected bucket ((body.query bucket cursor : Query τ ι).filteredBy fact value) d := by
  have hasked : (withFilter body.wanted fact value).map Prod.fst =
      (body.wanted.map Prod.fst).filter (· ≠ fact) ++ [fact] := by
    simp [withFilter, List.filter_map, Function.comp_def]
  have hwanted : (withFilter body.wanted fact value).map (fun p ↦ (p.1, some p.2)) =
      withFilter (body.wanted.map fun p ↦ (p.1, some p.2)) fact (some value) := by
    simp [withFilter, List.filter_map, Function.comp_def]
  exact Selected.congr hasked hwanted rfl rfl rfl rfl

/-- The list filtered by a value shows the rows its tile is to count. -/
theorem exists_filtered_list (hbucket : defineBucket declared = .ok bucket)
    (hids : (rows.map Document.id).Nodup) (htimes : ∀ d ∈ rows, codec.Canonical d.time)
    (hrows : ∀ d ∈ rows, HoldsDeclared bucket d)
    (hquery : parseQuery codec bucket body = .ok query) (hfact : fact ∈ bucket.groupings) :
    ∃ pages, Follows (pageFrom codec rows bucket (body.filteredBy fact value))
        BucketPage.following none pages ∧
      (pages.flatMap BucketPage.rows).length =
        rows.countP fun d ↦ Selected bucket (query.filteredBy fact value) d := by
  obtain ⟨haccepted, cursor, hcursor, rfl⟩ := parseQuery_eq_ok.mp hquery
  have hfiltered : parseQuery codec bucket (body.filteredBy fact value) =
      .ok ((body.filteredBy fact value).query bucket cursor) := by
    refine parseQuery_eq_ok.mpr ⟨⟨fun p hp ↦ ?_, haccepted.shown, haccepted.groupBy,
      haccepted.range⟩, cursor, hcursor, rfl⟩
    rcases List.mem_append.mp hp with hother | hlast
    · exact haccepted.wanted p (List.mem_filter.mp hother).1
    · rw [List.mem_singleton.mp hlast]
      exact declared_of_groupings hbucket hfact
  obtain ⟨pages, hpages, hlist, _⟩ := exists_selection hbucket hids htimes hrows hfiltered
  refine ⟨pages, hpages, ?_⟩
  rw [hlist, length_selectedList]
  refine List.countP_congr fun d _ ↦ ?_
  rw [decide_eq_true_eq, decide_eq_true_eq]
  exact selected_query_filteredBy

/-- The values a grouping lists, when it lists them. -/
theorem readGroup_values {values : List GroupValue} {read : Read τ ι}
    (h : (readGroup platform rows read fact).values = some values) :
    (planOf read.bucket read.query (read.query.others fact ++ [fact])).kind = .exact ∧
      ∃ names, listedValues platform rows read.bucket fact = some names ∧
        values = names.map (countValue rows
          { read with plan := planOf read.bucket read.query (read.query.others fact ++ [fact]) }
          (read.query.others fact ++ [fact]) fact) := by
  simp only [readGroup, readGroupValues] at h
  split at h
  · rename_i hexact
    obtain ⟨names, hnames, hvalues⟩ := Option.map_eq_some_iff.mp h
    exact ⟨hexact, names, hnames, hvalues.symm⟩
  · cases h

/-- The total of a grouping, when it has one. -/
theorem readGroup_total {total : Count} {read : Read τ ι}
    (h : (readGroup platform rows read fact).total = some total) :
    (planOf read.bucket read.query (read.query.others fact)).kind = .exact ∧
      total = readCount rows ⟨read.bucket, read.query.dropping fact,
        planOf read.bucket read.query (read.query.others fact)⟩ COUNT_CAP := by
  simp only [readGroup, readGroupTotal] at h
  split at h
  · rename_i hexact
    exact ⟨hexact, (Option.some.inj h).symm⟩
  · cases h

omit [LinearOrder τ] [LinearOrder ι] in
/-- The stored values answered are distinct, and those of the groups read. -/
theorem readStoredValues_eq_some {names : List String}
    (h : readStoredValues platform rows fact = some names) :
    names.Nodup ∧ ∀ value, value ∈ names ↔ some value ∈ groupsRead platform rows fact := by
  simp only [readStoredValues] at h
  split at h
  · cases h
  · obtain rfl := Option.some.inj h
    have hgroups : (groupsRead platform rows fact).Nodup :=
      ((platform.groups _).nodup_iff.mpr (List.nodup_dedup _)).sublist (List.take_sublist _ _)
    have hvalues : ((groupsRead platform rows fact).filterMap id).Nodup := by
      refine hgroups.filterMap fun a b value ha hb ↦ ?_
      rw [Option.mem_def, id] at ha hb
      rw [ha, hb]
    refine ⟨(List.mergeSort_perm _ _).nodup_iff.mpr hvalues, fun value ↦ ?_⟩
    rw [List.mem_mergeSort, List.mem_filterMap]
    simp

omit [LinearOrder τ] [LinearOrder ι] in
/-- How often a value that is listed once is listed. -/
theorem listedOnce_iff {names : List String}
    (h : listedValues platform rows bucket fact = some names) :
    ListedOnce platform rows bucket fact value ↔ names.count value = 1 := by
  unfold listedValues at h
  unfold ListedOnce
  split at h
  · rename_i hclosed
    obtain rfl := Option.some.inj h
    rw [if_pos hclosed]
  · rename_i hopen
    obtain ⟨hnodup, hmem⟩ := readStoredValues_eq_some h
    rw [if_neg hopen, ← hmem, hnodup.count]
    by_cases hvalue : value ∈ names <;> simp [hvalue]

omit [LinearOrder τ] [LinearOrder ι] in
/-- Closed values list every value a row holds, perhaps more than once; stored values are listed
once at most. -/
theorem count_listedValues {names : List String} (hrows : ∀ d ∈ rows, HoldsDeclared bucket d)
    (h : listedValues platform rows bucket fact = some names) :
    (∀ d ∈ rows, ∀ value, d.fact fact = some value → 1 ≤ names.count value) ∨
      ∀ value, names.count value ≤ 1 := by
  unfold listedValues at h
  split at h
  · rename_i hclosed
    obtain rfl := Option.some.inj h
    left
    intro d hd value hvalue
    obtain ⟨v, hv, rfl⟩ := hrows d hd fact hclosed value hvalue
    exact List.one_le_count_iff.mpr (List.mem_map_of_mem hv)
  · right
    exact List.nodup_iff_count_le_one.mp (readStoredValues_eq_some h).1

omit [LinearOrder ι] in
/-- What a row that matches the other filters holds is visible. -/
theorem isVisible_of_selected (hdeclared : HoldsDeclared bucket d)
    (hselected : Selected bucket (query.dropping fact) d) (hvalue : d.fact fact = some value) :
    isVisible bucket query.shown fact value = true := by
  cases hclosed : isClosed bucket fact with
  | false => simp [isVisible, hclosed]
  | true =>
    simp only [isVisible, hclosed, Bool.not_true, Bool.false_or, decide_eq_true_eq]
    obtain ⟨v, hv, rfl⟩ := hdeclared fact hclosed value hvalue
    by_cases hshown : fact ∈ query.shown ∨ hasHidden bucket fact = false
    · rw [fillOf_of_shows hshown]
      exact List.mem_map_of_mem hv
    · have hshown := not_or.mp hshown
      have hasked : fact ∉ (query.dropping fact).asked := by simp [Query.dropping, Query.others]
      rcases hselected.unhidden fact hasked hshown.1 (by simpa using hshown.2) with
        hnone | ⟨v', hv', hvis, hvalue'⟩
      · cases hvalue.symm.trans hnone
      · refine mem_fillOf.mpr ⟨v', hv', .inr hvis, ?_⟩
        exact (Option.some.inj (hvalue.symm.trans hvalue')).symm

omit [LinearOrder ι] in
/-- Distinct closed values list every value once. -/
theorem heldListedOnce_of_closed (hrows : ∀ d ∈ rows, HoldsDeclared bucket d)
    (hclosed : isClosed bucket fact = true)
    (hnodup : ((bucket.valuesOf fact).map FactValue.value).Nodup) :
    HeldListedOnce platform rows bucket query fact := by
  intro d hd _ value hvalue
  obtain ⟨v, hv, rfl⟩ := hrows d hd fact hclosed value hvalue
  rw [ListedOnce, if_pos hclosed]
  exact List.count_eq_one_of_mem hnodup (List.mem_map_of_mem hv)

/-- The values of a list that are visible, and no value: what the tiles and the rows without a
value count. -/
def keysCounted (bucket : Bucket) (shown : List String) (fact : String) (names : List String) :
    List (Option String) :=
  (names.filter (isVisible bucket shown fact)).map some ++ [none]

omit [LinearOrder ι] in
/-- A row that matches the other filters is counted as often as its value is listed, and once when
it holds none. -/
theorem count_keysCounted {names : List String} (hdeclared : HoldsDeclared bucket d)
    (hselected : Selected bucket (query.dropping fact) d) :
    (keysCounted bucket query.shown fact names).count (d.fact fact) =
      (d.fact fact).elim 1 names.count := by
  unfold keysCounted
  cases hvalue : d.fact fact with
  | none =>
    have hnone : ((names.filter (isVisible bucket query.shown fact)).map some).count none = 0 :=
      List.count_eq_zero.mpr (by simp)
    simp [hnone]
  | some value =>
    have hvisible := isVisible_of_selected hdeclared hselected hvalue
    rw [List.count_append, List.count_map_of_injective _ _ (Option.some_injective _),
      List.count_filter hvisible]
    simp

omit [LinearOrder ι] in
/-- The counts of the visible values and of the rows without one count each row that matches the
other filters as often as its value is listed. -/
theorem sum_countP_filteredBy {names : List String} :
    ((names.filter (isVisible bucket query.shown fact)).map fun value ↦
        rows.countP fun d ↦ Selected bucket (query.filteredBy fact value) d).sum +
        rows.countP (fun d ↦ Selected bucket (query.dropping fact) d ∧ d.fact fact = none) =
      ((rows.filter fun d ↦ Selected bucket (query.dropping fact) d).map fun d ↦
        (keysCounted bucket query.shown fact names).count (d.fact fact)).sum := by
  have hvalue : ∀ value ∈ names.filter (isVisible bucket query.shown fact),
      (rows.countP fun d ↦ Selected bucket (query.filteredBy fact value) d) =
        rows.countP fun d ↦ decide (Selected bucket (query.dropping fact) d) &&
          decide (d.fact fact = some value) := by
    intro value hmem
    refine List.countP_congr fun d _ ↦ ?_
    simp only [decide_eq_true_eq, Bool.and_eq_true]
    exact selected_filteredBy (List.mem_filter.mp hmem).2
  have hnull : (rows.countP fun d ↦ decide (Selected bucket (query.dropping fact) d ∧
      d.fact fact = none)) = rows.countP fun d ↦
        decide (Selected bucket (query.dropping fact) d) && decide (d.fact fact = none) := by
    refine List.countP_congr fun d _ ↦ ?_
    simp
  rw [List.map_congr_left hvalue, hnull, ← sum_countP_count, keysCounted, List.map_append,
    List.sum_append, List.map_map]
  simp [Function.comp_def]

omit [LinearOrder ι] in
/-- They add up to the number of rows that match the other filters exactly when every value such a
row holds is listed once. -/
theorem countP_dropping_eq_iff {names : List String} (hrows : ∀ d ∈ rows, HoldsDeclared bucket d)
    (h : listedValues platform rows bucket fact = some names) :
    (rows.countP fun d ↦ Selected bucket (query.dropping fact) d) =
        ((rows.filter fun d ↦ Selected bucket (query.dropping fact) d).map fun d ↦
          (keysCounted bucket query.shown fact names).count (d.fact fact)).sum ↔
      HeldListedOnce platform rows bucket query fact := by
  let matching := rows.filter fun d ↦ Selected bucket (query.dropping fact) d
  have hmatching : ∀ d ∈ matching, d ∈ rows ∧ Selected bucket (query.dropping fact) d := by
    intro d hd
    simpa [matching] using hd
  have hcount : (matching.map fun d ↦
      (keysCounted bucket query.shown fact names).count (d.fact fact)) =
      matching.map fun d ↦ (d.fact fact).elim 1 names.count := by
    refine List.map_congr_left fun d hd ↦ ?_
    obtain ⟨hmem, hselected⟩ := hmatching d hd
    exact count_keysCounted (hrows d hmem) hselected
  have hlength : (rows.countP fun d ↦ Selected bucket (query.dropping fact) d) =
      (matching.map fun _ ↦ 1).sum := by
    simp [matching, List.countP_eq_length_filter]
  have honce : HeldListedOnce platform rows bucket query fact ↔
      ∀ d ∈ matching, 1 = (d.fact fact).elim 1 names.count := by
    simp only [HeldListedOnce, listedOnce_iff h, matching, List.mem_filter, decide_eq_true_eq,
      and_imp]
    refine forall₃_congr fun d _ _ ↦ ?_
    cases d.fact fact <;> simp [eq_comm]
  rw [hlength, hcount, honce]
  rcases count_listedValues hrows h with hleast | hmost
  · refine sum_map_eq_iff_of_le fun d hd ↦ ?_
    cases hvalue : d.fact fact with
    | none => exact le_refl _
    | some value => exact hleast d (hmatching d hd).1 value hvalue
  · rw [eq_comm, sum_map_eq_iff_of_le fun d _ ↦ ?_]
    · exact forall₂_congr fun d _ ↦ eq_comm
    · cases d.fact fact with
      | none => exact le_refl _
      | some value => exact hmost value

section
variable {values : List GroupValue} {total : Count}

/-- What a tile counts of a value that is listed. -/
theorem counted_filteredBy (hbucket : defineBucket declared = .ok bucket)
    (hrows : ∀ d ∈ rows, HoldsDeclared bucket d)
    (hvalues : (readGroup platform rows ⟨bucket, query, query.plan⟩ fact).values = some values)
    (huncapped : ∀ v ∈ values, v.counted.capped = false) :
    ∀ v ∈ values, v.counted.count =
      rows.countP fun d ↦ Selected bucket (query.filteredBy fact v.value) d := by
  obtain ⟨hexact, names, _, rfl⟩ := readGroup_values hvalues
  intro v hv
  have hcapped := huncapped v hv
  obtain ⟨value, _, rfl⟩ := List.mem_map.mp hv
  exact @readCount_of_exact _ _ _ _ (query.filteredBy fact value) _ _ _ _ (lead_closed hbucket)
    hrows hexact hcapped

/-- The tiles add up to the total exactly when every value held is listed once. -/
theorem total_eq_sum_iff (hbucket : defineBucket declared = .ok bucket)
    (hrows : ∀ d ∈ rows, HoldsDeclared bucket d)
    (hvalues : (readGroup platform rows ⟨bucket, query, query.plan⟩ fact).values = some values)
    (htotal : (readGroup platform rows ⟨bucket, query, query.plan⟩ fact).total = some total)
    (huncapped : ∀ v ∈ values, v.counted.capped = false) (hcapped : total.capped = false) :
    total.count = ((values.filter fun v ↦ isVisible bucket query.shown fact v.value).map
        fun v ↦ v.counted.count).sum +
      rows.countP (fun d ↦ Selected bucket (query.dropping fact) d ∧ d.fact fact = none) ↔
      HeldListedOnce platform rows bucket query fact := by
  have hcounted := counted_filteredBy hbucket hrows hvalues huncapped
  obtain ⟨_, names, hnames, hlisted⟩ := readGroup_values hvalues
  obtain ⟨hexact, rfl⟩ := readGroup_total htotal
  have hsum : (readCount rows ⟨bucket, query.dropping fact,
      planOf bucket query (query.others fact)⟩ COUNT_CAP).count =
      rows.countP fun d ↦ Selected bucket (query.dropping fact) d :=
    @readCount_of_exact _ _ _ _ (query.dropping fact) _ _ _ _ (lead_closed hbucket) hrows hexact
      hcapped
  have htiles : ((values.filter fun v ↦ isVisible bucket query.shown fact v.value).map
      fun v ↦ v.counted.count).sum =
      ((names.filter (isVisible bucket query.shown fact)).map fun value ↦
        rows.countP fun d ↦ Selected bucket (query.filteredBy fact value) d).sum := by
    rw [List.map_congr_left fun v hv ↦ hcounted v (List.mem_filter.mp hv).1, hlisted,
      List.filter_map, List.map_map]
    rfl
  rw [htiles, hsum, sum_countP_filteredBy]
  exact countP_dropping_eq_iff hrows hnames

end

/-! ### More stored values than are answered -/

/-- Two hex digits. -/
def hexOf (i : Fin 102) : List Char := [(i.val / 16).digitChar, (i.val % 16).digitChar]

theorem hexOf_injective : Function.Injective hexOf := by
  have hdigit : ∀ a b : Fin 16, a.val.digitChar = b.val.digitChar → a = b := by decide
  intro i j hij
  have hheads := List.cons.inj hij
  have hhigh := hdigit ⟨i.val / 16, by omega⟩ ⟨j.val / 16, by omega⟩ hheads.1
  have hlow := hdigit ⟨i.val % 16, by omega⟩ ⟨j.val % 16, by omega⟩ (List.cons.inj hheads.2).1
  simp only [Fin.mk.injEq] at hhigh hlow
  omega

/-- One of 102 ids. -/
def hexId (i : Fin 102) : String :=
  String.ofList (['6', '9', '5', '6', '5', 'f'] ++ List.replicate 16 '0' ++ hexOf i)

theorem hexId_injective : Function.Injective hexId := fun _ _ hij ↦
  hexOf_injective (List.append_cancel_left (String.ofList_injective hij))

/-- A text that only one index gives is read back as the index. -/
theorem find_finRange_of_injective {n : Nat} {text : Fin n → String}
    (htext : Function.Injective text) (i : Fin n) :
    (List.finRange n).find? (fun j ↦ text j = text i) = some i := by
  cases hfind : (List.finRange n).find? (fun j ↦ text j = text i) with
  | none =>
    have hall := List.find?_eq_none.mp hfind i (List.mem_finRange i)
    simp at hall
  | some j =>
    have hj := List.find?_some hfind
    rw [htext (of_decide_eq_true hj)]

/-- Two moments and 102 ids, as a cursor writes them. -/
def grantsCodec : Codec (Fin 2) (Fin 102) where
  toIso := eventsCodec.toIso
  toStoredTime := eventsCodec.toStoredTime
  idText := hexId
  createFromHexString text := (List.finRange 102).find? fun i ↦ hexId i = text
  createFromHexString_idText := find_finRange_of_injective hexId_injective
  idText_ne i h := by
    have hnil := congrArg String.toList h
    rw [hexId, String.toList_ofList] at hnil
    exact absurd (List.append_eq_nil_iff.mp hnil).2 (List.cons_ne_nil _ _)

/-- A grant's code, and of the first event none. -/
def grantCodeOf (i : Fin 102) : Option String :=
  if i = 0 then none else some (String.ofList (['g', 'r', 'a', 'n', 't', '-'] ++ hexOf i))

theorem grantCodeOf_injective : Function.Injective grantCodeOf := by
  intro i j hij
  unfold grantCodeOf at hij
  split at hij <;> split at hij
  · simp_all
  · cases hij
  · cases hij
  · exact hexOf_injective (List.append_cancel_left (String.ofList_injective (Option.some.inj hij)))

/-- An event done with, of the grant with its number. -/
def grantEvent (i : Fin 102) : Document (Fin 2) (Fin 102) where
  id := i
  time := ⟨0, Nat.zero_lt_two⟩
  refs := []
  fact name :=
    if name = "status" then some "DONE" else if name = "grantCode" then grantCodeOf i else none

/-- Events of 101 grants, and one of none. -/
def grantEvents : List (Document (Fin 2) (Fin 102)) := (List.finRange 102).map grantEvent

/-- `$group` answers values as it meets them; texts are sorted by their characters. -/
def firstMet : Platform where
  groupOrder := List.dedup
  groups _ := .refl _
  localeLe a b := a ≤ b

theorem firstMet_groupOrder {values : List (Option String)} (h : values.Nodup) :
    firstMet.groupOrder values = values := h.dedup

/-- All events, with the tiles of a grouping. -/
def tilesOf (fact : String) : Body (Fin 2) where
  wanted := []
  shown := []
  ref := none
  since := none
  until_ := none
  cursor := none
  limit := 20
  groupBy := [fact]
  limit_pos := by decide
  limit_le := by decide

/-- What the request for a tile for each grant is parsed as. -/
def byGrantQuery : Query (Fin 2) (Fin 102) := (tilesOf "grantCode").query eventsBucket none

/-- What the request for a tile for each status is parsed as. -/
def byStatusQuery : Query (Fin 2) (Fin 4) := (tilesOf "status").query eventsBucket none

theorem grantEvents_declared : ∀ d ∈ grantEvents, HoldsDeclared eventsBucket d := by
  intro d hd fact hclosed value hvalue
  obtain ⟨i, _, rfl⟩ := List.mem_map.mp hd
  have hfact : fact ∈ ["status", "type", "grantCode"] := declared_of_isClosed hclosed
  simp only [List.mem_cons, List.not_mem_nil, or_false] at hfact
  rcases hfact with rfl | rfl | rfl
  · exact ⟨⟨"DONE", false⟩, by decide, Option.some.inj hvalue⟩
  · exact absurd hvalue (by simp [grantEvent])
  · exact absurd hclosed (by decide)

/-- The groups answered are those of the first hundred grants, and null. -/
theorem groupsRead_grantEvents : groupsRead firstMet grantEvents "grantCode" =
    ((List.finRange 102).take 101).map grantCodeOf := by
  have hcodes : (grantEvents.map fun d ↦ d.fact "grantCode") =
      (List.finRange 102).map grantCodeOf := by
    rw [grantEvents, List.map_map]
    rfl
  have hnodup := (List.nodup_finRange 102).map grantCodeOf_injective
  rw [groupsRead, hcodes, firstMet_groupOrder hnodup, ← List.map_take, MAX_VALUES]

theorem selected_grantEvent (i : Fin 102) :
    Selected eventsBucket (byGrantQuery.dropping "grantCode") (grantEvent i) where
  asked fact hfact := by
    simp [Query.dropping, Query.others, byGrantQuery, tilesOf, Body.query] at hfact
  unhidden fact _ _ hhidden := by
    have hfact : fact ∈ ["status", "type", "grantCode"] :=
      declared_of_isClosed (isClosed_of_hasHidden hhidden)
    simp only [List.mem_cons, List.not_mem_nil, or_false] at hfact
    rcases hfact with rfl | rfl | rfl
    · exact .inr ⟨⟨"DONE", false⟩, by decide, rfl, rfl⟩
    · exact absurd hhidden (by decide)
    · exact absurd hhidden (by decide)
  ref _ h := nomatch h
  since _ h := nomatch h
  until_ _ h := nomatch h

/-- The last grant's code is not answered. -/
theorem not_heldListedOnce_grantEvents :
    ¬ HeldListedOnce firstMet grantEvents eventsBucket byGrantQuery "grantCode" := by
  intro hall
  have hcode : (grantEvent 101).fact "grantCode" =
      some (String.ofList (['g', 'r', 'a', 'n', 't', '-'] ++ hexOf 101)) := by
    simp [grantEvent, grantCodeOf]
  have hmem := hall (grantEvent 101) (List.mem_map_of_mem (List.mem_finRange _))
    (selected_grantEvent 101) _ hcode
  rw [ListedOnce, if_neg (by decide), groupsRead_grantEvents, List.mem_map] at hmem
  obtain ⟨i, hi, hi101⟩ := hmem
  have heq : i = 101 := grantCodeOf_injective (hi101.trans (by simp [grantCodeOf]))
  rw [heq] at hi
  exact absurd hi (by decide +kernel)

theorem length_grantEvents_le : grantEvents.length ≤ COUNT_CAP := by
  rw [grantEvents, List.length_map, List.length_finRange]
  decide

/-- A hundred values are read, as if they were all. -/
theorem readStoredValues_grantEvents :
    ∃ names, readStoredValues firstMet grantEvents "grantCode" = some names := by
  have hlength : (((groupsRead firstMet grantEvents "grantCode").filterMap id).mergeSort
      firstMet.localeLe).length = MAX_VALUES := by
    rw [List.length_mergeSort, groupsRead_grantEvents, List.filterMap_map,
      List.length_filterMap_eq_countP]
    decide +kernel
  refine ⟨_, if_neg ?_⟩
  rw [hlength]
  exact lt_irrefl _

end

/-- The tiles of a grouping tell what the list shows exactly when every value that a row matching
the other filters holds stands once among the closed values, or among the groups answered. -/
theorem tiles_tell_the_list {τ ι : Type} [LinearOrder τ] [LinearOrder ι] {codec : Codec τ ι}
    {platform : Platform} {rows : List (Document τ ι)} {declared bucket : Bucket} {body : Body τ}
    {query : Query τ ι} {fact : String} {values : List GroupValue} {total : Count}
    (hbucket : defineBucket declared = .ok bucket) (hids : (rows.map Document.id).Nodup)
    (htimes : ∀ d ∈ rows, codec.Canonical d.time) (hrows : ∀ d ∈ rows, HoldsDeclared bucket d)
    (hquery : parseQuery codec bucket body = .ok query) (hfact : fact ∈ query.groupBy)
    (hgroup : readGroup platform rows ⟨bucket, query, query.plan⟩ fact =
      ⟨fact, some values, some total⟩)
    (hvalues : ∀ v ∈ values, v.counted.capped = false) (htotal : total.capped = false) :
    TilesTellTheList codec rows bucket body query fact values total ↔
      HeldListedOnce platform rows bucket query fact := by
  have hlisted := congrArg Group.values hgroup
  have hgrouping : fact ∈ bucket.groupings := by
    obtain ⟨haccepted, _, _, rfl⟩ := parseQuery_eq_ok.mp hquery
    exact haccepted.groupBy fact hfact
  have hpages : ∀ v ∈ values, ∃ pages,
      Follows (pageFrom codec rows bucket (body.filteredBy fact v.value)) BucketPage.following
        none pages ∧ v.counted.count = (pages.flatMap BucketPage.rows).length := by
    intro v hv
    obtain ⟨pages, hfollows, hlength⟩ :=
      exists_filtered_list hbucket hids htimes hrows hquery hgrouping
    have hcounted := counted_filteredBy hbucket hrows hlisted hvalues v hv
    exact ⟨pages, hfollows, hcounted.trans hlength.symm⟩
  rw [TilesTellTheList, and_iff_right hpages]
  exact total_eq_sum_iff hbucket hrows hlisted (congrArg Group.total hgroup) hvalues htotal

/-- The tiles of the statuses tell what the list shows. -/
theorem tiles_tell_the_list_statuses :
    TilesTellTheList eventsCodec events eventsBucket (tilesOf "status") byStatusQuery "status"
      [⟨"DONE", ⟨2, false⟩⟩, ⟨"DEAD", ⟨1, false⟩⟩] ⟨3, false⟩ :=
  (tiles_tell_the_list (rfl : defineBucket eventsBucket = .ok eventsBucket)
    (by decide : (events.map _).Nodup) (by decide : ∀ d ∈ events, eventsCodec.Canonical d.time)
    (by decide) (rfl : parseQuery eventsCodec eventsBucket (tilesOf "status") = .ok byStatusQuery)
    (by decide) (rfl : readGroup firstMet events _ "status" = ⟨"status", some
      [⟨"DONE", ⟨2, false⟩⟩, ⟨"DEAD", ⟨1, false⟩⟩], some ⟨3, false⟩⟩)
    (by decide) rfl).mpr (heldListedOnce_of_closed (by decide) rfl (by decide))

/-- With events of 101 grants and one of none, a hundred grants have tiles that add up to less
than the total. -/
theorem tiles_miss_a_grant :
    defineBucket eventsBucket = .ok eventsBucket ∧ (grantEvents.map Document.id).Nodup ∧
      (∀ d ∈ grantEvents, grantsCodec.Canonical d.time) ∧
      (∀ d ∈ grantEvents, HoldsDeclared eventsBucket d) ∧
      parseQuery grantsCodec eventsBucket (tilesOf "grantCode") = .ok byGrantQuery ∧
      ∃ values total, readGroup firstMet grantEvents
          ⟨eventsBucket, byGrantQuery, byGrantQuery.plan⟩ "grantCode" =
          ⟨"grantCode", some values, some total⟩ ∧
        (∀ v ∈ values, v.counted.capped = false) ∧ total.capped = false ∧
        ¬ TilesTellTheList grantsCodec grantEvents eventsBucket (tilesOf "grantCode")
          byGrantQuery "grantCode" values total := by
  obtain ⟨names, hnames⟩ := readStoredValues_grantEvents
  have hlisted : listedValues firstMet grantEvents eventsBucket "grantCode" = some names := by
    rw [listedValues, if_neg (by decide), hnames]
  have hexact : (planOf eventsBucket byGrantQuery
      (byGrantQuery.others "grantCode" ++ ["grantCode"])).kind = .exact := by decide
  have hexactTotal : (planOf eventsBucket byGrantQuery
      (byGrantQuery.others "grantCode")).kind = .exact := by decide
  have hgroup : ∃ values total, readGroup firstMet grantEvents
      ⟨eventsBucket, byGrantQuery, byGrantQuery.plan⟩ "grantCode" =
        ⟨"grantCode", some values, some total⟩ ∧
      (∀ v ∈ values, v.counted.capped = false) ∧ total.capped = false := by
    simp only [readGroup, readGroupValues, readGroupTotal, hexact, hexactTotal, if_true, hlisted,
      Option.map_some]
    refine ⟨_, _, rfl, fun v hv ↦ ?_, readCount_uncapped length_grantEvents_le⟩
    obtain ⟨value, _, rfl⟩ := List.mem_map.mp hv
    exact readCount_uncapped length_grantEvents_le
  obtain ⟨values, total, hread, hvalues, htotal⟩ := hgroup
  refine ⟨rfl, ?_, ?_, grantEvents_declared, rfl, values, total, hread, hvalues, htotal, ?_⟩
  · have hids : grantEvents.map Document.id = List.finRange 102 := by
      rw [grantEvents, List.map_map]
      exact List.map_id _
    rw [hids]
    exact List.nodup_finRange 102
  · intro d hd
    obtain ⟨i, _, rfl⟩ := List.mem_map.mp hd
    exact (by decide : eventsCodec.Canonical 0)
  · intro htell
    have hanswered := (total_eq_sum_iff (rfl : defineBucket eventsBucket = .ok eventsBucket)
      grantEvents_declared (congrArg Group.values hread) (congrArg Group.total hread) hvalues
      htotal).mp htell.2
    exact not_heldListedOnce_grantEvents hanswered

end FgGas.Buckets
