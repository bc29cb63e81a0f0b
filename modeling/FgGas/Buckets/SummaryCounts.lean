import Mathlib.Data.List.Perm.Subperm
import FgGas.Buckets.Combinations

/-!
# What a summary counts

The entries of a summary are distinct combinations with rows to them. When it reports complete,
every combination of the rows picked out has an entry, and the counts add up to those rows; a
step that is cut short makes it report otherwise.
-/

namespace FgGas.Buckets

open Listing Machine

variable {τ ι : Type}

/-! ### Fills -/

section
variable {read : Read τ ι} {fill : Values}

/-- A way to fill some facts: each with one of its values. -/
structure IsFill (read : Read τ ι) (facts : List String) (fill : Values) : Prop where
  nodup : (fill.map Prod.fst).Nodup
  keys : ∀ fact, fact ∈ fill.map Prod.fst ↔ fact ∈ facts
  values : ∀ p ∈ fill, p.2 ∈ fillValues read p.1

/-- Filling one fact more. -/
theorem IsFill.withFilter {facts : List String} {fact : String} {value : Option String}
    (h : IsFill read facts fill) (hvalue : value ∈ fillValues read fact) :
    IsFill read (facts ++ [fact]) (withFilter fill fact value) where
  nodup := nodup_withFilter h.nodup
  keys name := by
    have hkeys := h.keys name
    simp only [List.mem_map, mem_withFilter, List.mem_append, List.mem_singleton] at hkeys ⊢
    rw [← hkeys]
    constructor
    · rintro ⟨p, ⟨hp, _⟩ | rfl, rfl⟩
      · exact .inl ⟨p, hp, rfl⟩
      · exact .inr rfl
    · rintro (⟨p, hp, rfl⟩ | rfl)
      · by_cases hname : p.1 = fact
        · exact ⟨(fact, value), .inr rfl, hname.symm⟩
        · exact ⟨p, .inl ⟨hp, hname⟩, rfl⟩
      · exact ⟨(name, value), .inr rfl, rfl⟩
  values p hp := by
    rcases mem_withFilter.mp hp with ⟨hold, _⟩ | rfl
    · exact h.values p hold
    · exact hvalue

/-- The fills are the ways to fill all facts of the plan, and cover every row whose values are
filled with. -/
theorem fillsOf_spec : (∀ fill ∈ fillsOf read, IsFill read read.plan.filled fill) ∧
    ∀ d : Document τ ι, (∀ fact ∈ read.plan.filled, d.fact fact ∈ fillValues read fact) →
      ∃ fill ∈ fillsOf read, ∀ p ∈ fill, d.fact p.1 = p.2 := by
  unfold fillsOf
  induction read.plan.filled using List.reverseRecOn with
  | nil =>
    refine ⟨fun fill hfill ↦ ?_, fun _ _ ↦ ⟨[], List.mem_singleton.mpr rfl, by simp⟩⟩
    obtain rfl := List.mem_singleton.mp hfill
    exact ⟨List.nodup_nil, by simp, by simp⟩
  | append_singleton facts fact ih =>
    rw [List.foldl_append]
    refine ⟨fun fill hfill ↦ ?_, fun d hall ↦ ?_⟩
    · obtain ⟨before, hbefore, hmem⟩ := List.mem_flatMap.mp hfill
      obtain ⟨value, hvalue, rfl⟩ := List.mem_map.mp hmem
      exact (ih.1 before hbefore).withFilter hvalue
    · obtain ⟨before, hbefore, hheld⟩ := ih.2 d fun name hname ↦
        hall name (List.mem_append_left _ hname)
      refine ⟨withFilter before fact (d.fact fact), List.mem_flatMap.mpr ⟨before, hbefore,
        List.mem_map_of_mem (hall fact (by simp))⟩, fun p hp ↦ ?_⟩
      rcases mem_withFilter.mp hp with ⟨hold, _⟩ | rfl
      · exact hheld p hold
      · rfl

end

/-! ### The rows picked out -/

/-- The rows a summary picks out: those with the values asked for whose other leading facts hold
a value that is not hidden, any value when shown, or none. -/
structure Picked [LinearOrder τ] (bucket : Bucket) (query : SummaryQuery τ) (d : Document τ ι) :
    Prop where
  among : ∀ p ∈ query.summary.among, d.fact p.1 = some p.2
  lead : ∀ fact ∈ bucket.lead, fact ∉ query.summary.among.map Prod.fst →
    fact ∈ query.shown ∨ HoldsUnhidden bucket fact d
  since : ∀ t ∈ query.since, t ≤ d.time
  until_ : ∀ t ∈ query.until_, d.time ≤ t

instance [LinearOrder τ] (bucket : Bucket) (query : SummaryQuery τ) :
    DecidablePred (Picked bucket query : Document τ ι → Prop) := fun d ↦
  decidable_of_iff ((∀ p ∈ query.summary.among, d.fact p.1 = some p.2) ∧
      (∀ fact ∈ bucket.lead, fact ∉ query.summary.among.map Prod.fst →
        fact ∈ query.shown ∨ HoldsUnhidden bucket fact d) ∧
      (∀ t ∈ query.since, t ≤ d.time) ∧ ∀ t ∈ query.until_, d.time ≤ t)
    ⟨fun ⟨hamong, hlead, hsince, huntil⟩ ↦ ⟨hamong, hlead, hsince, huntil⟩,
      fun h ↦ ⟨h.among, h.lead, h.since, h.until_⟩⟩

section
variable {bucket : Bucket} {d : Document τ ι} {fact : String}

theorem mem_filled {query : SummaryQuery τ} :
    fact ∈ (summaryRead bucket query : Read τ ι).plan.filled ↔
      fact ∈ bucket.lead ∧ fact ∉ query.summary.among.map Prod.fst := by
  simp only [summaryRead, factsOf, summaryLineOf, List.mem_filter, List.mem_append,
    decide_eq_true_eq, not_or]
  tauto

variable [LinearOrder τ] [LinearOrder ι] {query : SummaryQuery τ}

/-- The rows picked out, by the parts of the read. -/
theorem picked_iff (hlead : ∀ fact ∈ bucket.lead, isClosed bucket fact = true)
    (hd : HoldsDeclared bucket d) : Picked bucket query d ↔
      (∀ p ∈ (summaryRead bucket query : Read τ ι).query.wanted, d.fact p.1 = p.2) ∧
      (∀ fact ∈ (summaryRead bucket query : Read τ ι).plan.filled,
        d.fact fact ∈ fillValues (summaryRead bucket query : Read τ ι) fact) ∧
      (rangePart (summaryRead bucket query : Read τ ι)).admits d = true := by
  have hvalues : ∀ fact ∈ bucket.lead,
      (fact ∈ query.shown ∨ HoldsUnhidden bucket fact d ↔
        d.fact fact ∈ fillValues (summaryRead bucket query : Read τ ι) fact) := by
    intro fact hfact
    have hmem : d.fact fact ∈ fillValues (summaryRead bucket query : Read τ ι) fact ↔
        d.fact fact = none ∨ ∃ v ∈ bucket.valuesOf fact,
          (fact ∈ query.shown ∨ v.hidden = false) ∧ d.fact fact = some v.value := by
      have hadmits := @fillOfFact_admits τ ι (summaryRead bucket query) fact (d.fact fact)
      rw [fillOfFact, FactFilter.admits, decide_eq_true_eq] at hadmits
      exact hadmits
    rw [hmem]
    constructor
    · rintro (hshown | hnone | ⟨v, hv, hvis, hvalue⟩)
      · cases hvalue : d.fact fact with
        | none => exact .inl rfl
        | some value =>
          obtain ⟨v, hv, rfl⟩ := hd fact (hlead fact hfact) value hvalue
          exact .inr ⟨v, hv, .inl hshown, rfl⟩
      · exact .inl hnone
      · exact .inr ⟨v, hv, .inr hvis, hvalue⟩
    · rintro (hnone | ⟨v, hv, hshown | hvis, hvalue⟩)
      · exact .inr (.inl hnone)
      · exact .inl hshown
      · exact .inr (.inr ⟨v, hv, hvis, hvalue⟩)
  rw [rangePart_admits]
  constructor
  · rintro ⟨hamong, hleads, hsince, huntil⟩
    refine ⟨fun p hp ↦ ?_, fun fact hfact ↦ ?_, hsince, huntil⟩
    · obtain ⟨q, hq, rfl⟩ := List.mem_map.mp hp
      exact hamong q hq
    · obtain ⟨hfact, hnot⟩ := mem_filled.mp hfact
      exact (hvalues fact hfact).mp (hleads fact hfact hnot)
  · rintro ⟨hwanted, hfilled, hsince, huntil⟩
    refine ⟨fun p hp ↦ ?_, fun fact hfact hnot ↦ ?_, hsince, huntil⟩
    · exact hwanted (p.1, some p.2) (List.mem_map_of_mem hp)
    · exact (hvalues fact hfact).mpr (hfilled fact (mem_filled.mpr ⟨hfact, hnot⟩))

/-- A row is picked out when it is within one of the fills. -/
theorem picked_iff_within (hlead : ∀ fact ∈ bucket.lead, isClosed bucket fact = true)
    (hd : HoldsDeclared bucket d) : Picked bucket query d ↔
      ∃ fill ∈ fillsOf (summaryRead bucket query : Read τ ι),
        Within (summaryRead bucket query) fill d := by
  rw [picked_iff hlead hd]
  constructor
  · rintro ⟨hwanted, hfilled, hrange⟩
    obtain ⟨fill, hfill, hheld⟩ := fillsOf_spec.2 d hfilled
    exact ⟨fill, hfill, hheld, hwanted, hrange⟩
  · rintro ⟨fill, hfill, hheld, hwanted, hrange⟩
    refine ⟨hwanted, fun fact hfact ↦ ?_, hrange⟩
    have hisFill := fillsOf_spec.1 fill hfill
    obtain ⟨p, hp, rfl⟩ := List.mem_map.mp ((hisFill.keys fact).mpr hfact)
    rw [hheld p hp]
    exact hisFill.values p hp

/-! ### What is found -/

variable {platform : Platform} {rows : List (Document τ ι)} {fill values : Values}
  {byFacts : List String}

omit [LinearOrder τ] [LinearOrder ι] in
theorem wanted_nodup : ((summaryRead bucket query : Read τ ι).query.wanted.map Prod.fst).Nodup := by
  have hkeys : (summaryRead bucket query : Read τ ι).query.wanted.map Prod.fst =
      query.summary.among.map Prod.fst := by
    simp [summaryRead, Function.comp_def]
  rw [hkeys]
  exact query.summary.among_nodup

omit [LinearOrder τ] [LinearOrder ι] in
/-- What is filled is not asked for. -/
theorem not_wanted_of_filled (hfill : fill ∈ fillsOf (summaryRead bucket query : Read τ ι))
    (hfact : fact ∈ fill.map Prod.fst) :
    ∀ p ∈ (summaryRead bucket query : Read τ ι).query.wanted, p.1 ≠ fact := by
  rintro p hp rfl
  obtain ⟨q, hq, rfl⟩ := List.mem_map.mp hp
  have hfilled := ((fillsOf_spec.1 fill hfill).keys _).mp hfact
  exact (mem_filled.mp hfilled).2 (List.mem_map_of_mem hq)

/-- Where no row is within, a step from what the fill fixes matches none. -/
theorem matchedValues_fixedBy_eq_nil
    (hfill : fill ∈ fillsOf (summaryRead bucket query : Read τ ι))
    (hnone : rowsWithin rows (summaryRead bucket query) fill = []) :
    matchedValues rows (summaryRead bucket query) fill (fixedBy byFacts fill) fact = [] := by
  -- a row that held what fills and what is asked for would hold what the fill fixes
  let of : String → Option String := fun name ↦
    if name ∈ fill.map Prod.fst then valueOf fill name
    else valueOf (summaryRead bucket query : Read τ ι).query.wanted name
  have hfilled : ∀ p ∈ fill, of p.1 = p.2 := by
    intro p hp
    have hlookup := lookup_of_mem (fillsOf_spec.1 fill hfill).nodup hp
    simp only [of, List.mem_map_of_mem hp, if_true, valueOf, hlookup, Option.getD_some]
  have hwanted : ∀ p ∈ (summaryRead bucket query : Read τ ι).query.wanted, of p.1 = p.2 := by
    intro p hp
    have hnot : p.1 ∉ fill.map Prod.fst := fun hmem ↦ not_wanted_of_filled hfill hmem p hp rfl
    have hlookup := lookup_of_mem wanted_nodup hp
    simp only [of, hnot, if_false, valueOf, hlookup, Option.getD_some]
  have hfixed : ∀ p ∈ fixedBy byFacts fill, p.2 = of p.1 := by
    intro p hp
    obtain ⟨hfact, hvalue⟩ := mem_fromEntries.mp hp
    have hown : p.1 ∈ fill.map Prod.fst := of_decide_eq_true (List.mem_filter.mp hfact).2
    rw [hvalue]
    exact (if_pos hown).symm
  rw [matchedValues, List.map_eq_nil_iff, List.filter_eq_nil_iff]
  intro d hd hpasses
  have hin := ((passes_stepParts hfilled hwanted hfixed).mp hpasses).1
  exact absurd (hnone ▸ mem_rowsWithin.mpr ⟨hd, hin⟩) List.not_mem_nil

/-- Where no row is within, nothing is found once a fact is stepped. -/
theorem combinationsOf_eq_nil (hfill : fill ∈ fillsOf (summaryRead bucket query : Read τ ι))
    (hnone : rowsWithin rows (summaryRead bucket query) fill = []) {facts : List String}
    (hfacts : facts ≠ []) :
    combinationsOf platform rows (summaryRead bucket query) byFacts fill facts = [] := by
  obtain ⟨fact, facts, rfl⟩ := List.exists_cons_of_ne_nil hfacts
  have hgroups : platform.groupOrder [] = [] := List.perm_nil.mp (platform.groups [])
  have hfirst : widenAll platform rows (summaryRead bucket query) fill
      [fixedBy byFacts fill] fact = [] := by
    simp [widenAll, widen, stepValues, matchedValues_fixedBy_eq_nil hfill hnone, hgroups]
  have hrest : ∀ names : List String,
      names.foldl (widenAll platform rows (summaryRead bucket query) fill) [] = [] := by
    intro names
    induction names with
    | nil => rfl
    | cons name names ih => simpa [widenAll] using ih
  rw [combinationsOf, List.foldl_cons, hfirst, hrest]

/-- What is found is of the facts asked about and goes with what is asked for. -/
theorem of_mem_readValuesWithin
    (hfill : fill ∈ fillsOf (summaryRead bucket query : Read τ ι))
    (h : values ∈ readValuesWithin platform rows (summaryRead bucket query) byFacts fill) :
    ∃ of : String → Option String, values = fromEntries byFacts of ∧
      ∀ p ∈ (summaryRead bucket query : Read τ ι).query.wanted, p.1 ∈ byFacts →
        of p.1 = p.2 := by
  by_cases hnone : rowsWithin rows (summaryRead bucket query) fill = []
  · obtain ⟨combination, hcombination, rfl⟩ := List.mem_map.mp h
    refine ⟨_, rfl, fun p hp hby ↦ ?_⟩
    by_cases hstepped : steppedFacts byFacts fill = []
    · have hown : p.1 ∈ fill.map Prod.fst := by
        have hall := List.filter_eq_nil_iff.mp hstepped p.1 hby
        simpa [hasOwn] using hall
      exact absurd rfl (not_wanted_of_filled hfill hown p hp)
    · rw [combinationsOf_eq_nil hfill hnone hstepped] at hcombination
      exact absurd hcombination List.not_mem_nil
  · obtain ⟨a, ha, rfl⟩ := (covers_readValuesWithin hnone).occurs values h
    exact ⟨a.fact, rfl, fun p hp _ ↦ (mem_rowsWithin.mp ha).2.2.1 p hp⟩

/-- What is read is a map by text of what is found. -/
theorem readSummaryValues_spec :
    (readSummaryValues platform rows (summaryRead bucket query) byFacts).Nodup ∧
      ∀ values, values ∈ readSummaryValues platform rows (summaryRead bucket query) byFacts ↔
        ∃ fill ∈ fillsOf (summaryRead bucket query : Read τ ι),
          values ∈ readValuesWithin platform rows (summaryRead bucket query) byFacts fill := by
  have hshape : ∀ values ∈ (fillsOf (summaryRead bucket query : Read τ ι)).flatMap
      (readValuesWithin platform rows (summaryRead bucket query) byFacts),
      values.map Prod.fst = byFacts.eraseDups := by
    intro values hvalues
    obtain ⟨fill, hfill, hmem⟩ := List.mem_flatMap.mp hvalues
    obtain ⟨of, rfl, _⟩ := of_mem_readValuesWithin hfill hmem
    exact map_fst_fromEntries
  have hempty : KeptByText byFacts.eraseDups [] := ⟨List.nodup_nil, by simp⟩
  obtain ⟨hkept, hmem⟩ := hempty.foldl _ hshape
  unfold readSummaryValues
  refine ⟨(List.mergeSort_perm _ _).nodup_iff.mpr hkept.1, fun values ↦ ?_⟩
  rw [List.mem_mergeSort, hmem, List.mem_flatMap]
  simp

/-! ### What is counted -/

/-- A combination is counted over the rows picked out that hold it. -/
theorem passes_narrowedTo {of : String → Option String}
    (hlead : ∀ fact ∈ bucket.lead, isClosed bucket fact = true) (hd : HoldsDeclared bucket d)
    (hof : ∀ p ∈ (summaryRead bucket query : Read τ ι).query.wanted,
      p.1 ∈ query.summary.byFacts → of p.1 = p.2) :
    passes (matchParts (narrowedTo (summaryRead bucket query)
        (fromEntries query.summary.byFacts of))) d = true ↔
      Picked bucket query d ∧
        combinationOf query.summary.byFacts d = fromEntries query.summary.byFacts of := by
  have hvalue : ∀ fact ∈ query.summary.byFacts, (narrowedTo (summaryRead bucket query : Read τ ι)
      (fromEntries query.summary.byFacts of)).query.value fact = of fact := by
    intro fact hfact
    simp [narrowedTo, Query.value, lookup_spread, lookup_fromEntries, hfact]
  have hasked : ∀ p ∈ (summaryRead bucket query : Read τ ι).query.wanted,
      (narrowedTo (summaryRead bucket query : Read τ ι)
        (fromEntries query.summary.byFacts of)).query.value p.1 = p.2 := by
    intro p hp
    by_cases hby : p.1 ∈ query.summary.byFacts
    · rw [hvalue _ hby, hof p hp hby]
    · simp [narrowedTo, Query.value, lookup_spread, lookup_fromEntries, hby,
        lookup_of_mem wanted_nodup hp]
  have hwanted : ∀ fact, fact ∈ query.summary.among.map Prod.fst ↔
      ∃ p ∈ (summaryRead bucket query : Read τ ι).query.wanted, p.1 = fact := by
    simp [summaryRead]
  have hfilled : (filledPart (narrowedTo (summaryRead bucket query)
      (fromEntries query.summary.byFacts of)) [none]).admits d = true ↔
      ∀ fact ∈ (summaryRead bucket query : Read τ ι).plan.filled,
        d.fact fact ∈ fillValues (summaryRead bucket query : Read τ ι) fact := by
    rw [filledPart_admits]
    simp [fillOfFact, FactFilter.admits, fillValues, narrowedTo]
  have hnames : ∀ fact, fact ∈ (narrowedTo (summaryRead bucket query : Read τ ι)
      (fromEntries query.summary.byFacts of)).query.asked ↔
      fact ∈ query.summary.among.map Prod.fst ∨ fact ∈ query.summary.byFacts := by
    intro fact
    simp [narrowedTo, map_fst_fromEntries, summaryRead]
  have hline : ∀ fact, fact ∈ query.summary.among.map Prod.fst ∨ fact ∈ query.summary.byFacts →
      fact ∈ factsOf bucket (.facts (summaryLineOf query.summary bucket.lead)) := by
    intro fact hfact
    simp only [factsOf, summaryLineOf, List.mem_append, List.mem_filter, decide_eq_true_eq]
    tauto
  rw [passes_matchParts, boundPart_admits, hfilled, picked_iff hlead hd, combinationOf,
    fromEntries_inj, refPart_admits]
  constructor
  · rintro ⟨hbound, hfill, -, hrange⟩
    have hheld : ∀ fact, fact ∈ query.summary.among.map Prod.fst ∨
        fact ∈ query.summary.byFacts → d.fact fact = _ := fun fact hfact ↦
      hbound fact (hline fact hfact) ((hnames fact).mpr hfact)
    refine ⟨⟨fun p hp ↦ ?_, hfill, hrange⟩, fun fact hfact ↦ ?_⟩
    · exact (hheld p.1 (.inl ((hwanted p.1).mpr ⟨p, hp, rfl⟩))).trans (hasked p hp)
    · exact (hheld fact (.inr hfact)).trans (hvalue fact hfact)
  · rintro ⟨⟨hheld, hfill, hrange⟩, hcombination⟩
    refine ⟨fun fact _ hfact ↦ ?_, hfill, fun ref href ↦ (by cases href), hrange⟩
    rcases (hnames fact).mp hfact with hamong | hby
    · obtain ⟨p, hp, rfl⟩ := (hwanted fact).mp hamong
      exact (hheld p hp).trans (hasked p hp).symm
    · exact (hcombination fact hby).trans (hvalue fact hby).symm

/-- What an entry counts, up to the cap. -/
theorem counted_readEntry (hlead : ∀ fact ∈ bucket.lead, isClosed bucket fact = true)
    (hrows : ∀ d ∈ rows, HoldsDeclared bucket d)
    (hvalues : values ∈ readSummaryValues platform rows (summaryRead bucket query)
      query.summary.byFacts) :
    countDocuments rows (matchParts (narrowedTo (summaryRead bucket query) values))
        (SUMMARY_COUNT_CAP + 1) =
      min (rows.countP fun d ↦ decide (Picked bucket query d) &&
        decide (combinationOf query.summary.byFacts d = values)) (SUMMARY_COUNT_CAP + 1) := by
  obtain ⟨fill, hfill, hmem⟩ := (readSummaryValues_spec.2 values).mp hvalues
  obtain ⟨of, rfl, hof⟩ := of_mem_readValuesWithin hfill hmem
  rw [countDocuments]
  congr 1
  refine List.countP_congr fun d hd ↦ ?_
  rw [passes_narrowedTo hlead (hrows d hd) hof, Bool.and_eq_true, decide_eq_true_eq,
    decide_eq_true_eq]

/-- An entry of values that is not capped counts the rows of their combination. -/
theorem count_readEntry (hlead : ∀ fact ∈ bucket.lead, isClosed bucket fact = true)
    (hrows : ∀ d ∈ rows, HoldsDeclared bucket d)
    (hvalues : values ∈ readSummaryValues platform rows (summaryRead bucket query)
      query.summary.byFacts)
    (huncapped : (readEntry rows (summaryRead bucket query) values).counted.capped = false) :
    (readEntry rows (summaryRead bucket query) values).counted.count =
      rows.countP fun d ↦ decide (Picked bucket query d) &&
        decide (combinationOf query.summary.byFacts d = values) := by
  have hcounted := counted_readEntry hlead hrows hvalues
  have hfew := of_decide_eq_false huncapped
  have hcount : (readEntry rows (summaryRead bucket query) values).counted.count =
      min (countDocuments rows (matchParts (narrowedTo (summaryRead bucket query) values))
        (SUMMARY_COUNT_CAP + 1)) SUMMARY_COUNT_CAP := rfl
  rw [hcounted] at hcount hfew
  omega

/-- An entry without a count has no rows. -/
theorem count_readEntry_eq_zero (hlead : ∀ fact ∈ bucket.lead, isClosed bucket fact = true)
    (hrows : ∀ d ∈ rows, HoldsDeclared bucket d)
    (hvalues : values ∈ readSummaryValues platform rows (summaryRead bucket query)
      query.summary.byFacts) :
    (readEntry rows (summaryRead bucket query) values).counted.count = 0 ↔
      ∀ d ∈ rows, Picked bucket query d → combinationOf query.summary.byFacts d ≠ values := by
  have hcounted := counted_readEntry hlead hrows hvalues
  have hcount : (readEntry rows (summaryRead bucket query) values).counted.count =
      min (countDocuments rows (matchParts (narrowedTo (summaryRead bucket query) values))
        (SUMMARY_COUNT_CAP + 1)) SUMMARY_COUNT_CAP := rfl
  have hcap : 0 < SUMMARY_COUNT_CAP := by decide
  have hzero : (readEntry rows (summaryRead bucket query) values).counted.count = 0 ↔
      (rows.countP fun d ↦ decide (Picked bucket query d) &&
        decide (combinationOf query.summary.byFacts d = values)) = 0 := by
    rw [hcount, hcounted]
    omega
  rw [hzero, List.countP_eq_zero]
  simp

/-! ### Steps cut short -/

/-- What is found under a fill is among what is read. -/
theorem length_readValuesWithin_le
    (hfill : fill ∈ fillsOf (summaryRead bucket query : Read τ ι))
    (h : rowsWithin rows (summaryRead bucket query) fill ≠ []) :
    (readValuesWithin platform rows (summaryRead bucket query) byFacts fill).length ≤
      (readSummaryValues platform rows (summaryRead bucket query) byFacts).length := by
  have hsubset : readValuesWithin platform rows (summaryRead bucket query) byFacts fill ⊆
      readSummaryValues platform rows (summaryRead bucket query) byFacts :=
    fun values hvalues ↦ (readSummaryValues_spec.2 values).mpr ⟨fill, hfill, hvalues⟩
  exact (List.subperm_of_subset (covers_readValuesWithin h).nodup hsubset).length_le

/-- A summary that reads few enough values has found every combination. -/
theorem combinationOf_mem (hlead : ∀ fact ∈ bucket.lead, isClosed bucket fact = true)
    (hrows : ∀ d ∈ rows, HoldsDeclared bucket d)
    (hfew : (readSummaryValues platform rows (summaryRead bucket query) byFacts).length ≤
      MAX_VALUES) (hd : d ∈ rows) (hpicked : Picked bucket query d) :
    combinationOf byFacts d ∈
      readSummaryValues platform rows (summaryRead bucket query) byFacts := by
  obtain ⟨fill, hfill, hwithin⟩ := (picked_iff_within hlead (hrows d hd)).mp hpicked
  have hmem : d ∈ rowsWithin rows (summaryRead bucket query) fill :=
    mem_rowsWithin.mpr ⟨hd, hwithin⟩
  have hsome := List.ne_nil_of_mem hmem
  refine (readSummaryValues_spec.2 _).mpr ⟨fill, hfill, ?_⟩
  rcases (covers_readValuesWithin hsome).all with hall | hcut
  · exact hall d hmem
  · have hle : (readValuesWithin platform rows (summaryRead bucket query) byFacts fill).length ≤
        (readSummaryValues platform rows (summaryRead bucket query) byFacts).length :=
      length_readValuesWithin_le hfill hsome
    omega

/-- A step that leaves out a value of the rows it matches, under a fill and a combination found
by the facts stepped before. -/
def CutShort (platform : Platform) (rows : List (Document τ ι)) (read : Read τ ι)
    (byFacts : List String) : Prop :=
  ∃ fill ∈ fillsOf read, ∃ facts fact more, steppedFacts byFacts fill = facts ++ fact :: more ∧
    ∃ combination ∈ combinationsOf platform rows read byFacts fill facts,
      MAX_VALUES + 1 < (matchedValues rows read fill combination fact).dedup.length

/-- A summary whose step is cut short reads too many values. -/
theorem lt_length_of_cutShort
    (h : CutShort platform rows (summaryRead bucket query) byFacts) :
    MAX_VALUES < (readSummaryValues platform rows (summaryRead bucket query) byFacts).length := by
  obtain ⟨fill, hfill, facts, fact, more, hstepped, combination, hcombination, hcut⟩ := h
  have hsome : rowsWithin rows (summaryRead bucket query) fill ≠ [] := by
    intro hnone
    by_cases hfacts : facts = []
    · subst hfacts
      obtain rfl := List.mem_singleton.mp hcombination
      rw [matchedValues_fixedBy_eq_nil hfill hnone] at hcut
      exact absurd hcut (by simp)
    · rw [combinationsOf_eq_nil hfill hnone hfacts] at hcombination
      exact absurd hcombination List.not_mem_nil
  have hwide : MAX_VALUES + 1 ≤ (widen platform rows (summaryRead bucket query) fill fact
      combination).length := by
    have hgroups := (platform.groups (matchedValues rows (summaryRead bucket query) fill
      combination fact)).length_eq
    rw [widen, stepValues, List.length_map, List.length_take]
    omega
  have hfound : MAX_VALUES + 1 ≤ (combinationsOf platform rows (summaryRead bucket query) byFacts
      fill (steppedFacts byFacts fill)).length := by
    rw [hstepped]
    exact (covers_fixedBy hsome).limit_le_of_cut (Nat.succ_pos _) seenAfter_refines
      (fun _ _ _ hc ↦ widen_splits hc) hcombination hwide more
  have hlength : (readValuesWithin platform rows (summaryRead bucket query) byFacts fill).length ≤
      (readSummaryValues platform rows (summaryRead bucket query) byFacts).length :=
    length_readValuesWithin_le hfill hsome
  rw [readValuesWithin, List.length_map] at hlength
  omega

/-! ### Entries -/

/-- The entries before the cut, whatever their order. -/
theorem summaryEntries_perm : (summaryEntries platform rows (summaryRead bucket query : Read τ ι)
    byFacts).Perm ((((readSummaryValues platform rows (summaryRead bucket query) byFacts).take
      MAX_VALUES).map (readEntry rows (summaryRead bucket query))).filter
        (0 < ·.counted.count)) :=
  List.mergeSort_perm _ _

theorem mem_summaryEntries {entry : Entry τ} :
    entry ∈ summaryEntries platform rows (summaryRead bucket query : Read τ ι) byFacts ↔
      0 < entry.counted.count ∧ ∃ values ∈
        (readSummaryValues platform rows (summaryRead bucket query) byFacts).take MAX_VALUES,
        readEntry rows (summaryRead bucket query) values = entry := by
  rw [summaryEntries_perm.mem_iff, List.mem_filter, List.mem_map, decide_eq_true_eq, and_comm]

/-- The entries are told apart by their values. -/
theorem summaryEntries_nodup :
    ((summaryEntries platform rows (summaryRead bucket query : Read τ ι) byFacts).map
      Entry.values).Nodup := by
  have hvalues : (((readSummaryValues platform rows (summaryRead bucket query) byFacts).take
      MAX_VALUES).map (readEntry rows (summaryRead bucket query))).map Entry.values =
      (readSummaryValues platform rows (summaryRead bucket query) byFacts).take MAX_VALUES := by
    rw [List.map_map]
    exact List.map_id _
  have htake := readSummaryValues_spec.1.sublist (List.take_sublist MAX_VALUES
    (readSummaryValues platform rows (summaryRead bucket query : Read τ ι) byFacts))
  rw [(summaryEntries_perm.map Entry.values).nodup_iff]
  exact (hvalues ▸ htake).sublist (List.filter_sublist.map _)

/-- A combination that is read and has a row picked out has an entry, if few are read. -/
theorem mem_map_summaryEntries (hlead : ∀ fact ∈ bucket.lead, isClosed bucket fact = true)
    (hrows : ∀ d ∈ rows, HoldsDeclared bucket d)
    (hfew : (readSummaryValues platform rows (summaryRead bucket query)
      query.summary.byFacts).length ≤ MAX_VALUES) (hd : d ∈ rows)
    (hpicked : Picked bucket query d) :
    combinationOf query.summary.byFacts d ∈ (summaryEntries platform rows
      (summaryRead bucket query : Read τ ι) query.summary.byFacts).map Entry.values := by
  have hread := combinationOf_mem hlead hrows hfew hd hpicked
  have hcount : (readEntry rows (summaryRead bucket query)
      (combinationOf query.summary.byFacts d)).counted.count ≠ 0 := fun hzero ↦
    (count_readEntry_eq_zero hlead hrows hread).mp hzero d hd hpicked rfl
  refine List.mem_map.mpr ⟨_, mem_summaryEntries.mpr ⟨Nat.pos_of_ne_zero hcount, _, ?_, rfl⟩, rfl⟩
  rwa [List.take_of_length_le hfew]

/-- Counts that are not capped add up to the rows picked out, if few combinations are read. -/
theorem sum_summaryEntries (hlead : ∀ fact ∈ bucket.lead, isClosed bucket fact = true)
    (hrows : ∀ d ∈ rows, HoldsDeclared bucket d)
    (hfew : (readSummaryValues platform rows (summaryRead bucket query)
      query.summary.byFacts).length ≤ MAX_VALUES)
    (huncapped : ∀ entry ∈ summaryEntries platform rows (summaryRead bucket query : Read τ ι)
      query.summary.byFacts, entry.counted.capped = false) :
    ((summaryEntries platform rows (summaryRead bucket query : Read τ ι)
      query.summary.byFacts).map fun entry ↦ entry.counted.count).sum =
      rows.countP fun d ↦ Picked bucket query d := by
  let values := readSummaryValues platform rows (summaryRead bucket query : Read τ ι)
    query.summary.byFacts
  have hnodup : values.Nodup := readSummaryValues_spec.1
  have hcount : ∀ v ∈ values, (readEntry rows (summaryRead bucket query) v).counted.count =
      rows.countP fun d ↦ decide (Picked bucket query d) &&
        decide (combinationOf query.summary.byFacts d = v) := by
    intro v hv
    by_cases hzero : (readEntry rows (summaryRead bucket query) v).counted.count = 0
    · have hnone := (count_readEntry_eq_zero hlead hrows hv).mp hzero
      rw [hzero, eq_comm, List.countP_eq_zero]
      simpa using hnone
    · refine count_readEntry hlead hrows hv (huncapped _ (mem_summaryEntries.mpr
        ⟨Nat.pos_of_ne_zero hzero, v, ?_, rfl⟩))
      rwa [List.take_of_length_le hfew]
  have hperm : (summaryEntries platform rows (summaryRead bucket query : Read τ ι)
      query.summary.byFacts).Perm (((values.take MAX_VALUES).map
        (readEntry rows (summaryRead bucket query))).filter (0 < ·.counted.count)) :=
    summaryEntries_perm
  have hpicked : (rows.countP fun d ↦ decide (Picked bucket query d) &&
      decide (combinationOf query.summary.byFacts d ∈ values)) =
      rows.countP fun d ↦ Picked bucket query d := by
    refine countP_and_eq_iff.mpr fun d hd hp ↦ ?_
    exact decide_eq_true (combinationOf_mem hlead hrows hfew hd (of_decide_eq_true hp))
  rw [(hperm.map _).sum_nat, List.take_of_length_le hfew,
    sum_map_filter_pos fun entry : Entry τ ↦ entry.counted.count, List.map_map,
    ← hpicked, ← sum_countP_key _ _ hnodup]
  exact congrArg List.sum (List.map_congr_left hcount)

/-- A summary answers the first of its entries and whether there are more. The entries are distinct
combinations of rows picked out, with positive counts. When it reports complete, every such
combination has an entry, and counts that are not capped add up to the rows; it does not report
complete when a step is cut short. -/
theorem summary_counts_every_combination {declared : Bucket}
    (hbucket : defineBucket declared = .ok bucket)
    (hrows : ∀ d ∈ rows, HoldsDeclared bucket d) :
    let read := summaryRead bucket query
    let entries := summaryEntries platform rows read query.summary.byFacts
    let report := runSummary platform rows bucket query
    (report.entries = entries.take query.summary.top ∧
        (report.more = true ↔ query.summary.top < entries.length)) ∧
      ((entries.map Entry.values).Nodup ∧ ∀ entry ∈ entries, 0 < entry.counted.count ∧
        ∃ d ∈ rows, Picked bucket query d ∧
          entry.values = combinationOf query.summary.byFacts d) ∧
      (report.complete = true →
        (∀ d ∈ rows, Picked bucket query d →
          combinationOf query.summary.byFacts d ∈ entries.map Entry.values) ∧
        ((∀ entry ∈ entries, entry.counted.capped = false) →
          (entries.map fun entry ↦ entry.counted.count).sum =
            rows.countP fun d ↦ Picked bucket query d)) ∧
      (CutShort platform rows read query.summary.byFacts → report.complete = false) := by
  have hlead := lead_closed hbucket
  refine ⟨⟨rfl, decide_eq_true_iff⟩, ⟨summaryEntries_nodup, fun entry hentry ↦ ?_⟩,
    fun hcomplete ↦ ?_, fun hcut ↦ ?_⟩
  · obtain ⟨hpos, values, hvalues, rfl⟩ := mem_summaryEntries.mp hentry
    refine ⟨hpos, ?_⟩
    by_contra hnone
    refine hpos.ne' ((count_readEntry_eq_zero hlead hrows (List.mem_of_mem_take hvalues)).mpr ?_)
    exact fun d hd hpicked heq ↦ hnone ⟨d, hd, hpicked, heq.symm⟩
  · have hfew := of_decide_eq_true hcomplete
    exact ⟨fun d hd hpicked ↦ mem_map_summaryEntries hlead hrows hfew hd hpicked,
      fun huncapped ↦ sum_summaryEntries hlead hrows hfew huncapped⟩
  · exact decide_eq_false (Nat.not_le.mpr (lt_length_of_cutShort hcut))

end

/-! ### A summary of events -/

/-- How many events there are of each type. -/
def byType : Summary := ⟨"types", ["type"], [], 10, by decide⟩

/-- The bucket of events, led by its status, with a summary. -/
def summedBucket : Bucket :=
  { eventsBucket with
    facts := eventsBucket.facts.take 2
    lead := ["status"]
    indexes := [["type"]]
    groupings := []
    summaries := [byType] }

/-- The summary of all events not given up. -/
def byTypeQuery : SummaryQuery (Fin 2) := ⟨byType, [], none, none⟩

/-- The types of three events are counted, and of the hidden one not. -/
theorem summary_counts_every_combination_byType :
    ((summaryEntries firstMet events (summaryRead summedBucket byTypeQuery) ["type"]).map
      fun entry ↦ entry.counted.count).sum = 3 := by
  have hcomplete : (runSummary firstMet events summedBucket byTypeQuery).complete = true := by
    refine decide_eq_true ?_
    rw [readSummaryValues, List.length_mergeSort]
    decide +kernel
  have huncapped : ∀ entry ∈ summaryEntries firstMet events
      (summaryRead summedBucket byTypeQuery) ["type"], entry.counted.capped = false := by
    intro entry hentry
    obtain ⟨_, values, _, rfl⟩ := mem_summaryEntries.mp hentry
    exact readCount_uncapped (by decide)
  exact ((summary_counts_every_combination
    (rfl : defineBucket summedBucket = .ok summedBucket) (by decide)).2.2.1 hcomplete).2 huncapped

end FgGas.Buckets
