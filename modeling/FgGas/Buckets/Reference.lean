import FgGas.Buckets.Define
import FgGas.Buckets.Engine

/-!
# What a query asks for

`Selected` says which rows a query asks for, without a plan: asked facts hold what is asked,
facts that hide values and are neither asked nor shown hold none of the hidden ones, and the
ref and the range are met. On rows whose closed facts hold declared values or nothing, every
plan on a line that can be filled splits the same condition (`passes_iff_selected`).
-/

namespace FgGas.Buckets

variable {τ ι : Type}

/-- A row whose closed facts hold declared values or nothing. -/
def HoldsDeclared (bucket : Bucket) (d : Document τ ι) : Prop :=
  ∀ fact, isClosed bucket fact = true → ∀ value, d.fact fact = some value →
    ∃ v ∈ bucket.valuesOf fact, v.value = value

instance (bucket : Bucket) (d : Document τ ι) : Decidable (HoldsDeclared bucket d) :=
  decidable_of_iff (∀ fact ∈ bucket.facts.map Prod.fst, isClosed bucket fact = true →
      ∀ value ∈ d.fact fact, ∃ v ∈ bucket.valuesOf fact, v.value = value)
    ⟨fun h fact hclosed ↦ h fact (declared_of_isClosed hclosed) hclosed,
      fun h fact _ ↦ h fact⟩

/-- A row holds a value of the fact that is not hidden, or nothing. -/
def HoldsUnhidden (bucket : Bucket) (fact : String) (d : Document τ ι) : Prop :=
  d.fact fact = none ∨
    ∃ v ∈ bucket.valuesOf fact, v.hidden = false ∧ d.fact fact = some v.value

/-- The rows a query asks for. -/
structure Selected [LinearOrder τ] (bucket : Bucket) (query : Query τ ι) (d : Document τ ι) :
    Prop where
  asked : ∀ fact ∈ query.asked, d.fact fact = query.value fact
  unhidden : ∀ fact, fact ∉ query.asked → fact ∉ query.shown → hasHidden bucket fact = true →
    HoldsUnhidden bucket fact d
  ref : ∀ ref ∈ query.ref, ref ∈ d.refs
  since : ∀ t ∈ query.since, t ≤ d.time
  until_ : ∀ t ∈ query.until_, d.time ≤ t

/-- Queries that ask for the same select the same rows. -/
theorem Selected.congr [LinearOrder τ] {bucket : Bucket} {query query' : Query τ ι}
    {d : Document τ ι} (hasked : query.asked = query'.asked)
    (hwanted : query.wanted = query'.wanted) (hshown : query.shown = query'.shown)
    (href : query.ref = query'.ref) (hsince : query.since = query'.since)
    (huntil : query.until_ = query'.until_) :
    Selected bucket query d ↔ Selected bucket query' d := by
  have hvalue : ∀ fact, query.value fact = query'.value fact := fun fact ↦ by
    rw [Query.value, Query.value, hwanted]
  constructor
  · rintro ⟨ha, hu, hr, hs, ht⟩
    rw [hasked] at ha hu
    exact ⟨fun fact h ↦ (ha fact h).trans (hvalue fact), hshown ▸ hu, href ▸ hr, hsince ▸ hs,
      huntil ▸ ht⟩
  · rintro ⟨ha, hu, hr, hs, ht⟩
    rw [← hasked] at ha hu
    exact ⟨fun fact h ↦ (ha fact h).trans (hvalue fact).symm, hshown ▸ hu, href ▸ hr,
      hsince ▸ hs, huntil ▸ ht⟩

instance (bucket : Bucket) (fact : String) (d : Document τ ι) :
    Decidable (HoldsUnhidden bucket fact d) :=
  inferInstanceAs (Decidable (_ ∨ _))

instance [LinearOrder τ] (bucket : Bucket) (query : Query τ ι) (d : Document τ ι) :
    Decidable (Selected bucket query d) :=
  decidable_of_iff ((∀ fact ∈ query.asked, d.fact fact = query.value fact) ∧
      (∀ fact ∈ bucket.facts.map Prod.fst, fact ∉ query.asked → fact ∉ query.shown →
        hasHidden bucket fact = true → HoldsUnhidden bucket fact d) ∧
      (∀ ref ∈ query.ref, ref ∈ d.refs) ∧ (∀ t ∈ query.since, t ≤ d.time) ∧
      ∀ t ∈ query.until_, d.time ≤ t)
    ⟨fun ⟨hasked, hunhidden, href, hsince, huntil⟩ ↦ ⟨hasked, fun fact ha hs hhidden ↦
        hunhidden fact (declared_of_isClosed (isClosed_of_hasHidden hhidden)) ha hs hhidden,
        href, hsince, huntil⟩,
      fun h ↦ ⟨h.asked, fun fact _ ↦ h.unhidden fact, h.ref, h.since, h.until_⟩⟩

/-- The filter of a query, without its cursor. -/
def selectParts (read : Read τ ι) : List (Part τ ι) := matchParts read ++ [residualPart read]

/-! ### The parts of a filter -/

/-- The values a fact is filled with, and nothing. -/
theorem fillOfFact_admits {read : Read τ ι} {fact : String} {value : Option String} :
    (fillOfFact read fact [none]).admits value = true ↔
      value = none ∨ ∃ v ∈ read.bucket.valuesOf fact,
        (fact ∈ read.query.shown ∨ v.hidden = false) ∧ value = some v.value := by
  simp only [fillOfFact, FactFilter.admits, decide_eq_true_eq, List.mem_append, List.mem_map,
    List.mem_singleton, mem_fillOf]
  constructor
  · rintro (⟨text, ⟨v, hv, hshows, rfl⟩, rfl⟩ | hnone)
    · exact .inr ⟨v, hv, hshows, rfl⟩
    · exact .inl hnone
  · rintro (hnone | ⟨v, hv, hshows, rfl⟩)
    · exact .inr hnone
    · exact .inl ⟨v.value, ⟨v, hv, hshows, rfl⟩, rfl⟩

section
variable [LinearOrder τ] [LinearOrder ι] {read : Read τ ι} {d : Document τ ι}

theorem boundPart_admits : (boundPart read).admits d = true ↔
    ∀ fact ∈ factsOf read.bucket read.plan.line, fact ∈ read.query.asked →
      d.fact fact = read.query.value fact := by
  simp [boundPart, boundFacts, Part.admits, FactFilter.admits, imp_iff_not_or]

theorem filledPart_admits {unset : List (Option String)} :
    (filledPart read unset).admits d = true ↔
      ∀ fact ∈ read.plan.filled, (fillOfFact read fact unset).admits (d.fact fact) = true := by
  simp [filledPart, Part.admits]

theorem residualPart_admits : (residualPart read).admits d = true ↔
    ∀ fact ∈ read.plan.residual, (residualOf read fact).admits (d.fact fact) = true := by
  simp [residualPart, Part.admits]

theorem refPart_admits : (refPart read).admits d = true ↔
    ∀ ref ∈ read.query.ref, ref ∈ d.refs := by
  cases h : read.query.ref <;> simp [refPart, Part.admits, h]

theorem rangePart_admits : (rangePart read).admits d = true ↔
    (∀ t ∈ read.query.since, t ≤ d.time) ∧ ∀ t ∈ read.query.until_, d.time ≤ t := by
  cases hs : read.query.since <;> cases hu : read.query.until_ <;>
    simp [rangePart, Part.admits, Comparison.holds, hs, hu]

/-- What a read without residual facts counts and lists. -/
theorem passes_matchParts : passes (matchParts read) d = true ↔
    (boundPart read).admits d = true ∧ (filledPart read [none]).admits d = true ∧
      (refPart read).admits d = true ∧ (rangePart read).admits d = true := by
  simp [passes, matchParts]

/-- What a read lists. -/
theorem passes_selectParts_iff : passes (selectParts read) d = true ↔
    passes (matchParts read) d = true ∧ (residualPart read).admits d = true := by
  simp [passes, selectParts]

/-- Every line whose unasked facts are closed gives a plan that selects what is asked for. -/
theorem passes_iff_selected {line : Line} (hplan : read.plan = planFor read.bucket line
      read.query.asked (neededFacts read.bucket read.query.asked read.query.shown))
    (hfillable : Fillable read.bucket read.query.asked line) (hd : HoldsDeclared read.bucket d) :
    passes (selectParts read) d = true ↔ Selected read.bucket read.query d := by
  rw [passes_selectParts_iff, passes_matchParts, boundPart_admits, filledPart_admits,
    refPart_admits, rangePart_admits, residualPart_admits, hplan]
  have hfilled : ∀ fact, fact ∈ without (factsOf read.bucket line) read.query.asked ↔
      fact ∈ factsOf read.bucket line ∧ fact ∉ read.query.asked := fun fact ↦ mem_without
  have hresidual : ∀ fact, fact ∈ without
        (neededFacts read.bucket read.query.asked read.query.shown)
        (factsOf read.bucket line) ↔
      (fact ∈ read.query.asked ∨
          fact ∈ narrowing read.bucket read.query.asked read.query.shown) ∧
        fact ∉ factsOf read.bucket line := by
    intro fact
    rw [mem_without, neededFacts, List.mem_append]
  constructor
  · rintro ⟨⟨hbound, hfill, href, hsince, huntil⟩, hrest⟩
    refine ⟨fun fact hasked ↦ ?_, fun fact hasked hshown hhidden ↦ ?_, href, hsince, huntil⟩
    · by_cases hline : fact ∈ factsOf read.bucket line
      · exact hbound fact hline hasked
      · have hadmits := hrest fact ((hresidual fact).mpr ⟨.inl hasked, hline⟩)
        have hof : residualOf read fact = .is (read.query.value fact) := if_pos hasked
        rw [hof] at hadmits
        simpa [FactFilter.admits] using hadmits
    · have hadmits : (fillOfFact read fact [none]).admits (d.fact fact) = true := by
        by_cases hline : fact ∈ factsOf read.bucket line
        · exact hfill fact ((hfilled fact).mpr ⟨hline, hasked⟩)
        · have hnarrow : fact ∈ narrowing read.bucket read.query.asked read.query.shown :=
            mem_narrowing.mpr ⟨hasked, hshown, hhidden⟩
          have hof : residualOf read fact = fillOfFact read fact [none] := if_neg hasked
          have hadmits := hrest fact ((hresidual fact).mpr ⟨.inr hnarrow, hline⟩)
          rwa [hof] at hadmits
      rcases fillOfFact_admits.mp hadmits with hnone | ⟨v, hv, hshows, hvalue⟩
      · exact .inl hnone
      · exact .inr ⟨v, hv, hshows.resolve_left hshown, hvalue⟩
  · intro hselected
    -- what stays of an unasked closed fact is one of the values it is filled with, or nothing
    have hfill : ∀ fact, fact ∉ read.query.asked → isClosed read.bucket fact = true →
        (fillOfFact read fact [none]).admits (d.fact fact) = true := by
      intro fact hasked hclosed
      rw [fillOfFact_admits]
      by_cases hhides : fact ∉ read.query.shown ∧ hasHidden read.bucket fact = true
      · rcases hselected.unhidden fact hasked hhides.1 hhides.2 with hnone | ⟨v, hv, hvis, hvalue⟩
        · exact .inl hnone
        · exact .inr ⟨v, hv, .inr hvis, hvalue⟩
      · cases hvalue : d.fact fact with
        | none => exact .inl rfl
        | some value =>
          obtain ⟨v, hv, rfl⟩ := hd fact hclosed value hvalue
          refine .inr ⟨v, hv, ?_, rfl⟩
          by_cases hshown : fact ∈ read.query.shown
          · exact .inl hshown
          · have hnone : hasHidden read.bucket fact = false := by
              simpa [hshown] using hhides
            exact .inr (by simpa using List.any_eq_false.mp hnone v hv)
    refine ⟨⟨fun fact _ hasked ↦ hselected.asked fact hasked, fun fact hfact ↦ ?_,
      hselected.ref, hselected.since, hselected.until_⟩, fun fact hfact ↦ ?_⟩
    · obtain ⟨hline, hasked⟩ := (hfilled fact).mp hfact
      exact hfill fact hasked (hfillable fact (mem_without.mpr ⟨hline, hasked⟩))
    · obtain ⟨hneeded, _⟩ := (hresidual fact).mp hfact
      by_cases hasked : fact ∈ read.query.asked
      · have hof : residualOf read fact = .is (read.query.value fact) := if_pos hasked
        rw [hof]
        simpa [FactFilter.admits] using hselected.asked fact hasked
      · have hof : residualOf read fact = fillOfFact read fact [none] := if_neg hasked
        have hnarrow := mem_narrowing.mp (hneeded.resolve_left hasked)
        rw [hof]
        exact hfill fact hasked (isClosed_of_hasHidden hnarrow.2.2)

end

end FgGas.Buckets
