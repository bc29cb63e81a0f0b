import FgGas.Buckets.Define
import FgGas.Buckets.Paging
import Mathlib.Algebra.Order.BigOperators.Group.List
import Mathlib.Data.Finset.Card
import Mathlib.Data.Finset.Dedup
import Mathlib.Data.List.MinMax
import Mathlib.Data.Prod.Lex

/-!
# The line chosen

The rules of `defineBucket` make the empty line and the refs fillable for every request, so the
choice of `choosePlan` starts from a line that a read may run on, and keeps the best of those that
follow. Lines are compared by their places that hold a needed fact and then by their scans, so the
line chosen binds the most needed facts unless it repeats one.
-/

namespace FgGas.Buckets

section
variable {bucket : Bucket} {asked shown needed : List String}

/-- The scans of some facts: one for each combination of their values and null. -/
def scansOver (bucket : Bucket) (shown facts : List String) : Nat :=
  (facts.map fun fact ↦ (fillOf bucket fact shown).length + 1).prod

theorem scansOf_eq (line : Line) :
    scansOf bucket line asked shown =
      scansOver bucket shown (without (factsOf bucket line) asked) := by
  rw [scansOf, scansOver, List.prod_eq_foldl, List.foldl_map]

/-- A fact that is shown stands for the most values. -/
theorem length_fillOf_le (shown : List String) {all : List String} {fact : String}
    (h : fact ∈ all) :
    (fillOf bucket fact shown).length ≤ (fillOf bucket fact all).length := by
  rw [fillOf_of_shows (.inl h), List.length_map, fillOf, List.length_map]
  exact List.length_filter_le _ _

theorem scansOver_mono (shown : List String) {all facts : List String}
    (h : ∀ fact ∈ facts, fact ∈ all) :
    scansOver bucket shown facts ≤ scansOver bucket all facts := by
  apply List.prod_le_prod'
  intro fact hfact
  exact Nat.succ_le_succ (length_fillOf_le shown (h fact hfact))

theorem scansOver_sublist {facts more : List String} (h : List.Sublist facts more) :
    scansOver bucket shown facts ≤ scansOver bucket shown more := by
  apply (h.map _).prod_le_prod'
  intro scans hscans
  obtain ⟨fact, _, rfl⟩ := List.mem_map.mp hscans
  exact Nat.succ_pos _

/-- A request never scans more of the lead than all its values. -/
theorem scansOf_lead_le {line : Line} (hfacts : factsOf bucket line = bucket.lead)
    (asked shown : List String) :
    scansOf bucket line asked shown ≤ scansOf bucket (.facts []) [] bucket.lead := by
  have hlead : without (factsOf bucket (.facts [])) [] = bucket.lead := by
    simp [without, factsOf]
  rw [scansOf_eq, scansOf_eq, hfacts, hlead]
  calc scansOver bucket shown (without bucket.lead asked)
      ≤ scansOver bucket bucket.lead (without bucket.lead asked) :=
        scansOver_mono shown fun fact hfact ↦ (mem_without.mp hfact).1
    _ ≤ scansOver bucket bucket.lead bucket.lead := scansOver_sublist List.filter_sublist

/-- The lead of a bucket that is defined can be scanned. -/
theorem lead_scans {declared bucket : Bucket} (h : defineBucket declared = .ok bucket) :
    scansOf bucket (.facts []) [] bucket.lead ≤ MAX_SCANS := by
  have hrule := (defineBucket_eq_ok.mp h).2
    (fun b ↦ MAX_SCANS < scansOf b (.facts []) [] b.lead, _)
    (List.mem_of_getElem? (i := 8) rfl)
  simpa using hrule

/-- A line that holds the lead alone is usable whatever is asked and shown. -/
theorem isUsable_lead {declared bucket : Bucket} (h : defineBucket declared = .ok bucket)
    {line : Line} (hfacts : factsOf bucket line = bucket.lead) (asked shown : List String) :
    isUsable bucket asked shown line = true := by
  rw [isUsable, Bool.and_eq_true, List.all_eq_true, decide_eq_true_eq]
  constructor
  · intro fact hfact
    rw [hfacts, mem_without] at hfact
    exact lead_closed h fact hfact.1
  · exact (scansOf_lead_le hfacts asked shown).trans (lead_scans h)

/-! ### The order of lines -/

/-- What lines are compared by: the places that hold a needed fact, the more the better, and then
the scans, the fewer the better. -/
def rank (bucket : Bucket) (asked shown needed : List String) (line : Line) : ℕ ×ₗ ℕᵒᵈ :=
  toLex (boundBy bucket line needed, OrderDual.toDual (scansOf bucket line asked shown))

theorem rank_lt {chosen line : Line} :
    rank bucket asked shown needed chosen < rank bucket asked shown needed line ↔
      boundBy bucket chosen needed < boundBy bucket line needed ∨
        boundBy bucket line needed = boundBy bucket chosen needed ∧
          scansOf bucket line asked shown < scansOf bucket chosen asked shown := by
  rw [rank, rank, Prod.Lex.toLex_lt_toLex, eq_comm, OrderDual.toDual_lt_toDual]

/-- The lines a read without a ref may run on: the time-only line first, and then as declared the
index lines whose unasked facts can be filled. -/
def usableLines (bucket : Bucket) (asked shown : List String) : List Line :=
  .facts [] :: (bucket.indexes.map Line.facts).filter (isUsable bucket asked shown)

/-- The fold of `bestLine` is the first line of the highest rank. -/
theorem bestLine_mem_argmax : bestLine bucket asked shown needed ∈
    List.argmax (rank bucket asked shown needed) (usableLines bucket asked shown) := by
  rw [Option.mem_def, usableLines, List.argmax, List.foldl_cons]
  apply List.foldl_hom some
  intro chosen line
  unfold better
  simp only [List.argAux, rank_lt, apply_ite some]

/-- Every line a read without a ref may run on is usable, the time-only line by the rules. -/
theorem isUsable_of_mem {declared bucket : Bucket} (h : defineBucket declared = .ok bucket)
    {asked shown : List String} {line : Line} (hline : line ∈ usableLines bucket asked shown) :
    isUsable bucket asked shown line = true := by
  rcases List.mem_cons.mp hline with rfl | hline
  · exact isUsable_lead h (by simp [factsOf]) asked shown
  · exact (List.mem_filter.mp hline).2

/-! ### Facts and places

`boundBy` counts the places of an index key that hold a needed fact. A line may name a fact that
leads the bucket, or one fact twice, and then has more such places than needed facts. -/

/-- The needed facts a line binds, each counted once. -/
def factsBound (bucket : Bucket) (line : Line) (needed : List String) : Nat :=
  ((factsOf bucket line).toFinset ∩ needed.toFinset).card

/-- A line, with the lead before it, holds each needed fact at one place at most. -/
def HoldsOnce (bucket : Bucket) (needed : List String) (line : Line) : Prop :=
  ((factsOf bucket line).filter (· ∈ needed)).Nodup

theorem toFinset_bound (line : Line) :
    ((factsOf bucket line).filter (· ∈ needed)).toFinset =
      (factsOf bucket line).toFinset ∩ needed.toFinset := by
  ext fact
  simp

theorem factsBound_le (line : Line) :
    factsBound bucket line needed ≤ boundBy bucket line needed := by
  rw [factsBound, ← toFinset_bound]
  exact List.toFinset_card_le _

theorem factsBound_eq {line : Line} (h : HoldsOnce bucket needed line) :
    factsBound bucket line needed = boundBy bucket line needed := by
  rw [factsBound, ← toFinset_bound]
  exact List.toFinset_card_of_nodup h

/-- No line a read may run on binds more needed facts, nor as many with fewer scans. -/
def BindsMost (bucket : Bucket) (asked shown : List String) (line : Line) : Prop :=
  ∀ other ∈ usableLines bucket asked shown,
    factsBound bucket other (neededFacts bucket asked shown) ≤
        factsBound bucket line (neededFacts bucket asked shown) ∧
      (factsBound bucket other (neededFacts bucket asked shown) =
          factsBound bucket line (neededFacts bucket asked shown) →
        scansOf bucket line asked shown ≤ scansOf bucket other asked shown)

/-- A line has the most places that hold a needed fact, then the fewest scans, and then is declared
first. -/
def HoldsMostPlaces (bucket : Bucket) (asked shown : List String) (line : Line) : Prop :=
  line ∈ usableLines bucket asked shown ∧
    (∀ other ∈ usableLines bucket asked shown,
      rank bucket asked shown (neededFacts bucket asked shown) other ≤
        rank bucket asked shown (neededFacts bucket asked shown) line) ∧
    ∀ other ∈ usableLines bucket asked shown,
      rank bucket asked shown (neededFacts bucket asked shown) line ≤
        rank bucket asked shown (neededFacts bucket asked shown) other →
      (usableLines bucket asked shown).idxOf line ≤ (usableLines bucket asked shown).idxOf other

theorem holdsMostPlaces_iff {line : Line} : HoldsMostPlaces bucket asked shown line ↔
    line = bestLine bucket asked shown (neededFacts bucket asked shown) := by
  have hbest := @bestLine_mem_argmax bucket asked shown (neededFacts bucket asked shown)
  constructor
  · intro h
    exact Option.mem_unique (List.mem_argmax_iff.mpr h) hbest
  · rintro rfl
    exact List.mem_argmax_iff.mp hbest

/-- Of the lines with the most places, one that repeats no needed fact binds the most facts. -/
theorem bindsMost_of_holdsOnce {line : Line} (h : HoldsMostPlaces bucket asked shown line)
    (honce : HoldsOnce bucket (neededFacts bucket asked shown) line) :
    BindsMost bucket asked shown line := by
  intro other hother
  have hle : factsBound bucket other (neededFacts bucket asked shown) ≤ _ := factsBound_le other
  have hrank := not_lt.mpr (h.2.1 other hother)
  rw [rank_lt] at hrank
  rw [factsBound_eq honce]
  omega

end

/-- What a plan must be for a read to run on it: its unasked facts are closed, its scans are few
enough, and every needed fact is bound by its line or tested beside it. -/
structure RunnablePlan (bucket : Bucket) (asked shown : List String) (plan : Plan) : Prop where
  closed : ∀ fact ∈ factsOf bucket plan.line, fact ∉ asked → isClosed bucket fact = true
  scans : scansOf bucket plan.line asked shown ≤ MAX_SCANS
  split : ∀ fact, fact ∈ asked ∨ fact ∈ narrowing bucket asked shown →
    (fact ∈ factsOf bucket plan.line ∨ fact ∈ plan.residual) ∧
      ¬ (fact ∈ factsOf bucket plan.line ∧ fact ∈ plan.residual)
  exact_iff : plan.kind = .exact ↔ plan.residual = []

/-- A plan is sound when a read can run on it and, without a ref, no other line does better. -/
structure SoundPlan (bucket : Bucket) (asked shown : List String) (hasRef : Bool) (plan : Plan) :
    Prop extends RunnablePlan bucket asked shown plan where
  best : hasRef = false → BindsMost bucket asked shown plan.line

/-- A line that holds a needed fact at two places does not come first by its places while another
binds more. -/
def RepeatsGainNothing (bucket : Bucket) (asked shown : List String) : Prop :=
  ∀ line, HoldsMostPlaces bucket asked shown line →
    ¬ HoldsOnce bucket (neededFacts bucket asked shown) line → BindsMost bucket asked shown line

/-- The line of a plan is usable as far as its facts and scans go. -/
theorem isUsable_choosePlan {declared bucket : Bucket} (h : defineBucket declared = .ok bucket)
    (asked shown : List String) (hasRef : Bool) :
    isUsable bucket asked shown (choosePlan bucket asked hasRef shown).line = true := by
  cases hasRef with
  | true => exact isUsable_lead h rfl asked shown
  | false => exact isUsable_of_mem h (List.argmax_mem bestLine_mem_argmax)

/-- Every bucket that is defined has a plan to run on for every request. -/
theorem choosePlan_runnable {declared bucket : Bucket} (h : defineBucket declared = .ok bucket)
    (asked shown : List String) (hasRef : Bool) :
    RunnablePlan bucket asked shown (choosePlan bucket asked hasRef shown) := by
  have husable := isUsable_choosePlan h asked shown hasRef
  rw [isUsable, Bool.and_eq_true, List.all_eq_true, decide_eq_true_eq] at husable
  refine ⟨?_, husable.2, ?_, ?_⟩
  · intro fact hfact hasked
    exact husable.1 fact (mem_without.mpr ⟨hfact, hasked⟩)
  · intro fact hfact
    have hneeded : fact ∈ neededFacts bucket asked shown := List.mem_append.mpr hfact
    have hresidual : fact ∈ (choosePlan bucket asked hasRef shown).residual ↔
        fact ∉ factsOf bucket (choosePlan bucket asked hasRef shown).line := by
      simp only [choosePlan, planFor, mem_without, hneeded, true_and]
    rw [hresidual]
    exact ⟨em _, fun hboth ↦ hboth.2 hboth.1⟩
  · simp only [choosePlan, planFor]
    split <;> simp_all

/-- Where no line repeats a needed fact, nothing is gained by repeating one. -/
theorem repeatsGainNothing_of_holdsOnce {bucket : Bucket} {asked shown : List String}
    (h : ∀ line ∈ usableLines bucket asked shown,
      HoldsOnce bucket (neededFacts bucket asked shown) line) :
    RepeatsGainNothing bucket asked shown :=
  fun line hline hrepeats ↦ absurd (h line hline.1) hrepeats

instance (bucket : Bucket) (needed : List String) (line : Line) :
    Decidable (HoldsOnce bucket needed line) :=
  inferInstanceAs (Decidable (List.Nodup _))

instance (bucket : Bucket) (asked shown : List String) (line : Line) :
    Decidable (BindsMost bucket asked shown line) :=
  inferInstanceAs (Decidable (∀ other ∈ usableLines bucket asked shown, _ ∧ (_ → _)))

/-- Events led by their status, with an index line of the status and one of the type. -/
def ledBucket : Bucket :=
  { eventsBucket with
    facts := eventsBucket.facts.take 2
    lead := ["status"]
    indexes := [["status"], ["type"]]
    groupings := ["status"] }

end FgGas.Buckets
