import FgGas.Buckets.Groups
import FgGas.Listing.ArrayText
import FgGas.Listing.Stepping

/-!
# Summaries of a bucket

How many rows there are of each combination of some facts, among the rows a summary picks out
(`src/common/buckets/summary.js`). A combination is found one fact at a time, under each way to
fill the facts that lead the index, and then counted with a filter of its own. A read of the
distinct values of a fact answers at most one more than `MAX_VALUES`.
-/

namespace FgGas.Buckets

open Listing Machine

variable {τ ι : Type}

/-- `SUMMARY_COUNT_CAP`. -/
def SUMMARY_COUNT_CAP : Nat := 100000

/-- An object of values by fact. -/
abbrev Values := List (String × Option String)

/-- `{ ...lower, ...upper }`. -/
def spread (lower upper : Values) : Values :=
  lower.filter (fun p ↦ p.1 ∉ upper.map Prod.fst) ++ upper

/-- `Object.fromEntries`, of facts with their values. -/
def fromEntries (facts : List String) (value : String → Option String) : Values :=
  facts.eraseDups.map fun fact ↦ (fact, value fact)

/-- `values[fact]`. -/
def valueOf (values : Values) (fact : String) : Option String :=
  (values.lookup fact).getD none

/-- A summary request that has passed its schema, the range by stored times. -/
structure SummaryBody (τ : Type) where
  shown : List String
  since : Option τ
  until_ : Option τ

/-- A parsed summary request. -/
structure SummaryQuery (τ : Type) where
  summary : Summary
  shown : List String
  since : Option τ
  until_ : Option τ

/-- `parseSummary`. -/
def parseSummary [LinearOrder τ] (bucket : Bucket) (summaryId : String) (body : SummaryBody τ) :
    Except Refusal (SummaryQuery τ) :=
  match bucket.summaries.find? (·.id = summaryId) with
  | none => .error .unknownSummary
  | some summary => do
    require (body.shown.all fun name ↦ (bucket.fact name).isSome) .unknownFact
    require (body.since.all fun t ↦ body.until_.all (t ≤ ·)) .invalidRange
    return ⟨summary, body.shown, body.since, body.until_⟩

/-- `summaryRead`: the read of a summary, on its own line. It has no cursor and shows no rows. -/
def summaryRead (bucket : Bucket) (query : SummaryQuery τ) : Read τ ι :=
  let line := summaryLineOf query.summary bucket.lead
  let plan : Plan :=
    ⟨.exact, .facts line, (factsOf bucket (.facts line)).filter (· ∉ line), []⟩
  { bucket := bucket
    query :=
      { wanted := query.summary.among.map fun (name, value) ↦ (name, some value)
        asked := query.summary.among.map Prod.fst
        shown := query.shown
        ref := none
        since := query.since
        until_ := query.until_
        cursor := none
        limit := 0
        groupBy := []
        plan := plan }
    plan := plan }

/-- The values a fact is filled with, null with them. -/
def fillValues (read : Read τ ι) (fact : String) : List (Option String) :=
  (fillOf read.bucket fact read.query.shown).map some ++ [none]

/-- `fillsOf`. -/
def fillsOf (read : Read τ ι) : List Values :=
  read.plan.filled.foldl
    (fun fills fact ↦ fills.flatMap fun fill ↦ (fillValues read fact).map (withFilter fill fact))
    [[]]

/-- What a step matches: the fill, what is asked, the combination found so far and the range. -/
def stepParts (read : Read τ ι) (fill combination : Values) : List (Part τ ι) :=
  [.facts ((spread (spread fill read.query.wanted) combination).map
      fun (name, value) ↦ (name, .is value)), rangePart read]

section
variable [LinearOrder τ] [LinearOrder ι]

/-- The values of a fact among the rows a step matches. -/
def matchedValues (rows : List (Document τ ι)) (read : Read τ ι) (fill combination : Values)
    (fact : String) : List (Option String) :=
  (rows.filter (passes (stepParts read fill combination))).map fun d ↦ d.fact fact

/-- `stepValues`. -/
def stepValues (platform : Platform) (rows : List (Document τ ι)) (read : Read τ ι)
    (fill combination : Values) (fact : String) : List (Option String) :=
  (platform.groupOrder (matchedValues rows read fill combination fact)).take (MAX_VALUES + 1)

/-- `widen`. -/
def widen (platform : Platform) (rows : List (Document τ ι)) (read : Read τ ι) (fill : Values)
    (fact : String) (combination : Values) : List Values :=
  (stepValues platform rows read fill combination fact).map (withFilter combination fact)

/-- `widenAll`. -/
def widenAll (platform : Platform) (rows : List (Document τ ι)) (read : Read τ ι) (fill : Values)
    (pending : List Values) (fact : String) : List Values :=
  pending.flatMap (widen platform rows read fill fact)

/-- `Object.hasOwn`. -/
def hasOwn (fill : Values) (fact : String) : Bool := fact ∈ fill.map Prod.fst

/-- What the fill fixes of a combination. -/
def fixedBy (byFacts : List String) (fill : Values) : Values :=
  fromEntries (byFacts.filter (hasOwn fill)) (valueOf fill)

/-- The facts of a combination that are stepped, one after the other. -/
def steppedFacts (byFacts : List String) (fill : Values) : List String :=
  byFacts.filter fun fact ↦ !hasOwn fill fact

/-- The combinations of the first few facts that are stepped. -/
def combinationsOf (platform : Platform) (rows : List (Document τ ι)) (read : Read τ ι)
    (byFacts : List String) (fill : Values) (facts : List String) : List Values :=
  facts.foldl (widenAll platform rows read fill) [fixedBy byFacts fill]

/-- `readValuesWithin`. -/
def readValuesWithin (platform : Platform) (rows : List (Document τ ι)) (read : Read τ ι)
    (byFacts : List String) (fill : Values) : List Values :=
  (combinationsOf platform rows read byFacts fill (steppedFacts byFacts fill)).map
    fun values ↦ fromEntries byFacts (valueOf values)

/-- `textOf`. -/
def textOf (values : Values) : String := arrayText (values.map Prod.snd)

/-- `byText`. -/
def byText (platform : Platform) (a b : Values) : Bool := platform.localeLe (textOf a) (textOf b)

/-- `Map.set`, by the text of the values: an entry that is there keeps its place. -/
def setByText (entries : List Values) (values : Values) : List Values :=
  if entries.any (textOf · = textOf values) then
    entries.map fun entry ↦ if textOf entry = textOf values then values else entry
  else entries ++ [values]

/-- `readSummaryValues`. -/
def readSummaryValues (platform : Platform) (rows : List (Document τ ι)) (read : Read τ ι)
    (byFacts : List String) : List Values :=
  let found := (fillsOf read).flatMap (readValuesWithin platform rows read byFacts)
  (found.foldl setByText []).mergeSort (byText platform)

/-- `readTime`: the time of the first row in an order. -/
def readTime (rows : List (Document τ ι)) (read : Read τ ι)
    (order : Document τ ι → Document τ ι → Bool) : Option τ :=
  ((rows.filter (passes (matchParts read))).mergeSort order).head?.map Document.time

/-- An entry of a summary. -/
structure Entry (τ : Type) where
  values : Values
  counted : Count
  firstAt : Option τ
  lastAt : Option τ

/-- The read of one combination. -/
def narrowedTo (read : Read τ ι) (values : Values) : Read τ ι :=
  { read with
    query := { read.query with
      asked := read.query.asked ++ values.map Prod.fst
      wanted := spread read.query.wanted values } }

/-- `readEntry`. -/
def readEntry (rows : List (Document τ ι)) (read : Read τ ι) (values : Values) : Entry τ where
  values := values
  counted := readCount rows (narrowedTo read values) SUMMARY_COUNT_CAP
  firstAt := readTime rows (narrowedTo read values) fun a b ↦ newerFirst b a
  lastAt := readTime rows (narrowedTo read values) newerFirst

/-- `mostFirst`. -/
def mostFirst (platform : Platform) (a b : Entry τ) : Bool :=
  b.counted.count < a.counted.count ∨
    a.counted.count = b.counted.count ∧ byText platform a.values b.values

/-- The entries of a summary, before the `top` cut. -/
def summaryEntries (platform : Platform) (rows : List (Document τ ι)) (read : Read τ ι)
    (byFacts : List String) : List (Entry τ) :=
  ((((readSummaryValues platform rows read byFacts).take MAX_VALUES).map
    (readEntry rows read)).filter (0 < ·.counted.count)).mergeSort (mostFirst platform)

/-- What a summary answers. -/
structure SummaryReport (τ : Type) where
  bucketId : String
  summaryId : String
  entries : List (Entry τ)
  more : Bool
  complete : Bool

/-- `runSummary`. -/
def runSummary (platform : Platform) (rows : List (Document τ ι)) (bucket : Bucket)
    (query : SummaryQuery τ) : SummaryReport τ :=
  let read := summaryRead bucket query
  let entries := summaryEntries platform rows read query.summary.byFacts
  { bucketId := bucket.id
    summaryId := query.summary.id
    entries := entries.take query.summary.top
    more := query.summary.top < entries.length
    complete :=
      (readSummaryValues platform rows read query.summary.byFacts).length ≤ MAX_VALUES }

end

end FgGas.Buckets
