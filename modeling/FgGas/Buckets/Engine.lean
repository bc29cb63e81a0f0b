import FgGas.Buckets.Bucket
import FgGas.Machine.Guards
import Mathlib.Order.Lattice

/-!
# Reading a bucket

A request is parsed and given a plan, and the page, the counts and the groups are read from
the bucket's collection with the filters the plan calls for (`src/common/buckets/engine.js`,
`src/common/buckets/cursor.js`). Times and ids are of any linear order. How a row is presented,
the index hint and the time limit of a read are left out.
-/

namespace FgGas.Buckets

open Machine

variable {τ ι : Type}

/-! ### Documents and filters -/

/-- A stored row: `none` is a fact that is null or missing. -/
structure Document (τ ι : Type) where
  id : ι
  time : τ
  refs : List String
  fact : String → Option String

/-- A filter of a fact: a value, or `$in`. -/
inductive FactFilter
  | is (value : Option String)
  | isIn (values : List (Option String))
  deriving DecidableEq, Repr

/-- A comparison operator of a filter. -/
inductive Comparison
  | gte
  | lte
  | lt
  deriving DecidableEq, Repr

/-- A part of a filter: conditions on facts, a ref among the row's, bounds of the time, or a
`$nor` of one time with a bound of the id. -/
inductive Part (τ ι : Type)
  | facts (conditions : List (String × FactFilter))
  | refs (ref : Option String)
  | time (bounds : List (Comparison × τ))
  | norAt (time : τ) (bound : Comparison) (id : ι)

/-- Whether a value passes a filter of its fact. -/
def FactFilter.admits : FactFilter → Option String → Bool
  | .is wanted, value => value = wanted
  | .isIn values, value => value ∈ values

section
variable [LinearOrder τ] [LinearOrder ι]

/-- Whether a comparison holds. -/
def Comparison.holds {α : Type} [LinearOrder α] (a b : α) : Comparison → Bool
  | .gte => b ≤ a
  | .lte => a ≤ b
  | .lt => a < b

/-- Whether a row passes a part. -/
def Part.admits (d : Document τ ι) : Part τ ι → Bool
  | .facts conditions => conditions.all fun (fact, filter) ↦ filter.admits (d.fact fact)
  | .refs ref => ref.all (· ∈ d.refs)
  | .time bounds => bounds.all fun (bound, t) ↦ bound.holds d.time t
  | .norAt t bound i => ¬ (d.time = t ∧ bound.holds d.id i)

/-- Whether a row passes all parts of a filter. -/
def passes (parts : List (Part τ ι)) (d : Document τ ι) : Bool := parts.all (·.admits d)

/-- The sort of a list: newest first, and of one time the greatest id first. -/
def newerFirst (a b : Document τ ι) : Bool := b.time < a.time ∨ b.time = a.time ∧ b.id ≤ a.id

/-- `find` with the sort of a list. -/
def find (rows : List (Document τ ι)) (parts : List (Part τ ι)) (skip limit : Nat) :
    List (Document τ ι) :=
  (((rows.filter (passes parts)).mergeSort newerFirst).drop skip).take limit

/-- `countDocuments` up to a limit. -/
def countDocuments (rows : List (Document τ ι)) (parts : List (Part τ ι)) (limit : Nat) : Nat :=
  min (rows.countP (passes parts)) limit

end

/-! ### Requests -/

/-- Why a request is refused. -/
inductive Refusal
  | unknownFact
  | unknownGrouping
  | invalidCursor
  | invalidRange
  | unknownSummary
  deriving DecidableEq, Repr

/-- How a stored time and an id are written in a cursor: as an ISO string and in hex. A time
that is not valid throws, and so does a string that is not an id. -/
structure Codec (τ ι : Type) where
  toIso : τ → String
  toStoredTime : String → Option τ
  idText : ι → String
  createFromHexString : String → Option ι
  createFromHexString_idText : ∀ i, createFromHexString (idText i) = some i
  idText_ne : ∀ i, idText i ≠ ""

/-- A time stored as the bucket stores what it reads from its ISO string. -/
def Codec.Canonical (codec : Codec τ ι) (t : τ) : Prop :=
  codec.toStoredTime (codec.toIso t) = some t

instance [DecidableEq τ] (codec : Codec τ ι) (t : τ) : Decidable (codec.Canonical t) :=
  inferInstanceAs (Decidable (_ = _))

/-- A cursor. Its JSON in base64 is left out. -/
structure Cursor where
  t : String
  i : String
  deriving DecidableEq, Repr

/-- `encodeCursor`. -/
def encodeCursor (codec : Codec τ ι) (position : τ × ι) : Cursor :=
  ⟨codec.toIso position.1, codec.idText position.2⟩

/-- `decodeCursor`. -/
def decodeCursor (codec : Codec τ ι) (cursor : Cursor) : Except Refusal (τ × ι) :=
  match codec.toStoredTime cursor.t, codec.createFromHexString cursor.i with
  | some t, some i => if cursor.i = "" then .error .invalidCursor else .ok (t, i)
  | _, _ => .error .invalidCursor

/-- `PAGE_SIZE` is a default; `MAX_PAGE_SIZE` bounds the page a request may ask for. -/
def MAX_PAGE_SIZE : Nat := 100

/-- A request that has passed its schema. The ref is given as `toRef` writes it, of a kind the
bucket declares, and the range by stored times. -/
structure Body (τ : Type) where
  wanted : List (String × String)
  shown : List String
  ref : Option String
  since : Option τ
  until_ : Option τ
  cursor : Option Cursor
  limit : Nat
  groupBy : List String
  limit_pos : 1 ≤ limit
  limit_le : limit ≤ MAX_PAGE_SIZE

/-- A parsed request: `wanted` is `where`, `shown` is `show`, `since` and `until_` are `from`
and `to`. -/
structure Query (τ ι : Type) where
  wanted : List (String × Option String)
  asked : List String
  shown : List String
  ref : Option String
  since : Option τ
  until_ : Option τ
  cursor : Option (τ × ι)
  limit : Nat
  groupBy : List String
  plan : Plan

/-- `where[fact]`. -/
def Query.value (query : Query τ ι) (fact : String) : Option String :=
  (query.wanted.lookup fact).getD none

/-- A query with the bucket and the plan it is read by. -/
structure Read (τ ι : Type) where
  bucket : Bucket
  query : Query τ ι
  plan : Plan

/-- `parseCursor`. -/
def parseCursor (codec : Codec τ ι) : Option Cursor → Except Refusal (Option (τ × ι))
  | none => .ok none
  | some cursor => (decodeCursor codec cursor).map some

/-- What `parseQuery` makes of a request whose cursor it has parsed. -/
def Body.query (bucket : Bucket) (body : Body τ) (cursor : Option (τ × ι)) : Query τ ι where
  wanted := body.wanted.map fun (name, value) ↦ (name, some value)
  asked := body.wanted.map Prod.fst
  shown := body.shown
  ref := body.ref
  since := body.since
  until_ := body.until_
  cursor := cursor
  limit := body.limit
  groupBy := body.groupBy
  plan := choosePlan bucket (body.wanted.map Prod.fst) body.ref.isSome body.shown

/-- `parseQuery`. -/
def parseQuery [LinearOrder τ] (codec : Codec τ ι) (bucket : Bucket) (body : Body τ) :
    Except Refusal (Query τ ι) := do
  require (body.wanted.all fun (name, _) ↦ (bucket.fact name).isSome) .unknownFact
  require (body.shown.all fun name ↦ (bucket.fact name).isSome) .unknownFact
  require (body.groupBy.all (· ∈ bucket.groupings)) .unknownGrouping
  let cursor ← parseCursor codec body.cursor
  require (body.since.all fun t ↦ body.until_.all (t ≤ ·)) .invalidRange
  return body.query bucket cursor

/-- What a request must meet whatever its cursor. -/
structure Body.Accepted [LinearOrder τ] (bucket : Bucket) (body : Body τ) : Prop where
  wanted : ∀ p ∈ body.wanted, (bucket.fact p.1).isSome = true
  shown : ∀ name ∈ body.shown, (bucket.fact name).isSome = true
  groupBy : ∀ name ∈ body.groupBy, name ∈ bucket.groupings
  range : ∀ t ∈ body.since, ∀ t' ∈ body.until_, t ≤ t'

/-- A request is parsed when it is accepted and its cursor can be read. -/
theorem parseQuery_eq_ok [LinearOrder τ] {codec : Codec τ ι} {bucket : Bucket} {body : Body τ}
    {query : Query τ ι} : parseQuery codec bucket body = .ok query ↔
      body.Accepted bucket ∧
        ∃ cursor, parseCursor codec body.cursor = .ok cursor ∧
          query = body.query bucket cursor := by
  unfold parseQuery
  rw [andThen_eq_ok, andThen_eq_ok, andThen_eq_ok, bind_eq_ok]
  simp only [andThen_eq_ok, require_eq_ok]
  constructor
  · rintro ⟨hwanted, hshown, hgroupBy, cursor, hcursor, hrange, hquery⟩
    refine ⟨⟨?_, ?_, ?_, ?_⟩, cursor, hcursor, (Except.ok.inj hquery).symm⟩
    · simpa [List.all_eq_true] using hwanted
    · simpa [List.all_eq_true] using hshown
    · simpa [List.all_eq_true] using hgroupBy
    · simpa [Option.all_eq_true] using hrange
  · rintro ⟨⟨hwanted, hshown, hgroupBy, hrange⟩, cursor, hcursor, rfl⟩
    refine ⟨?_, ?_, ?_, cursor, hcursor, ?_, rfl⟩
    · simpa [List.all_eq_true] using hwanted
    · simpa [List.all_eq_true] using hshown
    · simpa [List.all_eq_true] using hgroupBy
    · simpa [Option.all_eq_true] using hrange

/-- The cursor after a row with a canonical time is read as the row's position. -/
theorem decodeCursor_encodeCursor {codec : Codec τ ι} {t : τ} (h : codec.Canonical t) (i : ι) :
    decodeCursor codec (encodeCursor codec (t, i)) = .ok (t, i) := by
  have htime : codec.toStoredTime (codec.toIso t) = some t := h
  simp [decodeCursor, encodeCursor, htime, codec.createFromHexString_idText, codec.idText_ne]

/-! ### The parts of a filter -/

section
variable (read : Read τ ι)

/-- `boundFacts`. -/
def boundFacts : List String :=
  (factsOf read.bucket read.plan.line).filter (· ∈ read.query.asked)

/-- `boundPart`. -/
def boundPart : Part τ ι :=
  .facts ((boundFacts read).map fun fact ↦ (fact, .is (read.query.value fact)))

/-- `fillOfFact`. -/
def fillOfFact (fact : String) (unset : List (Option String)) : FactFilter :=
  .isIn ((fillOf read.bucket fact read.query.shown).map some ++ unset)

/-- `filledPart`. -/
def filledPart (unset : List (Option String)) : Part τ ι :=
  .facts (read.plan.filled.map fun fact ↦ (fact, fillOfFact read fact unset))

/-- `refPart`. -/
def refPart : Part τ ι := .refs read.query.ref

/-- `rangePart`. -/
def rangePart : Part τ ι :=
  .time (read.query.since.toList.map (Comparison.gte, ·) ++
    read.query.until_.toList.map (Comparison.lte, ·))

/-- `residualOf`: a residual nothing asked for is tested against the values it still shows,
and null. -/
def residualOf (fact : String) : FactFilter :=
  if fact ∈ read.query.asked then .is (read.query.value fact) else fillOfFact read fact [none]

/-- `residualPart`. -/
def residualPart : Part τ ι :=
  .facts (read.plan.residual.map fun fact ↦ (fact, residualOf read fact))

/-- `keysetParts`. -/
def keysetParts : List (Part τ ι) :=
  match read.query.cursor with
  | none => []
  | some (t, i) => [.time [(.lte, t)], .norAt t .gte i]

/-- `olderThanCursor`. -/
def olderThanCursor : Part τ ι :=
  .time (read.query.cursor.toList.map fun (t, _) ↦ (.lt, t))

/-- `withinEdge`. -/
def withinEdge (edge : Option (Document τ ι)) : List (Part τ ι) :=
  match edge with
  | none => []
  | some edge => [.time [(.gte, edge.time)], .norAt edge.time .lt edge.id]

/-- `matchParts`. -/
def matchParts : List (Part τ ι) :=
  [boundPart read, filledPart read [none], refPart read, rangePart read]

end

/-! ### Reads -/

/-- A page of a list. -/
structure BucketPage (τ ι : Type) where
  rows : List (Document τ ι)
  next : Option Cursor
  keepLooking : Option Cursor
  searchedTo : Option String
  complete : Bool

/-- Where a list goes on after a page. -/
def BucketPage.following (page : BucketPage τ ι) : Option Cursor := page.next <|> page.keepLooking

/-- `pageAfter`. -/
def pageAfter (codec : Codec τ ι) (rows : List (Document τ ι)) (last : Document τ ι) :
    BucketPage τ ι :=
  ⟨rows, some (encodeCursor codec (last.time, last.id)), none, none, false⟩

/-- `pageWithin`. -/
def pageWithin (codec : Codec τ ι) (rows : List (Document τ ι)) :
    Option (Document τ ι) → BucketPage τ ι
  | some edge => ⟨rows, none, some (encodeCursor codec (edge.time, edge.id)),
      some (codec.toIso edge.time), false⟩
  | none => ⟨rows, none, none, none, true⟩

section
variable [LinearOrder τ] [LinearOrder ι]

/-- `readEdge`. -/
def readEdge (rows : List (Document τ ι)) (read : Read τ ι) : Option (Document τ ι) :=
  (find rows
    [boundPart read, filledPart read [], refPart read, rangePart read, olderThanCursor read]
    (SCAN_BUDGET - 1) 1).head?

/-- The filter of `readRows`. -/
def rowParts (read : Read τ ι) (edge : Option (Document τ ι)) : List (Part τ ι) :=
  matchParts read ++ keysetParts read ++ [residualPart read] ++ withinEdge edge

/-- `readRows`. -/
def readRows (rows : List (Document τ ι)) (read : Read τ ι) (edge : Option (Document τ ι)) :
    List (Document τ ι) :=
  find rows (rowParts read edge) 0 (read.query.limit + 1)

/-- `readPage`. -/
def readPage (codec : Codec τ ι) (rows : List (Document τ ι)) (read : Read τ ι) :
    BucketPage τ ι :=
  let edge := if read.plan.kind = .bounded then readEdge rows read else none
  let docs := readRows rows read edge
  let kept := docs.take read.query.limit
  match kept.getLast? with
  | some last =>
      if read.query.limit < docs.length then pageAfter codec kept last
      else pageWithin codec kept edge
  | none => pageWithin codec kept edge

/-- The page a request is answered with: what `runQuery` reads of the list. -/
def queryPage (codec : Codec τ ι) (rows : List (Document τ ι)) (bucket : Bucket)
    (body : Body τ) : Except Refusal (BucketPage τ ι) := do
  let query ← parseQuery codec bucket body
  return readPage codec rows ⟨bucket, query, query.plan⟩

/-- `COUNT_CAP`. -/
def COUNT_CAP : Nat := 10000

/-- What was counted, up to a cap. -/
structure Count where
  count : Nat
  capped : Bool
  deriving DecidableEq, Repr

/-- `readCount`. -/
def readCount (rows : List (Document τ ι)) (read : Read τ ι) (cap : Nat) : Count :=
  let found := countDocuments rows (matchParts read) (cap + 1)
  ⟨min found cap, cap < found⟩

end

end FgGas.Buckets
