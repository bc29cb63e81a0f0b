import FgGas.Buckets.Bucket

/-!
# Defining a bucket

`defineBucket` (`src/common/buckets/bucket.js`): the rules a bucket must meet, in the order
they are checked, each with what it says of a bucket that breaks it.
-/

namespace FgGas.Buckets

/-- `RESERVED_NAMES`. -/
def RESERVED_NAMES : List String :=
  ["ref", "from", "to", "range", "cursor", "searched", "limit", "groupBy", "show"]

/-- `[a-z]`. -/
def isLower (c : Char) : Bool := 'a' ≤ c && c ≤ 'z'

/-- `[a-z][...]*`, the characters after the first as given. -/
def isWord (more : Char → Bool) : List Char → Bool
  | [] => false
  | c :: cs => isLower c && cs.all more

/-- `[a-z][a-z0-9-]*`. -/
def isHyphenated (cs : List Char) : Bool :=
  isWord (fun c ↦ isLower c || ('0' ≤ c && c ≤ '9') || c = '-') cs

/-- `BUCKET_ID`. -/
def matchesBucketId (id : String) : Bool :=
  let (service, name) := id.toList.span (· ≠ '.')
  service ≠ [] && service.all isLower && match name with
    | [] => false
    | _ :: name => isHyphenated name

/-- `BUCKET_PATH`. -/
def matchesBucketPath (path : String) : Bool := (path.toList.splitOn '/').all isHyphenated

/-- `URL_KEY`. -/
def matchesUrlKey (key : String) : Bool :=
  isWord (fun c ↦ isLower c || ('0' ≤ c && c ≤ '9')) key.toList

/-- `isClosed` of a fact. -/
def Fact.isClosed (fact : Fact) : Bool :=
  match fact.values with
  | .closed _ => true
  | _ => false

/-- `hasValues`. -/
def Fact.hasValues (fact : Fact) : Bool := fact.isClosed || fact.values = .stored

/-- `hidesValues`. -/
def Fact.hidesValues (fact : Fact) : Bool :=
  match fact.values with
  | .closed values => values.any (·.hidden)
  | _ => false

/-- `leads`. -/
def leads (bucket : Bucket) (name : String) : Bool :=
  bucket.indexes.any fun line ↦ (factsOf bucket (.facts line)).head? = some name

/-- `urlKeysOf`. -/
def urlKeysOf (bucket : Bucket) : List (Option String) :=
  bucket.facts.flatMap fun (_, fact) ↦
    match fact.toggle with
    | some toggle => [fact.param, some toggle]
    | none => [fact.param]

/-- `isBadKey`. -/
def isBadKey (key : Option String) : Bool :=
  !matchesUrlKey (key.getD "") || (key.any fun key ↦ key ∈ RESERVED_NAMES)

/-- `line.join("\n")`. -/
def joined (line : List String) : String := "\n".intercalate line

/-- `hasDuplicates`. -/
def hasDuplicates (lines : List (List String)) : Bool := ¬ (lines.map joined).Nodup

/-- `isUndeclared`. -/
def isUndeclared (bucket : Bucket) (name : String) : Bool := (bucket.fact name).isNone

/-- `isOpen`, of a declared fact. -/
def isOpen (bucket : Bucket) (name : String) : Bool := !isClosed bucket name

/-- `summaryLineOf`. -/
def summaryLineOf (summary : Summary) (lead : List String) : List String :=
  summary.among.map Prod.fst ++ summary.byFacts.filter (· ∉ lead)

/-- `summaryFactsOf`. -/
def summaryFactsOf (summary : Summary) : List String :=
  summary.among.map Prod.fst ++ summary.byFacts

/-- `hasLine`. -/
def hasLine (indexes : List (List String)) (wanted : List String) : Bool :=
  indexes.any fun line ↦ joined line = joined wanted

/-- `rules`: what each finds wrong with a bucket, and what it says of one it does. -/
def rules : List ((Bucket → Bool) × String) := [
  (fun b ↦ !matchesBucketId b.id, "has a malformed id"),
  (fun b ↦ !matchesBucketPath (b.path.getD ""), "has a missing or malformed path"),
  (fun b ↦ (b.facts.map Prod.fst).any (· ∈ RESERVED_NAMES),
    "names a fact with a reserved name"),
  (fun b ↦ b.indexes.flatten.any (isUndeclared b),
    "has an index line that names an undeclared fact"),
  (fun b ↦ b.groupings.any (isUndeclared b), "has a grouping that names an undeclared fact"),
  (fun b ↦ b.groupings.any fun name ↦ !(b.fact name).any Fact.hasValues,
    "has a grouping with no closed or stored values"),
  (fun b ↦ b.lead.any (isUndeclared b), "leads with an undeclared fact"),
  (fun b ↦ b.lead.any (isOpen b), "leads with a fact without closed values"),
  (fun b ↦ MAX_SCANS < scansOf b (.facts []) [] b.lead,
    "leads with more values than one read may scan"),
  (fun b ↦ (urlKeysOf b).any isBadKey,
    "has a fact or toggle without a URL key of its own, or with a reserved one"),
  (fun b ↦ ¬ (urlKeysOf b).Nodup, "uses one URL key twice"),
  (fun b ↦ b.facts.any fun (_, fact) ↦ fact.toggle.isSome && !fact.isClosed,
    "has a toggle on a fact without closed values"),
  (fun b ↦ b.facts.any fun (_, fact) ↦ fact.hidesValues && fact.toggle.isNone,
    "hides a value of a fact that has no toggle to show it"),
  (fun b ↦ b.facts.any fun (name, fact) ↦
      fact.within.any fun within ↦ within = name || isUndeclared b within,
    "has a fact within itself or within an undeclared fact"),
  (fun b ↦ b.facts.any fun (name, fact) ↦
      fact.within.any fun within ↦ !hasLine b.indexes [within, name],
    "has a fact within another with no index line of the two"),
  (fun b ↦ b.facts.any fun (name, fact) ↦ fact.values = .stored && !leads b name,
    "has a stored fact that leads no index line"),
  (fun b ↦ hasDuplicates ([] :: b.indexes), "declares the same index line twice"),
  (fun b ↦ (b.columns.filter (·.format = "badge")).any fun column ↦
      !column.fact.any (isClosed b),
    "has a badge column that names a fact without closed values"),
  (fun b ↦ b.audited && b.timeline, "is both audited and timeline"),
  (fun b ↦ b.links.any (· ∈ b.refs), "declares a ref kind both as a search and as a link"),
  (fun b ↦ b.page.isSome ≠ b.tab.any (· ≠ ""),
    "declares a page without a tab, or a tab without a page"),
  (fun b ↦ b.summaries.any (·.byFacts = []), "has a summary that counts by no fact"),
  (fun b ↦ (b.summaries.flatMap summaryFactsOf).any (isUndeclared b),
    "has a summary that names an undeclared fact"),
  (fun b ↦ (b.summaries.flatMap fun s ↦ s.among.map Prod.fst).any (isOpen b),
    "has a summary among a fact without closed values"),
  (fun b ↦ b.summaries.any fun s ↦ !hasLine b.indexes (summaryLineOf s b.lead),
    "has a summary with no index line of its own"),
  (fun b ↦ b.summaries ≠ [] &&
      b.facts.any fun (name, fact) ↦ fact.hidesValues && name ∉ b.lead,
    "has a summary, and hides values of a fact it does not lead with"),
  (fun b ↦ b.audited && b.summaries ≠ [], "is audited and declares a summary")]

/-- `problemOf`: what the first rule broken says. -/
def problemOf (bucket : Bucket) : Option String :=
  (rules.find? fun rule ↦ rule.1 bucket).map Prod.snd

/-- `defineBucket`. -/
def defineBucket (bucket : Bucket) : Except String Bucket :=
  match problemOf bucket with
  | some problem => .error ("Bucket \"" ++ bucket.id ++ "\" " ++ problem)
  | none => .ok bucket

/-- A bucket that is defined is the one declared, and breaks no rule. -/
theorem defineBucket_eq_ok {declared bucket : Bucket} :
    defineBucket declared = .ok bucket ↔
      declared = bucket ∧ ∀ rule ∈ rules, rule.1 bucket = false := by
  unfold defineBucket
  cases h : problemOf declared with
  | none =>
    have hrules : ∀ rule ∈ rules, rule.1 declared = false := by
      simpa [problemOf] using h
    constructor
    · intro heq
      obtain rfl := Except.ok.inj heq
      exact ⟨rfl, hrules⟩
    · rintro ⟨rfl, _⟩
      rfl
  | some problem =>
    obtain ⟨rule, hfind, _⟩ := Option.map_eq_some_iff.mp h
    have hbroken := List.find?_some hfind
    constructor
    · intro heq
      cases heq
    · rintro ⟨rfl, hrules⟩
      exact absurd (hrules rule (List.mem_of_find?_eq_some hfind)) (by simp [hbroken])

/-- A grouping names a declared fact. -/
theorem declared_of_groupings {declared bucket : Bucket} {fact : String}
    (h : defineBucket declared = .ok bucket) (hfact : fact ∈ bucket.groupings) :
    (bucket.fact fact).isSome = true := by
  have hrule := (defineBucket_eq_ok.mp h).2 (fun b ↦ b.groupings.any (isUndeclared b), _)
    (List.mem_of_getElem? (i := 4) rfl)
  have hdeclared : isUndeclared bucket fact = false := by
    simpa using List.any_eq_false.mp hrule fact hfact
  simpa [isUndeclared] using hdeclared

/-- What leads a bucket is closed. -/
theorem lead_closed {declared bucket : Bucket} (h : defineBucket declared = .ok bucket) :
    ∀ fact ∈ bucket.lead, isClosed bucket fact = true := by
  have hrule := (defineBucket_eq_ok.mp h).2 (fun b ↦ b.lead.any (isOpen b), _)
    (List.mem_of_getElem? (i := 7) rfl)
  intro fact hfact
  simpa [isOpen] using List.any_eq_false.mp hrule fact hfact

end FgGas.Buckets
