import Mathlib.Data.List.Basic

/-!
# Buckets and the plan of a read

A bucket declares what the admin may list: its facts with their values, the index lines its
collection has, and the summaries counted on them (`src/common/buckets/bucket.js`). A read
runs on one index line, chosen by `choosePlan` (`src/common/buckets/plan.js`). What is only
drawn (labels, tones, icons, columns' keys) is left out.
-/

namespace FgGas.Buckets

/-- A listed value of a fact. -/
structure FactValue where
  value : String
  hidden : Bool
  deriving DecidableEq, Repr

/-- A fact's `values`: a closed list, `STORED`, or none. -/
inductive FactValues
  | closed (values : List FactValue)
  | stored
  | open
  deriving DecidableEq, Repr

/-- A fact. The toggle is given by its key in the admin's URLs, as the fact's own is `param`. -/
structure Fact where
  values : FactValues
  toggle : Option String
  within : Option String
  param : Option String
  deriving DecidableEq, Repr

/-- A summary counts each combination of the `by` facts among the rows `among` picks out.
`among` is an object, whose keys are distinct. -/
structure Summary where
  id : String
  byFacts : List String
  among : List (String × String)
  top : Nat
  among_nodup : (among.map Prod.fst).Nodup
  deriving DecidableEq, Repr

/-- A column of the list. -/
structure Column where
  format : String
  fact : Option String
  deriving DecidableEq, Repr

/-- A bucket, with the defaults of `defineBucket`. -/
structure Bucket where
  id : String
  path : Option String
  facts : List (String × Fact)
  lead : List String := []
  refs : List String := []
  links : List String := []
  indexes : List (List String) := []
  groupings : List String := []
  columns : List Column := []
  audited : Bool := false
  timeline : Bool := false
  summaries : List Summary := []
  page : Option String := none
  tab : Option String := none
  deriving DecidableEq, Repr

/-- An index line: facts, or the refs. -/
inductive Line
  | refs
  | facts (names : List String)
  deriving DecidableEq, Repr

/-- Whether a plan tests nothing beside its index. -/
inductive PlanKind
  | exact
  | bounded
  deriving DecidableEq, Repr

/-- The plan of a read. -/
structure Plan where
  kind : PlanKind
  line : Line
  filled : List String
  residual : List String
  deriving DecidableEq, Repr

/-- `SCAN_BUDGET`. -/
def SCAN_BUDGET : Nat := 20000

/-- `MAX_SCANS`. -/
def MAX_SCANS : Nat := 50

/-- `without`. -/
def without (list drop : List String) : List String := list.filter (· ∉ drop)

/-- A fact by its name. -/
def Bucket.fact (bucket : Bucket) (name : String) : Option Fact := bucket.facts.lookup name

/-- The listed values of a fact; a fact without closed values lists none. -/
def Bucket.valuesOf (bucket : Bucket) (fact : String) : List FactValue :=
  match (bucket.fact fact).map Fact.values with
  | some (.closed values) => values
  | _ => []

/-- `isClosed`. -/
def isClosed (bucket : Bucket) (fact : String) : Bool :=
  match (bucket.fact fact).map Fact.values with
  | some (.closed _) => true
  | _ => false

/-- `hasHidden`. -/
def hasHidden (bucket : Bucket) (fact : String) : Bool := (bucket.valuesOf fact).any (·.hidden)

/-- `factsOf`: the facts an index key holds. -/
def factsOf (bucket : Bucket) : Line → List String
  | .refs => bucket.lead
  | .facts line => bucket.lead ++ line

/-- `fillOf`: the listed values an unasked fact stands for. -/
def fillOf (bucket : Bucket) (fact : String) (shown : List String) : List String :=
  ((bucket.valuesOf fact).filter fun v ↦ fact ∈ shown ∨ ¬ v.hidden).map FactValue.value

/-- `narrowing`: the facts that narrow the list although nothing asks for them. -/
def narrowing (bucket : Bucket) (asked shown : List String) : List String :=
  (without (bucket.facts.map Prod.fst) (asked ++ shown)).filter (hasHidden bucket)

/-- `scansOf`. -/
def scansOf (bucket : Bucket) (line : Line) (asked shown : List String) : Nat :=
  (without (factsOf bucket line) asked).foldl
    (fun scans fact ↦ scans * ((fillOf bucket fact shown).length + 1)) 1

/-- `isUsable`. -/
def isUsable (bucket : Bucket) (asked shown : List String) (line : Line) : Bool :=
  (without (factsOf bucket line) asked).all (isClosed bucket) &&
    scansOf bucket line asked shown ≤ MAX_SCANS

/-- `boundBy`. -/
def boundBy (bucket : Bucket) (line : Line) (needed : List String) : Nat :=
  ((factsOf bucket line).filter (· ∈ needed)).length

/-- `better`: more needed facts bound wins, then fewer scans, then the order declared. -/
def better (bucket : Bucket) (asked shown needed : List String) (chosen line : Line) : Line :=
  if boundBy bucket chosen needed < boundBy bucket line needed ∨
      boundBy bucket line needed = boundBy bucket chosen needed ∧
        scansOf bucket line asked shown < scansOf bucket chosen asked shown then line
  else chosen

/-- `planFor`. -/
def planFor (bucket : Bucket) (line : Line) (asked needed : List String) : Plan where
  kind := if without needed (factsOf bucket line) = [] then .exact else .bounded
  line := line
  filled := without (factsOf bucket line) asked
  residual := without needed (factsOf bucket line)

/-- The facts a plan must bind or test: those asked, and those that narrow. -/
def neededFacts (bucket : Bucket) (asked shown : List String) : List String :=
  asked ++ narrowing bucket asked shown

/-- `bestLine`. The time-only line is where the choice starts. -/
def bestLine (bucket : Bucket) (asked shown needed : List String) : Line :=
  ((bucket.indexes.map Line.facts).filter (isUsable bucket asked shown)).foldl
    (better bucket asked shown needed) (.facts [])

/-- `choosePlan`. -/
def choosePlan (bucket : Bucket) (asked : List String) (hasRef : Bool) (shown : List String) :
    Plan :=
  let needed := neededFacts bucket asked shown
  planFor bucket (if hasRef then .refs else bestLine bucket asked shown needed) asked needed

@[simp] theorem mem_without {list drop : List String} {name : String} :
    name ∈ without list drop ↔ name ∈ list ∧ name ∉ drop := by
  simp [without]

/-- A fact with hidden values is closed. -/
theorem isClosed_of_hasHidden {bucket : Bucket} {fact : String}
    (h : hasHidden bucket fact = true) : isClosed bucket fact = true := by
  unfold hasHidden Bucket.valuesOf at h
  unfold isClosed
  split at h
  · rfl
  · simp at h

/-- A closed fact is declared. -/
theorem declared_of_isClosed {bucket : Bucket} {fact : String}
    (h : isClosed bucket fact = true) : fact ∈ bucket.facts.map Prod.fst := by
  by_contra hmem
  have hnone : bucket.fact fact = none := by
    rw [Bucket.fact, List.lookup_eq_none_iff]
    intro p hp
    have hne : fact ≠ p.1 := fun heq ↦ hmem (heq ▸ List.mem_map_of_mem hp)
    simpa using hne
  simp [isClosed, hnone] at h

/-- A declared value that is not hidden, or any declared value of a shown fact. -/
theorem mem_fillOf {bucket : Bucket} {fact value : String} {shown : List String} :
    value ∈ fillOf bucket fact shown ↔
      ∃ v ∈ bucket.valuesOf fact, (fact ∈ shown ∨ v.hidden = false) ∧ v.value = value := by
  simp [fillOf, and_assoc]

/-- A fact that hides nothing, or is shown, stands for all its values. -/
theorem fillOf_of_shows {bucket : Bucket} {fact : String} {shown : List String}
    (h : fact ∈ shown ∨ hasHidden bucket fact = false) :
    fillOf bucket fact shown = (bucket.valuesOf fact).map FactValue.value := by
  unfold fillOf
  congr 1
  rw [List.filter_eq_self]
  intro v hv
  rcases h with hshown | hnone
  · simp [hshown]
  · have hv' : v.hidden = false := by
      simpa using List.any_eq_false.mp hnone v hv
    simp [hv']

theorem mem_narrowing {bucket : Bucket} {asked shown : List String} {fact : String} :
    fact ∈ narrowing bucket asked shown ↔
      fact ∉ asked ∧ fact ∉ shown ∧ hasHidden bucket fact = true := by
  simp only [narrowing, List.mem_filter, mem_without, List.mem_append, not_or, and_assoc]
  constructor
  · exact fun h ↦ h.2
  · exact fun h ↦ ⟨declared_of_isClosed (isClosed_of_hasHidden h.2.2), h⟩

/-- The choice among lines starts from one and ends on that or one of the others. -/
theorem foldl_better_mem {bucket : Bucket} {asked shown needed : List String}
    (lines : List Line) (chosen : Line) :
    lines.foldl (better bucket asked shown needed) chosen = chosen ∨
      lines.foldl (better bucket asked shown needed) chosen ∈ lines := by
  induction lines generalizing chosen with
  | nil => exact .inl rfl
  | cons line lines ih =>
    rw [List.foldl_cons]
    rcases ih (better bucket asked shown needed chosen line) with heq | hmem
    · rw [heq]
      unfold better
      split
      · exact .inr List.mem_cons_self
      · exact .inl rfl
    · exact .inr (List.mem_cons_of_mem _ hmem)

/-- A line whose unasked facts are closed, which a read may run on. -/
def Fillable (bucket : Bucket) (asked : List String) (line : Line) : Prop :=
  ∀ fact ∈ without (factsOf bucket line) asked, isClosed bucket fact = true

/-- The plan chosen runs on a line whose unasked facts are closed. -/
theorem choosePlan_eq {bucket : Bucket} (asked shown : List String) (hasRef : Bool)
    (hlead : ∀ fact ∈ bucket.lead, isClosed bucket fact = true) :
    ∃ line, choosePlan bucket asked hasRef shown =
        planFor bucket line asked (neededFacts bucket asked shown) ∧
      Fillable bucket asked line := by
  have hleads : ∀ line, factsOf bucket line = bucket.lead → Fillable bucket asked line := by
    intro line hfacts fact hfact
    rw [hfacts, mem_without] at hfact
    exact hlead fact hfact.1
  refine ⟨_, rfl, ?_⟩
  cases hasRef with
  | true => exact hleads _ rfl
  | false =>
    have hmem : bestLine bucket asked shown (neededFacts bucket asked shown) = .facts [] ∨
        bestLine bucket asked shown (neededFacts bucket asked shown) ∈
          (bucket.indexes.map Line.facts).filter (isUsable bucket asked shown) :=
      foldl_better_mem _ _
    rcases hmem with heq | hmem
    · have hfacts : factsOf bucket (.facts []) = bucket.lead := by simp [factsOf]
      simpa [heq] using hleads _ hfacts
    · have husable := (List.mem_filter.mp hmem).2
      have hclosed := (Bool.and_eq_true_iff.mp husable).1
      exact List.all_eq_true.mp hclosed

end FgGas.Buckets
