import FgGas.Machine.Guards
import FgGas.Machine.Trim
import FgGas.Processes.Mapping

/-!
# Allow lists of grants

Who may apply for a grant: the identifiers a `GrantAllowList` restricts it to
(`src/grants/models/grant-allow-list.js`), as texts.
-/

namespace FgGas.AllowLists

open Machine Processes

/-- The identifiers an allow list restricts. -/
inductive IdentifierKind
  | sbi
  | crn
  deriving DecidableEq, Repr

/-- The number of digits that `patterns` demands. -/
def patternLength : IdentifierKind → ℕ
  | .sbi => 9
  | .crn => 10

/-- `patterns[kind].test(value)`. -/
def satisfiesPattern (kind : IdentifierKind) (value : String) : Bool :=
  value.toList.length = patternLength kind && value.toList.all Char.isDigit

/-- The identifiers of both kinds. -/
structure Identifiers where
  sbi : List String
  crn : List String
  deriving DecidableEq, Repr

/-- The identifiers of a kind. -/
def Identifiers.of (identifiers : Identifiers) : IdentifierKind → List String
  | .sbi => identifiers.sbi
  | .crn => identifiers.crn

/-! ### What is wrong with a submission -/

/-- `normalize`. -/
def normalize (values : List String) : List String := (values.map trimText).filter (· ≠ "")

/-- `isInvalidIdentifier`. -/
def isInvalidIdentifier (kind : IdentifierKind) (value : String) : Bool :=
  !satisfiesPattern kind value

/-- A value added to a `Set`, which keeps the order in which values come. -/
def addToSet (set : List String) (value : String) : List String :=
  if value ∈ set then set else set ++ [value]

/-- `distinct`. -/
def distinct (values : List String) : List String := values.foldl addToSet []

/-- `invalidValuesIn`. -/
def invalidValuesIn (kind : IdentifierKind) (values : List String) : List String :=
  distinct (values.filter (isInvalidIdentifier kind))

/-- The values that were seen, and those that were seen again, after one more value. -/
def seeValue (sets : List String × List String) (value : String) : List String × List String :=
  (addToSet sets.1 value, if value ∈ sets.1 then addToSet sets.2 value else sets.2)

/-- `duplicateValuesIn`. -/
def duplicateValuesIn (values : List String) : List String := (values.foldl seeValue ([], [])).2

/-- What is wrong with the identifiers of a kind. -/
structure IdentifierProblems where
  invalid : List String
  duplicate : List String
  deriving DecidableEq, Repr

/-- `identifierProblemsIn`. -/
def identifierProblemsIn (kind : IdentifierKind) (values : List String) : IdentifierProblems :=
  ⟨invalidValuesIn kind values, duplicateValuesIn values⟩

/-- `hasProblems`. -/
def IdentifierProblems.hasProblems (problems : IdentifierProblems) : Bool :=
  !problems.invalid.isEmpty || !problems.duplicate.isEmpty

/-- What is wrong with a submission: the details of a validation failure. -/
structure Problems where
  sbi : IdentifierProblems
  crn : IdentifierProblems
  deriving DecidableEq, Repr

/-- The problems of a kind. -/
def Problems.of (problems : Problems) : IdentifierKind → IdentifierProblems
  | .sbi => problems.sbi
  | .crn => problems.crn

/-- The problems of both kinds. -/
def problemsIn (identifiers : Identifiers) : Problems :=
  ⟨identifierProblemsIn .sbi identifiers.sbi, identifierProblemsIn .crn identifiers.crn⟩

/-- `validate`. -/
def validate (identifiers : Identifiers) : Except Problems Identifiers :=
  let problems := problemsIn identifiers
  if problems.sbi.hasProblems || problems.crn.hasProblems then .error problems
  else .ok identifiers

/-! ### The list -/

/-- Identifiers that are well formed and listed once. -/
def Identifiers.WellFormed (identifiers : Identifiers) : Prop :=
  ∀ kind, (∀ value ∈ identifiers.of kind, satisfiesPattern kind value = true) ∧
    (identifiers.of kind).Nodup

/-- An allow list. -/
@[ext]
structure GrantAllowList where
  grantCode : String
  identifiers : Identifiers
  wellFormed : identifiers.WellFormed

/-- `GrantAllowList.unrestricted`. -/
def GrantAllowList.unrestricted (grantCode : String) : GrantAllowList where
  grantCode := grantCode
  identifiers := ⟨[], []⟩
  wellFormed kind := by cases kind <;> exact ⟨fun _ h ↦ absurd h List.not_mem_nil, List.nodup_nil⟩

/-- `satisfiesRestriction`. -/
def satisfiesRestriction (identifiers : List String) (identifier : String) : Bool :=
  identifiers.isEmpty || (identifier ≠ "" && identifier ∈ identifiers)

/-- `allows`. -/
def GrantAllowList.allows (list : GrantAllowList) (sbi crn : String) : Bool :=
  satisfiesRestriction list.identifiers.sbi sbi && satisfiesRestriction list.identifiers.crn crn

/-! ### What the checks find -/

section
variable {kind : IdentifierKind} {value : String} {values set seen again : List String}

theorem mem_addToSet {other : String} :
    other ∈ addToSet set value ↔ other ∈ set ∨ other = value := by
  unfold addToSet
  split
  · next h => exact ⟨.inl, fun h' ↦ h'.elim id fun heq ↦ heq ▸ h⟩
  · rw [List.mem_append, List.mem_singleton]

theorem mem_foldl_addToSet : value ∈ values.foldl addToSet set ↔ value ∈ set ∨ value ∈ values := by
  induction values generalizing set with
  | nil => simp
  | cons other values ih => rw [List.foldl_cons, ih, mem_addToSet, List.mem_cons, or_assoc]

theorem mem_distinct : value ∈ distinct values ↔ value ∈ values := by
  rw [distinct, mem_foldl_addToSet]
  exact ⟨fun h ↦ h.resolve_left List.not_mem_nil, .inr⟩

theorem mem_invalidValuesIn :
    value ∈ invalidValuesIn kind values ↔ value ∈ values ∧ satisfiesPattern kind value = false := by
  rw [invalidValuesIn, mem_distinct, List.mem_filter, isInvalidIdentifier, Bool.not_eq_true']

/-- Seen again is what was seen before, and what occurs twice. -/
theorem mem_foldl_seeValue : value ∈ (values.foldl seeValue (seen, again)).2 ↔
    value ∈ again ∨ value ∈ seen ∧ value ∈ values ∨ 2 ≤ values.count value := by
  induction values generalizing seen again with
  | nil => simp
  | cons other values ih =>
    rw [List.foldl_cons, seeValue, ih, mem_addToSet, List.mem_cons, List.count_cons]
    have hmem : value ∈ values ↔ 1 ≤ values.count value := List.one_le_count_iff.symm
    by_cases heq : value = other
    · subst heq
      by_cases hseen : value ∈ seen
      · simp [hseen, mem_addToSet]
      · simp only [hseen, if_false, hmem, beq_self_eq_true, if_true]
        constructor
        · rintro (h | ⟨-, h⟩ | h)
          · exact .inl h
          · exact .inr (.inr (by omega))
          · exact .inr (.inr (by omega))
        · rintro (h | ⟨h, -⟩ | h)
          · exact .inl h
          · exact absurd h (by simp)
          · exact .inr (.inl ⟨.inr trivial, by omega⟩)
    · have hne : ¬ (other == value) = true := fun h ↦ heq (eq_of_beq h).symm
      have hagain : value ∈ (if other ∈ seen then addToSet again other else again) ↔
          value ∈ again := by
        split
        · rw [mem_addToSet]
          exact ⟨fun h ↦ h.resolve_right heq, .inl⟩
        · rfl
      rw [hagain, if_neg hne]
      simp only [heq, or_false, false_or, Nat.add_zero]

theorem mem_duplicateValuesIn : value ∈ duplicateValuesIn values ↔ 2 ≤ values.count value := by
  rw [duplicateValuesIn, mem_foldl_seeValue]
  simp

theorem duplicateValuesIn_eq_nil : duplicateValuesIn values = [] ↔ values.Nodup := by
  rw [List.eq_nil_iff_forall_not_mem, List.nodup_iff_count_le_one]
  exact forall_congr' fun value ↦ by rw [mem_duplicateValuesIn, not_le, Nat.lt_succ_iff]

/-- There are no problems with identifiers that are well formed and listed once. -/
theorem hasProblems_eq_false : (identifierProblemsIn kind values).hasProblems = false ↔
    (∀ value ∈ values, satisfiesPattern kind value = true) ∧ values.Nodup := by
  rw [IdentifierProblems.hasProblems, Bool.or_eq_false_iff, Bool.not_eq_false', Bool.not_eq_false',
    List.isEmpty_iff, List.isEmpty_iff, identifierProblemsIn, duplicateValuesIn_eq_nil]
  refine and_congr_left fun _ ↦ ?_
  rw [List.eq_nil_iff_forall_not_mem]
  refine forall_congr' fun value ↦ ?_
  rw [mem_invalidValuesIn, not_and, Bool.not_eq_false]

theorem validate_eq_ok {identifiers valid : Identifiers} :
    validate identifiers = .ok valid ↔ identifiers = valid ∧ identifiers.WellFormed := by
  have hwell : identifiers.WellFormed ↔
      ((problemsIn identifiers).sbi.hasProblems || (problemsIn identifiers).crn.hasProblems) =
        false := by
    rw [Bool.or_eq_false_iff, problemsIn, hasProblems_eq_false, hasProblems_eq_false]
    exact ⟨fun h ↦ ⟨h .sbi, h .crn⟩, fun h kind ↦ by cases kind; exacts [h.1, h.2]⟩
  unfold validate
  dsimp only
  split
  · next hproblems =>
    constructor
    · intro h
      cases h
    · intro h
      rw [hwell.mp h.2] at hproblems
      exact absurd hproblems Bool.false_ne_true
  · next hnone =>
    refine ⟨fun h ↦ ⟨Except.ok.inj h, hwell.mpr (Bool.eq_false_iff.mpr hnone)⟩, fun h ↦ ?_⟩
    rw [h.1]

end

/-- `replaceGlobal`. -/
def GrantAllowList.replaceGlobal (list : GrantAllowList) (identifiers : Identifiers) :
    Except Problems GrantAllowList :=
  match h : validate ⟨normalize identifiers.sbi, normalize identifiers.crn⟩ with
  | .error problems => .error problems
  | .ok valid => .ok ⟨list.grantCode, valid, (validate_eq_ok.mp h).1 ▸ (validate_eq_ok.mp h).2⟩

end FgGas.AllowLists
