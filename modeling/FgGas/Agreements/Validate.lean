import FgGas.Agreements.Definition
import FgGas.Machine.Property

/-!
# Validating an agreement definition

The states, actions and pages of a definition, how `validateAgreementDefinition`
(`src/agreements/models/agreement-definitions/validate.js`) checks the names they refer to each
other by, and how they are looked up (`src/agreements/models/agreement-lifecycle.js`,
`src/agreements/models/require-persisted-agreement-state.js`). The contents of pages and of an
action's validation are of types `P` and `V`. Of the schema only what it asks of this data is
modelled, without the messages Joi lists.
-/

namespace FgGas.Agreements

open Machine

variable {P V : Type}

/-- An action of a state. -/
structure TransitionDefinition (V : Type) where
  target : String
  page : Option String
  validation : Option V
  deriving DecidableEq, Repr

/-- A state of a definition. -/
structure StateDefinition (V : Type) where
  page : Option String
  on : Option (List (String × TransitionDefinition V))
  deriving DecidableEq, Repr

/-- The lifecycle of a definition and its pages. -/
structure LifecycleDefinition (P V : Type) where
  code : String
  createTarget : String
  states : List (String × StateDefinition V)
  pages : List (String × P)
  configVersion : Option String
  deriving DecidableEq, Repr

/-- `state.on ?? {}`. -/
def StateDefinition.transitions (state : StateDefinition V) :
    List (String × TransitionDefinition V) :=
  state.on.getD []

/-! ### The schema -/

/-- The schema's `actionTransition`: a validation needs a page. -/
def TransitionDefinition.wellFormed (action : TransitionDefinition V) : Bool :=
  action.target ≠ "" && action.page.all (· ≠ "") && (action.validation.isNone || action.page.isSome)

/-- The schema's `state`. -/
def StateDefinition.wellFormed (state : StateDefinition V) : Bool :=
  state.page.all (· ≠ "") &&
    state.transitions.all fun (name, action) ↦ name ≠ "" && action.wellFormed

/-- `agreementDefinitionSchema`. The keys of an object are distinct. -/
def LifecycleDefinition.matchesSchema (d : LifecycleDefinition P V) : Bool :=
  d.code ≠ "" && d.createTarget ≠ "" &&
    (d.states.all fun (name, state) ↦ name ≠ "" && state.wellFormed) &&
    "accepted" ∈ d.states.map Prod.fst && !d.pages.isEmpty && d.pages.all (·.1 ≠ "") &&
    (d.states.map Prod.fst).Nodup && (d.pages.map Prod.fst).Nodup &&
    d.states.all fun (_, state) ↦ (state.transitions.map Prod.fst).Nodup

/-! ### References -/

/-- `findPageReferenceErrors`. -/
def findPageReferenceErrors (page : Option String) (path : String) (pages : List (String × P)) :
    List String :=
  match page with
  | none => []
  | some page =>
    if page = "" ∨ (property pages page).isTruthy then []
    else ["\"" ++ path ++ ".page\" (\"" ++ page ++ "\") does not match any key in \"pages\""]

/-- `findActionReferenceErrors`. -/
def findActionReferenceErrors (action : TransitionDefinition V) (path : String)
    (states : List (String × StateDefinition V)) (pages : List (String × P)) : List String :=
  (if (property states action.target).isTruthy then []
    else ["\"" ++ path ++ ".target\" (\"" ++ action.target ++
      "\") does not match any key in \"states\""]) ++
    findPageReferenceErrors action.page path pages

/-- `findStateReferenceErrors`. -/
def findStateReferenceErrors (state : StateDefinition V) (stateName : String)
    (states : List (String × StateDefinition V)) (pages : List (String × P)) : List String :=
  state.transitions.flatMap fun (actionName, action) ↦
    findActionReferenceErrors action ("states." ++ stateName ++ ".on." ++ actionName) states pages

/-- `findReferenceErrors`. -/
def findReferenceErrors (d : LifecycleDefinition P V) : List String :=
  (if (property d.states d.createTarget).isTruthy then []
    else ["\"create.target\" (\"" ++ d.createTarget ++
      "\") does not match any key in \"states\""]) ++
    d.states.flatMap fun (stateName, state) ↦
      findStateReferenceErrors state stateName d.states d.pages

/-- Why a definition is refused: by the schema, or for what it refers to. -/
inductive DefinitionError
  | schema (code : String)
  | references (message : String)
  deriving DecidableEq, Repr

/-- `validateAgreementDefinition`. The platform's `configVersion` is set aside and put back; a
definition is validated once. -/
def validateAgreementDefinition (d : LifecycleDefinition P V) :
    Except DefinitionError (LifecycleDefinition P V) := do
  require d.matchesSchema (.schema d.code)
  require (findReferenceErrors d).isEmpty (.references ("Invalid agreement definition \"" ++
    d.code ++ "\": " ++ ", ".intercalate (findReferenceErrors d)))
  return d

/-! ### Lookups -/

/-- `requirePersistedAgreementState`. What is inherited has neither a page nor actions. -/
def requirePersistedAgreementState (d : LifecycleDefinition P V) (state : String) :
    Except Refusal (StateDefinition V) :=
  match property d.states state with
  | .own definition => .ok definition
  | .inherited => .ok ⟨none, none⟩
  | .undefined => .error (.other
      (if d.code = "" then "Agreement lifecycle has unknown persisted state \"" ++ state ++ "\""
      else "Agreement code \"" ++ d.code ++ "\" has unknown persisted state \"" ++ state ++ "\""))

/-- `AgreementAction`. -/
structure AgreementAction (V : Type) where
  from_ : String
  name : String
  page : Option String
  target : String
  validation : Option V
  deriving DecidableEq, Repr

/-- `resolveAction`. The action must be the state's own. -/
def LifecycleDefinition.resolveAction (d : LifecycleDefinition P V) (state actionName : String) :
    Except Refusal (AgreementAction V) := do
  let definition ← requirePersistedAgreementState d state
  match property definition.transitions actionName with
  | .own action =>
      pure ⟨state, actionName, action.page, action.target, action.validation⟩
  | _ => throw (invalidAgreementTransition state actionName
      (definition.transitions.map Prod.fst))

/-- `collectAllowedPages`. -/
def collectAllowedPages (state : StateDefinition V) : List String :=
  (state.page :: state.transitions.map fun (_, action) ↦ action.page).filterMap fun page ↦
    page.filter (· ≠ "")

/-- `assertPageAllowed`. -/
def LifecycleDefinition.assertPageAllowed (d : LifecycleDefinition P V) (page state : String) :
    Except Refusal Unit :=
  match property d.states state with
  | .undefined => .error (.other ("Unknown state \"" ++ state ++ "\" for agreement code \"" ++
      d.code ++ "\""))
  | .inherited => check ⟨none, none⟩
  | .own definition => check definition
where
  check (definition : StateDefinition V) : Except Refusal Unit :=
    require (page ∈ collectAllowedPages definition) (.other ("Page \"" ++ page ++
      "\" is not valid for agreement code \"" ++ d.code ++ "\" in state \"" ++ state ++ "\""))

/-! ### What validation establishes -/

section
variable {d d' : LifecycleDefinition P V} {page path name : String} {pages : List (String × P)}
  {states : List (String × StateDefinition V)}

/-- A page that is named is found, if only by inheritance. -/
theorem findPageReferenceErrors_eq_nil (hname : page ≠ "") :
    findPageReferenceErrors (some page) path pages = [] ↔
      page ∈ pages.map Prod.fst ∨ page ∈ objectPrototype := by
  rw [findPageReferenceErrors, ← property_isTruthy]
  by_cases h : (property pages page).isTruthy = true
  · simp [h]
  · simp [h, hname]

theorem findActionReferenceErrors_eq_nil {action : TransitionDefinition V} :
    findActionReferenceErrors action path states pages = [] ↔
      (action.target ∈ states.map Prod.fst ∨ action.target ∈ objectPrototype) ∧
        findPageReferenceErrors action.page path pages = [] := by
  rw [findActionReferenceErrors, List.append_eq_nil_iff, ← property_isTruthy]
  by_cases h : (property states action.target).isTruthy = true <;> simp [h]

/-- A definition that is validated is the one given; its targets and its actions' pages are
found, if only by inheritance. -/
theorem validateAgreementDefinition_eq_ok : validateAgreementDefinition d = .ok d' ↔
    d = d' ∧ d.matchesSchema = true ∧
      (d.createTarget ∈ d.states.map Prod.fst ∨ d.createTarget ∈ objectPrototype) ∧
      ∀ s ∈ d.states, ∀ a ∈ s.2.transitions,
        (a.2.target ∈ d.states.map Prod.fst ∨ a.2.target ∈ objectPrototype) ∧
          findPageReferenceErrors a.2.page ("states." ++ s.1 ++ ".on." ++ a.1) d.pages = [] := by
  have hreferences : findReferenceErrors d = [] ↔
      (d.createTarget ∈ d.states.map Prod.fst ∨ d.createTarget ∈ objectPrototype) ∧
      ∀ s ∈ d.states, ∀ a ∈ s.2.transitions,
        (a.2.target ∈ d.states.map Prod.fst ∨ a.2.target ∈ objectPrototype) ∧
          findPageReferenceErrors a.2.page ("states." ++ s.1 ++ ".on." ++ a.1) d.pages = [] := by
    rw [findReferenceErrors, List.append_eq_nil_iff, ← property_isTruthy,
      List.flatMap_eq_nil_iff]
    refine and_congr ?_ (forall₂_congr fun s _ ↦ ?_)
    · by_cases h : (property d.states d.createTarget).isTruthy = true <;> simp [h]
    · change findStateReferenceErrors s.2 s.1 d.states d.pages = [] ↔ _
      rw [findStateReferenceErrors, List.flatMap_eq_nil_iff]
      exact forall₂_congr fun a _ ↦ findActionReferenceErrors_eq_nil
  rw [← hreferences, validateAgreementDefinition, andThen_eq_ok, andThen_eq_ok, require_eq_ok,
    require_eq_ok, List.isEmpty_iff]
  constructor
  · rintro ⟨hschema, hnone, heq⟩
    exact ⟨Except.ok.inj heq, hschema, hnone⟩
  · rintro ⟨rfl, hschema, hnone⟩
    exact ⟨hschema, hnone, rfl⟩

/-- A page the schema lets an action name is a name. -/
theorem page_ne_empty (hschema : d.matchesSchema = true) {s : String × StateDefinition V}
    (hs : s ∈ d.states) {a : String × TransitionDefinition V} (ha : a ∈ s.2.transitions)
    (hpage : a.2.page = some page) : page ≠ "" := by
  have hstates : (d.states.all fun (name, state) ↦ name ≠ "" && state.wellFormed) = true := by
    simp only [LifecycleDefinition.matchesSchema, Bool.and_eq_true] at hschema
    tauto
  have hstate : s.2.wellFormed = true := (Bool.and_eq_true_iff.mp
    (List.all_eq_true.mp hstates s hs)).2
  have haction : a.2.wellFormed = true := (Bool.and_eq_true_iff.mp
    (List.all_eq_true.mp (Bool.and_eq_true_iff.mp hstate).2 a ha)).2
  have hname := (Bool.and_eq_true_iff.mp (Bool.and_eq_true_iff.mp haction).1).2
  rw [hpage] at hname
  simpa using hname

end

/-! ### Where an agreement can get -/

/-- The states an agreement can get to. -/
inductive LifecycleDefinition.Reachable (d : LifecycleDefinition P V) : String → Prop
  | create : d.Reachable d.createTarget
  | action {state actionName : String} {action : AgreementAction V} (h : d.Reachable state)
      (haction : d.resolveAction state actionName = .ok action) : d.Reachable action.target

/-- A state names a page. -/
def LifecycleDefinition.StateNames (d : LifecycleDefinition P V) (page : String) : Prop :=
  ∃ s ∈ d.states, s.2.page = some page

/-- An action names a page. -/
def LifecycleDefinition.ActionNames (d : LifecycleDefinition P V) (page : String) : Prop :=
  ∃ s ∈ d.states, ∃ a ∈ s.2.transitions, a.2.page = some page

/-- Agreements only get to states and pages that exist. -/
structure LifecycleDefinition.Sound (d : LifecycleDefinition P V) : Prop where
  declared : ∀ state, d.Reachable state → state ∈ d.states.map Prod.fst
  persisted : ∀ state, d.Reachable state →
    ∃ definition, requirePersistedAgreementState d state = .ok definition
  statePages : ∀ page, d.StateNames page → page ∈ d.pages.map Prod.fst
  actionPages : ∀ page, d.ActionNames page → page ∈ d.pages.map Prod.fst

/-- No name that is only inherited is referred to on the way, and states name pages there are. -/
structure LifecycleDefinition.RefersToOwn (d : LifecycleDefinition P V) : Prop where
  targets : ∀ state, d.Reachable state → state ∈ objectPrototype →
    state ∈ d.states.map Prod.fst
  actionPages : ∀ page, d.ActionNames page → page ∈ objectPrototype →
    page ∈ d.pages.map Prod.fst
  statePages : ∀ page, d.StateNames page → page ∈ d.pages.map Prod.fst

section
variable {d d' : LifecycleDefinition P V} {state : String}

/-- A step of the lifecycle follows an action of a declared state. -/
theorem resolveAction_target {actionName : String} {action : AgreementAction V}
    (h : d.resolveAction state actionName = .ok action) :
    ∃ s ∈ d.states, ∃ a ∈ s.2.transitions, a.2.target = action.target := by
  obtain ⟨definition, hdefinition, haction⟩ := bind_eq_ok.mp h
  have hdeclared : ∀ a ∈ definition.transitions, (state, definition) ∈ d.states := by
    intro a ha
    unfold requirePersistedAgreementState at hdefinition
    split at hdefinition
    · rename_i own hown
      obtain rfl := Except.ok.inj hdefinition
      exact mem_of_own hown
    · obtain rfl := Except.ok.inj hdefinition
      exact absurd ha List.not_mem_nil
    · cases hdefinition
  split at haction
  · rename_i own hown
    obtain rfl := Except.ok.inj haction
    have hmem := mem_of_own hown
    exact ⟨_, hdeclared _ hmem, _, hmem, rfl⟩
  · cases haction

/-- In a validated definition every state reached is declared or inherited. -/
theorem Reachable.found (hvalid : validateAgreementDefinition d = .ok d')
    (h : d.Reachable state) : state ∈ d.states.map Prod.fst ∨ state ∈ objectPrototype := by
  obtain ⟨_, _, hcreate, hactions⟩ := validateAgreementDefinition_eq_ok.mp hvalid
  cases h with
  | create => exact hcreate
  | action _ haction =>
    obtain ⟨s, hs, a, ha, htarget⟩ := resolveAction_target haction
    exact htarget ▸ (hactions s hs a ha).1

/-- Looking up a declared state succeeds. -/
theorem requirePersistedAgreementState_declared (h : state ∈ d.states.map Prod.fst) :
    ∃ definition, requirePersistedAgreementState d state = .ok definition := by
  obtain ⟨definition, _, hown⟩ := exists_own h
  exact ⟨definition, by rw [requirePersistedAgreementState, hown]⟩

end

/-- In a sound definition the pages allowed in a state exist. -/
theorem LifecycleDefinition.Sound.allowed {d : LifecycleDefinition P V} (h : d.Sound)
    {page state : String} (hallowed : d.assertPageAllowed page state = .ok ()) :
    page ∈ d.pages.map Prod.fst := by
  unfold LifecycleDefinition.assertPageAllowed at hallowed
  split at hallowed
  · cases hallowed
  · cases of_decide_eq_true (require_eq_ok.mp hallowed)
  · rename_i definition hown
    have hstate := mem_of_own hown
    have hmem : page ∈ collectAllowedPages definition :=
      of_decide_eq_true (require_eq_ok.mp hallowed)
    obtain ⟨named, hnamed, hpage⟩ := List.mem_filterMap.mp hmem
    obtain rfl : named = some page := (Option.filter_eq_some_iff.mp hpage).1
    rcases List.mem_cons.mp hnamed with hown | haction
    · exact h.statePages page ⟨_, hstate, hown.symm⟩
    · obtain ⟨action, haction, hname⟩ := List.mem_map.mp haction
      exact h.actionPages page ⟨_, hstate, action, haction, hname⟩

/-! ### Names that are inherited -/

/-- A definition that starts in a state no one declares. -/
def inheritedTarget : LifecycleDefinition Unit Unit where
  code := "frps-private-beta"
  createTarget := "constructor"
  states := [("accepted", ⟨none, none⟩)]
  pages := [("offer", ())]
  configVersion := none

/-- A definition whose first state has a page no one declares. -/
def undeclaredStatePage : LifecycleDefinition Unit Unit where
  code := "frps-private-beta"
  createTarget := "offered"
  states := [("offered", ⟨some "review", some [("accept", ⟨"accepted", none, none⟩)]⟩),
    ("accepted", ⟨none, none⟩)]
  pages := [("offer", ())]
  configVersion := none

/-- A definition whose states and pages all exist. -/
def offerDefinition : LifecycleDefinition Unit Unit :=
  { undeclaredStatePage with
    states := [("offered", ⟨some "offer", some [("accept", ⟨"accepted", some "offer", none⟩)]⟩),
      ("accepted", ⟨none, none⟩)] }

/-- A validated definition keeps agreements to states and pages that exist exactly when it
refers to no name that is only inherited, and its states to pages there are. -/
theorem validated_sound_iff {d d' : LifecycleDefinition P V}
    (h : validateAgreementDefinition d = .ok d') : d'.Sound ↔ d'.RefersToOwn := by
  obtain ⟨rfl, hschema, _, hactions⟩ := validateAgreementDefinition_eq_ok.mp h
  constructor
  · exact fun hsound ↦ ⟨fun state hstate _ ↦ hsound.declared state hstate,
      fun page hpage _ ↦ hsound.actionPages page hpage, hsound.statePages⟩
  · intro hown
    have hdeclared : ∀ state, d.Reachable state → state ∈ d.states.map Prod.fst :=
      fun state hstate ↦ (Reachable.found h hstate).elim id (hown.targets state hstate)
    refine ⟨hdeclared, fun state hstate ↦
      requirePersistedAgreementState_declared (hdeclared state hstate), hown.statePages,
      fun page hpage ↦ ?_⟩
    obtain ⟨s, hs, a, ha, hnamed⟩ := hpage
    have hfound := (hactions s hs a ha).2
    rw [hnamed, findPageReferenceErrors_eq_nil (page_ne_empty hschema hs ha hnamed)] at hfound
    exact hfound.elim id (hown.actionPages page ⟨s, hs, a, ha, hnamed⟩)

/-- The offer's definition is one. -/
theorem validated_sound_iff_offer : offerDefinition.Sound ↔ offerDefinition.RefersToOwn :=
  validated_sound_iff (rfl : validateAgreementDefinition offerDefinition = .ok offerDefinition)

/-- Validation lets through a target that is only inherited, and a state's page that does not
exist. -/
theorem validation_misses_undeclared :
    (validateAgreementDefinition inheritedTarget = .ok inheritedTarget ∧
      ¬ inheritedTarget.Sound) ∧
    validateAgreementDefinition undeclaredStatePage = .ok undeclaredStatePage ∧
      ¬ undeclaredStatePage.Sound := by
  refine ⟨⟨rfl, fun hsound ↦ ?_⟩, rfl, fun hsound ↦ ?_⟩
  · exact absurd (hsound.declared "constructor" .create) (by decide)
  · exact absurd (hsound.statePages "review" ⟨_, List.mem_cons_self, rfl⟩) (by decide)

end FgGas.Agreements
