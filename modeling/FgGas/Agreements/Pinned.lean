import FgGas.Agreements.CarriedValues
import FgGas.Agreements.Definition

/-!
# The definition an agreement was accepted under

An action is executed under the definition that is loaded for its agreement, and that is a
later one as long as the agreement is not accepted. From its acceptance on the definition is
looked up by its exact version, so that whatever transitions follow set the version that was
there. The rest of what never changes a transition carries over, or maps and compares.
-/

namespace FgGas.Agreements

open Machine

variable {A P O : Type}

/-- What no action changes. -/
structure Agreement.KeptBy (a b : Agreement (Contents A P)) : Prop where
  agreementNumber : b.agreementNumber = a.agreementNumber
  code : b.code = a.code
  clientRef : b.clientRef = a.clientRef
  correlationId : b.correlationId = a.correlationId
  sbi : b.sbi = a.sbi
  identifiers : b.values.identifiers = a.values.identifiers
  createdAt : b.createdAt = a.createdAt
  schemeCode : b.values.values.schemeCode = a.values.values.schemeCode
  name : b.values.values.name = a.values.values.name
  applicant : b.values.values.applicant = a.values.values.applicant
  application : b.values.values.application = a.values.values.application

section
variable {a b c : Agreement (Contents A P)}

theorem Agreement.KeptBy.refl (a : Agreement (Contents A P)) : a.KeptBy a :=
  ⟨rfl, rfl, rfl, rfl, rfl, rfl, rfl, rfl, rfl, rfl, rfl⟩

theorem Agreement.KeptBy.trans (hab : a.KeptBy b) (hbc : b.KeptBy c) : a.KeptBy c where
  agreementNumber := hbc.agreementNumber.trans hab.agreementNumber
  code := hbc.code.trans hab.code
  clientRef := hbc.clientRef.trans hab.clientRef
  correlationId := hbc.correlationId.trans hab.correlationId
  sbi := hbc.sbi.trans hab.sbi
  identifiers := hbc.identifiers.trans hab.identifiers
  createdAt := hbc.createdAt.trans hab.createdAt
  schemeCode := hbc.schemeCode.trans hab.schemeCode
  name := hbc.name.trans hab.name
  applicant := hbc.applicant.trans hab.applicant
  application := hbc.application.trans hab.application

end

/-! ### What is loaded -/

section
variable {o : LoadOptions} {outsides : List (LoadOutside A P O)} {outside : LoadOutside A P O}
  {target : DefinitionTarget} {c : CompiledDefinition A P O}

/-- A definition has the version it was compiled under. -/
theorem CompiledDefinition.configVersion_eq (c : CompiledDefinition A P O) :
    c.definition.configVersion = c.version := by
  obtain ⟨raw, h⟩ := c.compiled
  obtain ⟨_, h⟩ := andThen_eq_ok.mp h
  obtain ⟨_, h⟩ := andThen_eq_ok.mp h
  obtain ⟨_, h⟩ := andThen_eq_ok.mp h
  rw [← Except.ok.inj h]

theorem load_version (h : load outside target = .ok c) : c.version = target.version := by
  obtain ⟨_, h⟩ := andThen_eq_ok.mp h
  obtain ⟨raw, _, h⟩ := bind_eq_ok.mp h
  split at h
  · cases h
  · obtain ⟨_, h⟩ := andThen_eq_ok.mp h
    cases h
    rfl

/-- A definition that is loaded for a target is of the target's version. -/
theorem loadCompiled_version (h : loadCompiled outside target = .ok c) :
    c.version = target.version := by
  unfold loadCompiled at h
  split at h
  · next hcached =>
    cases h
    have hkey := List.find?_some hcached
    exact (of_decide_eq_true hkey).2
  · exact load_version h

/-- The target of an exact resolution has the version that is asked for. -/
theorem resolveTarget_exact {catalogue : List ConfigVersion} (hexact : o.resolution = .exact)
    (h : resolveTarget catalogue o = .ok target) : target.version = o.configVersion := by
  obtain ⟨found, hfound, h⟩ := bind_eq_ok.mp h
  rw [findTarget, hexact] at hfound
  cases hfound
  split at h
  · next target' htarget =>
    cases h
    obtain ⟨v, hv, hdefinition⟩ := Option.bind_eq_some_iff.mp htarget
    obtain ⟨file, _, rfl⟩ := Option.map_eq_some_iff.mp hdefinition
    have hkey := List.find?_some hv
    exact (of_decide_eq_true hkey).2
  · cases h

/-- What an exact resolution loads is of the version that is asked for. -/
theorem loadAgreementDefinition_exact (hexact : o.resolution = .exact)
    {attempted : List (String × String)}
    (h : loadAgreementDefinition o attempted outsides = some (.ok c)) :
    c.version = o.configVersion := by
  induction outsides generalizing attempted with
  | nil => cases h
  | cons outside later ih =>
    unfold loadAgreementDefinition at h
    split at h
    · cases h
    · next target htarget =>
      split at h
      · cases h
      · split at h
        · next hloaded =>
          cases h
          exact (loadCompiled_version hloaded).trans (resolveTarget_exact hexact htarget)
        · split at h
          · exact ih h
          · cases h

/-- The definition loaded for an agreement that was accepted is of the version it has. -/
theorem loadDefinitionForAgreement_accepted {a : Agreement (Contents A P)} {acceptedAt : String}
    (haccepted : a.acceptedAt = some acceptedAt) (hmoment : acceptedAt ≠ "")
    (h : loadDefinitionForAgreement a outsides = some (.ok c)) :
    c.definition.configVersion = a.configVersion := by
  rw [c.configVersion_eq]
  exact loadAgreementDefinition_exact (by simp [haccepted, hmoment]) h

end

/-! ### What an action does -/

section
variable [DecidableEq A] [DecidableEq P] {a b : Agreement (Contents A P)}

/-- A transition leaves what its schema and its mapping may not change, and makes the next
version. -/
theorem transitionStep_kept {l : TransitionCall A P} (h : transitionStep a l = some b) :
    a.KeptBy b := by
  obtain ⟨values, htransitions, rfl⟩ := transitionStep_eq_some h
  cases htransitions with
  | unmapped _ => constructor <;> rfl
  | mapped _ hresolved =>
    obtain ⟨m, paymentSchedule, rfl⟩ := hresolved.materialised.shape
    -- a field the mapping leaves out is carried over, and one it has is the agreement's
    have hor : ∀ {β : Type} {x y : Option β}, x = y → x.or y = y := by
      rintro β x y rfl
      exact Option.or_self
    exact
      { Agreement.KeptBy.refl a with
        schemeCode := hor hresolved.schemeCode
        name := hor hresolved.name
        applicant := hor hresolved.applicant
        application := hresolved.application }

/-- An action is a transition under the definition that is loaded, and sets its version where
it accepts the agreement. -/
theorem actionStep_eq_some {l : ActionCall A P O} (h : actionStep a l = some b) :
    ∃ c call, loadDefinitionForAgreement a l.outsides = some (.ok c) ∧
      transitionStep a call = some b ∧ call.transitionedAt = l.executedAt.text ∧
      call.configVersion =
        if call.target = "accepted" then some c.definition.configVersion else none := by
  obtain ⟨x, hx, rfl⟩ := Option.map_eq_some_iff.mp h
  unfold ActionCall.execution at hx
  split at hx
  · next c hloaded =>
    have hx' := toOption_eq_some.mp hx
    obtain ⟨actionName, _, hx'⟩ := bind_eq_ok.mp hx'
    obtain ⟨transition, _, hx'⟩ := bind_eq_ok.mp hx'
    obtain ⟨result, _, hx'⟩ := bind_eq_ok.mp hx'
    obtain ⟨candidate, _, hx'⟩ := bind_eq_ok.mp hx'
    obtain ⟨values, hvalues, hx'⟩ := bind_eq_ok.mp hx'
    cases hx'
    refine ⟨c, ⟨c.definition.code, transition.target, l.executedAt.text, candidate,
      if transition.target = "accepted" then some c.definition.configVersion else none⟩, hloaded,
      ?_, rfl, rfl⟩
    have hvalues' := mapError_ok_iff.mp hvalues
    unfold transitionStep
    rw [hvalues']
  · cases hx

/-- An action makes the next version. -/
theorem actionStep_version {l : ActionCall A P O} (h : actionStep a l = some b) :
    b.version = a.version + 1 := by
  obtain ⟨c, call, _, htransition, _⟩ := actionStep_eq_some h
  obtain ⟨values, _, rfl⟩ := transitionStep_eq_some htransition
  rfl

/-- An action sets another version of the definition only where it accepts the agreement. -/
theorem actionStep_configVersion {l : ActionCall A P O} (h : actionStep a l = some b)
    (hchanged : b.configVersion ≠ a.configVersion) : b.state = "accepted" := by
  obtain ⟨c, call, _, htransition, _, hversion⟩ := actionStep_eq_some h
  obtain ⟨values, _, rfl⟩ := transitionStep_eq_some htransition
  by_cases htarget : call.target = "accepted"
  · exact htarget
  · refine absurd ?_ hchanged
    change call.configVersion.getD a.configVersion = a.configVersion
    rw [hversion, if_neg htarget, Option.getD_none]

/-- An action leaves the acceptance of an agreement that was accepted, and the version of its
definition. -/
theorem actionStep_accepted {l : ActionCall A P O} {acceptedAt : String}
    (haccepted : a.acceptedAt = some acceptedAt) (hmoment : acceptedAt ≠ "")
    (h : actionStep a l = some b) :
    b.acceptedAt = a.acceptedAt ∧ b.configVersion = a.configVersion := by
  obtain ⟨c, call, hloaded, htransition, _, hversion⟩ := actionStep_eq_some h
  obtain ⟨values, _, rfl⟩ := transitionStep_eq_some htransition
  constructor
  · change resolveAcceptedAt a call.target call.transitionedAt = a.acceptedAt
    rw [resolveAcceptedAt, haccepted]
    rfl
  · change call.configVersion.getD a.configVersion = a.configVersion
    rw [hversion, loadDefinitionForAgreement_accepted haccepted hmoment hloaded]
    split <;> rfl

/-- An acceptance an action records is a moment. -/
theorem actionStep_moment {l : ActionCall A P O} (ha : a.acceptedAt ≠ some "")
    (h : actionStep a l = some b) : b.acceptedAt ≠ some "" := by
  cases haccepted : a.acceptedAt with
  | some acceptedAt =>
    have hmoment : acceptedAt ≠ "" := by
      rintro rfl
      exact ha haccepted
    rw [(actionStep_accepted haccepted hmoment h).1]
    exact ha
  | none =>
    obtain ⟨c, call, _, htransition, hat, _⟩ := actionStep_eq_some h
    obtain ⟨values, _, rfl⟩ := transitionStep_eq_some htransition
    change resolveAcceptedAt a call.target call.transitionedAt ≠ some ""
    rw [resolveAcceptedAt, haccepted, hat]
    by_cases htarget : call.target = "accepted"
    · simpa [htarget] using l.executedAt.nonempty
    · simp [htarget]

end

/-! ### Runs -/

section
variable [DecidableEq A] [DecidableEq P] {a b : Agreement (Contents A P)}
  {ls : List (ActionCall A P O)}

/-- Actions that are executed one after another are transitions one after another. -/
theorem transitions_of_run (h : Run actionStep anyStep a ls b) :
    ∃ calls, calls.length = ls.length ∧ Run transitionStep anyStep a calls b := by
  induction h with
  | nil => exact ⟨[], rfl, .nil⟩
  | snoc _ _ hstep ih =>
    obtain ⟨calls, hlength, hrun⟩ := ih
    obtain ⟨c, call, _, htransition, _⟩ := actionStep_eq_some hstep
    exact ⟨calls ++ [call], by simp [hlength], .snoc hrun trivial htransition⟩

/-- However many transitions there are, each makes one version and keeps what none changes. -/
theorem kept_of_transitions {calls : List (TransitionCall A P)}
    (h : Run transitionStep anyStep a calls b) :
    b.version = a.version + calls.length ∧ a.KeptBy b := by
  refine h.invariant_labels (fun calls b ↦ b.version = a.version + calls.length ∧ a.KeptBy b)
    ⟨rfl, Agreement.KeptBy.refl a⟩ ?_
  intro calls b call c ⟨hversion, hkept⟩ _ hstep
  refine ⟨?_, hkept.trans (transitionStep_kept hstep)⟩
  obtain ⟨values, _, rfl⟩ := transitionStep_eq_some hstep
  rw [List.length_append, List.length_singleton, ← Nat.add_assoc, ← hversion]
  rfl

/-- Every agreement that is created is accepted at a moment, if at all. -/
theorem moment_of_run (ha : a.acceptedAt = none) (h : Run actionStep anyStep a ls b) :
    b.acceptedAt ≠ some "" := by
  refine h.invariant (fun b ↦ b.acceptedAt ≠ some "") ?_ fun _ _ _ hb _ hstep ↦
    actionStep_moment hb hstep
  rw [ha]
  exact Option.some_ne_none "" |>.symm

/-- Whatever is executed later, an acceptance and the version that was accepted stay. -/
theorem accepted_of_run {acceptedAt : String} (haccepted : a.acceptedAt = some acceptedAt)
    (hmoment : acceptedAt ≠ "") (h : Run actionStep anyStep a ls b) :
    b.acceptedAt = a.acceptedAt ∧ b.configVersion = a.configVersion := by
  refine h.invariant
    (fun b ↦ b.acceptedAt = a.acceptedAt ∧ b.configVersion = a.configVersion) ⟨rfl, rfl⟩ ?_
  intro b l c ⟨hat, hversion⟩ _ hstep
  obtain ⟨hat', hversion'⟩ := actionStep_accepted (hat.trans haccepted) hmoment hstep
  exact ⟨hat'.trans hat, hversion'.trans hversion⟩

end

/-- Of an agreement that was created, under whatever definitions its actions are executed: each
action makes the next version, and sets another version of the definition only where it accepts
the agreement; once the agreement is accepted, its acceptance and that version stay; and what
identifies it and what was applied for never changes. -/
theorem accepted_definition_pinned [DecidableEq A] [DecidableEq P]
    {agreementNumber code clientRef configVersion correlationId sbi state createdAt : String}
    {k : Contents A P} {a b : Agreement (Contents A P)} {ls ls' : List (ActionCall A P O)}
    (ha : Run actionStep anyStep (Agreement.create agreementNumber code clientRef configVersion
      correlationId sbi k state createdAt) ls a)
    (hb : Run actionStep anyStep a ls' b) :
    b.version = a.version + ls'.length ∧ a.KeptBy b ∧
    (a.acceptedAt ≠ none → b.acceptedAt = a.acceptedAt ∧ b.configVersion = a.configVersion) ∧
    ∀ (l : ActionCall A P O) c, actionStep b l = some c → c.version = b.version + 1 ∧
      (c.configVersion ≠ b.configVersion → c.state = "accepted") := by
  obtain ⟨calls, hlength, htransitions⟩ := transitions_of_run hb
  obtain ⟨hversion, hkept⟩ := kept_of_transitions htransitions
  refine ⟨hlength ▸ hversion, hkept, ?_, ?_⟩
  · intro haccepted
    obtain ⟨acceptedAt, hat⟩ := Option.ne_none_iff_exists'.mp haccepted
    have hmoment : acceptedAt ≠ "" := by
      rintro rfl
      exact moment_of_run rfl ha hat
    exact accepted_of_run hat hmoment hb
  · intro l c hstep
    exact ⟨actionStep_version hstep, actionStep_configVersion hstep⟩

/-! ### An agreement that is revised under a later definition -/

/-- A definition that accepts an agreement and lets it be revised. -/
def uplandRaw : RawDefinition Unit Unit Unit where
  code := "upland"
  configVersion := none
  states := [("offered", [("accept", ⟨"accepted", none⟩)]),
    ("accepted", [("revise", ⟨"accepted", none⟩)])]
  checks := .ok ()

/-- A published version of it. -/
def uplandVersion (version : String) (minor : Nat) : ConfigVersion where
  grantCode := "upland"
  version := version
  active := true
  major := 1
  minor := minor
  patch := 0
  definition := some ⟨some "upland/agreement.json", .pending⟩

/-- An action executed while a catalogue has been published. -/
def uplandCall (actionName executedAt : String) (hmoment : executedAt ≠ "")
    (catalogue : List ConfigVersion) : ActionCall Unit Unit Unit where
  request := .action ⟨actionName, "UPL1", none, "key", "defra", "106284736"⟩
  executedAt := ⟨executedAt, hmoment⟩
  outsides := [⟨catalogue, [], fun _ ↦ .ok uplandRaw, .ok ()⟩]
  processes := .ok ((), [])

/-- The acceptance of the agreement, under the latest version there is. -/
def uplandAccept : ActionCall Unit Unit Unit :=
  uplandCall "accept" "t1" (by decide) [uplandVersion "1.0.0" 0, uplandVersion "1.1.0" 1]

/-- Its revision, which is an acceptance again, once there is a later version. -/
def uplandRevise : ActionCall Unit Unit Unit :=
  uplandCall "revise" "t2" (by decide)
    [uplandVersion "1.0.0" 0, uplandVersion "1.1.0" 1, uplandVersion "1.2.0" 2]

/-- The agreement once it is accepted. -/
def uplandPinned : Agreement (Contents Unit Unit) :=
  uplandAgreement.reloaded.transition "accepted" "t1" (Contents.transition none) (some "1.1.0")

/-- The agreement keeps the version it was accepted under. -/
theorem accepted_definition_pinned_revised :
    actionStep uplandAgreement uplandAccept = some uplandPinned ∧
    ∃ a, actionStep uplandPinned uplandRevise = some a ∧ a.state = "accepted" ∧
      a.acceptedAt = some "t1" ∧ a.configVersion = "1.1.0" := by
  have haccept : actionStep uplandAgreement uplandAccept = some uplandPinned := rfl
  refine ⟨haccept, _, rfl, rfl, ?_⟩
  have hrevise : Run actionStep anyStep uplandPinned [uplandRevise] _ :=
    .snoc (l := uplandRevise) .nil trivial rfl
  exact (accepted_definition_pinned (.snoc .nil trivial haccept) hrevise).2.2.1 (by decide)

end FgGas.Agreements
