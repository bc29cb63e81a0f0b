import FgGas.Grants.Definition

/-!
# What publication establishes

The checks of `Grant.fromDefinition` are a second reading of the definition, beside the
lookups that move an application. What they establish is taken together here, and from it
follows that every lookup of a published grant is sound.
-/

namespace FgGas.Grants

open Machine

variable {Q : Type} {deps : Dependencies Q} {d : GrantDefinition Q} {g : Grant}

/-- The positions a template names: where it is available and where it is claimable. -/
def EntitlementTemplate.declaredPositions (t : EntitlementTemplate) : List TemplatePosition :=
  t.availableAt ++ t.claim.elim [] (·.claimableAt)

/-- What the checks of a published definition establish about its grant. -/
structure Published (deps : Dependencies Q) (d : GrantDefinition Q) : Prop where
  schema : d.matchesSchema = true
  templates : ∀ t ∈ d.grant.entitlementTemplates, ∀ p ∈ t.declaredPositions,
    d.grant.positionExists p = true
  approval : ∀ o, d.grant.onClaimApproval = some o →
    d.grant.positionExists o.currentPosition.toTemplatePosition = true ∧
    d.grant.positionExists o.targetPosition.toTemplatePosition = true ∧
    (o.currentPosition.fullyQualified = o.targetPosition.fullyQualified ∨
      (d.grant.isValidTransition o.targetPosition o.currentPosition.fullyQualified).isSome)
  phases : (d.grant.phases.map (·.code)).Nodup
  stages : ∀ phase ∈ d.grant.phases, (phase.stages.map (·.code)).Nodup
  statuses : ∀ phase ∈ d.grant.phases, ∀ stage ∈ phase.stages,
    (stage.statuses.map (·.code)).Nodup
  processes : ∀ phase ∈ d.grant.phases, ∀ stage ∈ phase.stages, ∀ status ∈ stage.statuses,
    ∀ name ∈ status.processesOnEntering, deps.isKnownProcess name = true
  validFrom : ∀ phase ∈ d.grant.phases, ∀ stage ∈ phase.stages, ∀ status ∈ stage.statuses,
    ∀ entry ∈ status.validFrom, ∃ p ∈ d.grant.positions, entry.matchesPosition p.fullyQualified
  targets : ∀ m ∈ d.grant.mappings, d.grant.has m.target = true
  amendable : ∀ written ∈ d.amendablePositions, d.grant.has (Position.parse written) = true

/-! ### The checks one by one -/

theorem assertUniqueCodes_eq_ok {codes : List String} {describe : String → String} :
    assertUniqueCodes codes describe = .ok () ↔ codes.Nodup := by
  have hnone := @firstRepeated_eq_none _ _ [] codes
  simp only [List.not_mem_nil, not_false_eq_true, implies_true, and_true] at hnone
  unfold assertUniqueCodes
  cases h : firstRepeated [] codes with
  | none => simpa [h] using hnone
  | some code => simpa [h] using hnone

theorem assertStatus_eq_ok {position : Position} {status : StatusDefinition}
    (h : assertStatus deps position status = .ok ()) :
    ∀ name ∈ status.processesOnEntering, deps.isKnownProcess name = true := by
  unfold assertStatus at h
  obtain ⟨_, h⟩ := andThen_eq_ok.mp h
  cases hfind : status.processesOnEntering.find? (!deps.isKnownProcess ·) with
  | none => simpa using hfind
  | some unknown => simp [hfind] at h

theorem assertStage_eq_ok {phaseCode : String} {stage : Stage}
    (h : assertStage deps phaseCode stage = .ok ()) :
    (stage.statuses.map (·.code)).Nodup ∧ ∀ status ∈ stage.statuses,
      ∀ name ∈ status.processesOnEntering, deps.isKnownProcess name = true := by
  obtain ⟨hcodes, hstatuses⟩ := andThen_eq_ok.mp h
  exact ⟨assertUniqueCodes_eq_ok.mp hcodes,
    fun status hs ↦ assertStatus_eq_ok (forM_eq_ok.mp hstatuses status hs)⟩

theorem assertPhase_eq_ok {phase : DefinitionPhase Q} (h : assertPhase deps phase = .ok ()) :
    (phase.stages.map (·.code)).Nodup ∧ ∀ stage ∈ phase.stages,
      assertStage deps phase.code stage = .ok () := by
  obtain ⟨hcodes, h⟩ := andThen_eq_ok.mp h
  obtain ⟨hstages, _⟩ := andThen_eq_ok.mp h
  exact ⟨assertUniqueCodes_eq_ok.mp hcodes, forM_eq_ok.mp hstages⟩

theorem assertValidFromResolves_eq_ok (h : g.assertValidFromResolves = .ok ()) :
    ∀ phase ∈ g.phases, ∀ stage ∈ phase.stages, ∀ status ∈ stage.statuses,
      ∀ entry ∈ status.validFrom, ∃ p ∈ g.positions, entry.matchesPosition p.fullyQualified := by
  intro phase hphase stage hstage status hstatus entry hentry
  have hcheck := forM_eq_ok.mp (forM_eq_ok.mp (forM_eq_ok.mp (forM_eq_ok.mp h phase hphase)
    stage hstage) status hstatus) entry hentry
  exact List.any_eq_true.mp (require_eq_ok.mp hcheck)

theorem assertPositionsExist_eq_ok {claimCode relation : String}
    {positions : List TemplatePosition}
    (h : g.assertPositionsExist claimCode relation positions = .ok ()) :
    ∀ p ∈ positions, g.positionExists p = true :=
  fun p hp ↦ require_eq_ok.mp (forM_eq_ok.mp h p hp)

theorem assertTemplatePositionsExist_eq_ok {t : EntitlementTemplate}
    (h : g.assertTemplatePositionsExist t = .ok ()) :
    ∀ p ∈ t.declaredPositions, g.positionExists p = true := by
  obtain ⟨havailable, hclaimable⟩ := andThen_eq_ok.mp h
  intro p hp
  rcases List.mem_append.mp hp with hp | hp
  · exact assertPositionsExist_eq_ok havailable p hp
  · exact assertPositionsExist_eq_ok hclaimable p hp

theorem assertClaimApprovalPositionExists_eq_ok {label : String} {position : Position}
    (h : g.assertClaimApprovalPositionExists label position = .ok ()) :
    g.positionExists position.toTemplatePosition = true := by
  obtain ⟨_, h⟩ := andThen_eq_ok.mp h
  obtain ⟨_, h⟩ := andThen_eq_ok.mp h
  obtain ⟨_, h⟩ := andThen_eq_ok.mp h
  exact require_eq_ok.mp h

theorem assertClaimApprovalTransitionValid_eq_ok {o : OnClaimApproval}
    (h : g.assertClaimApprovalTransitionValid o = .ok ()) :
    o.currentPosition.fullyQualified = o.targetPosition.fullyQualified ∨
      (g.isValidTransition o.targetPosition o.currentPosition.fullyQualified).isSome := by
  unfold Grant.assertClaimApprovalTransitionValid at h
  dsimp only at h
  split at h
  · next heq => exact .inl heq
  · exact .inr (require_eq_ok.mp h)

/-- A published definition has gone through every check. -/
theorem fromDefinition_eq_ok (h : fromDefinition deps d = .ok g) :
    g = d.grant ∧ Published deps d := by
  obtain ⟨hschema, h⟩ := andThen_eq_ok.mp h
  obtain ⟨hgrant, h⟩ := andThen_eq_ok.mp h
  obtain ⟨hpublishable, h⟩ := andThen_eq_ok.mp h
  obtain ⟨_, hgrant⟩ := andThen_eq_ok.mp hgrant
  obtain ⟨htemplates, happroval⟩ := andThen_eq_ok.mp hgrant
  obtain ⟨hlifecycle, hrest⟩ := andThen_eq_ok.mp (mapError_ok_iff.mp hpublishable)
  obtain ⟨htargets, hamendable⟩ := andThen_eq_ok.mp hrest
  obtain ⟨hphases, hlifecycle⟩ := andThen_eq_ok.mp hlifecycle
  obtain ⟨hphase, hlifecycle⟩ := andThen_eq_ok.mp hlifecycle
  obtain ⟨_, hvalidFrom⟩ := andThen_eq_ok.mp hlifecycle
  have hmember : ∀ phase ∈ d.grant.phases, (phase.stages.map (·.code)).Nodup ∧
      ∀ stage ∈ phase.stages, assertStage deps phase.code stage = .ok () := by
    intro phase hm
    obtain ⟨p, hp, rfl⟩ := List.mem_map.mp hm
    exact assertPhase_eq_ok (forM_eq_ok.mp hphase p hp)
  cases h
  refine ⟨rfl, ?_⟩
  refine
    { schema := require_eq_ok.mp hschema
      templates := fun t ht ↦ assertTemplatePositionsExist_eq_ok (forM_eq_ok.mp htemplates t ht)
      approval := ?_
      phases := ?_
      stages := fun phase hm ↦ (hmember phase hm).1
      statuses := fun phase hm stage hs ↦ (assertStage_eq_ok ((hmember phase hm).2 stage hs)).1
      processes := fun phase hm stage hs ↦ (assertStage_eq_ok ((hmember phase hm).2 stage hs)).2
      validFrom := assertValidFromResolves_eq_ok hvalidFrom
      targets := fun m hm ↦ require_eq_ok.mp (forM_eq_ok.mp htargets m hm)
      amendable := fun p hp ↦ require_eq_ok.mp (forM_eq_ok.mp hamendable p hp) }
  · intro o ho
    unfold Grant.assertClaimApprovalPositionsExist at happroval
    rw [ho] at happroval
    obtain ⟨hcurrent, happroval⟩ := andThen_eq_ok.mp happroval
    obtain ⟨htarget, hvalid⟩ := andThen_eq_ok.mp happroval
    exact ⟨assertClaimApprovalPositionExists_eq_ok hcurrent,
      assertClaimApprovalPositionExists_eq_ok htarget,
      assertClaimApprovalTransitionValid_eq_ok hvalid⟩
  · have hcodes := assertUniqueCodes_eq_ok.mp hphases
    simpa [GrantDefinition.grant, List.map_map, Function.comp_def] using hcodes

/-! ### Lookups and declared positions -/

theorem mem_positions_iff {p : Position} : p ∈ g.positions ↔ ∃ phase ∈ g.phases,
    ∃ stage ∈ phase.stages, ∃ status ∈ stage.statuses,
      p = ⟨phase.code, stage.code, status.code⟩ := by
  simp only [Grant.positions, List.mem_flatMap, List.mem_map, eq_comm]

/-- The status a lookup finds is declared at the position looked up. -/
theorem findStatusDefinition_eq_some {p : Position} {status : StatusDefinition}
    (h : g.findStatusDefinition p = some status) : ∃ phase ∈ g.phases, ∃ stage ∈ phase.stages,
      status ∈ stage.statuses ∧ p = ⟨phase.code, stage.code, status.code⟩ := by
  obtain ⟨phase, hphase, h⟩ := Option.bind_eq_some_iff.mp h
  obtain ⟨stage, hstage, hstatus⟩ := Option.bind_eq_some_iff.mp h
  have hp : phase.code = p.phase := by simpa using List.find?_some hphase
  have hs : stage.code = p.stage := by simpa using List.find?_some hstage
  have hc : status.code = p.status := by simpa using List.find?_some hstatus
  exact ⟨phase, List.mem_of_find?_eq_some hphase, stage, List.mem_of_find?_eq_some hstage,
    List.mem_of_find?_eq_some hstatus, by rw [hp, hs, hc]⟩

/-- A transition is accepted into a declared position only. -/
theorem mem_positions_of_isValidTransition {target : Position} {current : String}
    {processes : List String} (h : g.isValidTransition target current = some processes) :
    target ∈ g.positions := by
  obtain ⟨status, hstatus, _⟩ := Option.bind_eq_some_iff.mp h
  obtain ⟨phase, hphase, stage, hstage, hm, he⟩ := findStatusDefinition_eq_some hstatus
  exact mem_positions_iff.mpr ⟨phase, hphase, stage, hstage, status, hm, he⟩

/-- A full position that exists is declared. -/
theorem mem_positions_of_positionExists {p : Position}
    (h : g.positionExists p.toTemplatePosition = true) : p ∈ g.positions := by
  have hfound : (g.findStatusDefinition p).isSome = true := by
    rw [← h]
    simp only [Grant.positionExists, Position.toTemplatePosition, Option.isSome_some, if_true,
      Option.bind_some, Option.bind_assoc]
    rfl
  obtain ⟨status, hstatus⟩ := Option.isSome_iff_exists.mp hfound
  obtain ⟨phase, hphase, stage, hstage, hm, he⟩ := findStatusDefinition_eq_some hstatus
  exact mem_positions_iff.mpr ⟨phase, hphase, stage, hstage, status, hm, he⟩

theorem Published.stored (h : Published deps d) : d.grant.storedLifecycle = true := by
  have hschema := h.schema
  simp only [GrantDefinition.matchesSchema, Bool.and_eq_true] at hschema
  exact hschema.1.1.1.1.2

/-- A stored lifecycle has something in every phase and stage. -/
theorem storedLifecycle_nonempty (h : g.storedLifecycle = true) : g.phases ≠ [] ∧
    ∀ phase ∈ g.phases, phase.stages ≠ [] ∧ ∀ stage ∈ phase.stages, stage.statuses ≠ [] := by
  simp only [Grant.storedLifecycle, Bool.and_eq_true, Bool.not_eq_true', List.isEmpty_eq_false_iff,
    List.all_eq_true] at h
  exact ⟨h.1.1, fun phase hphase ↦ ⟨(h.1.2 phase hphase).1.2,
    fun stage hstage ↦ ((h.1.2 phase hphase).2 stage hstage).1.2⟩⟩

/-- A position of a template that exists covers a declared one. -/
theorem resolves_of_positionExists (hstored : g.storedLifecycle = true) {p : TemplatePosition}
    (h : g.positionExists p = true) : ∃ q ∈ g.positions, p.matchesPosition q = true := by
  obtain ⟨_, hfull⟩ := storedLifecycle_nonempty hstored
  obtain ⟨phaseCode, stageCode, statusCode⟩ := p
  have hcover : ∀ phase ∈ g.phases, phase.code = phaseCode → ∀ stage ∈ phase.stages,
      (∀ code, stageCode = some code → stage.code = code) → ∀ status ∈ stage.statuses,
      (∀ code, statusCode = some code → status.code = code) →
      ∃ q ∈ g.positions, TemplatePosition.matchesPosition ⟨phaseCode, stageCode, statusCode⟩ q := by
    intro phase hphase hp stage hstage hs status hstatus hc
    refine ⟨_, mem_positions_iff.mpr ⟨phase, hphase, stage, hstage, status, hstatus, rfl⟩, ?_⟩
    simp only [TemplatePosition.matchesPosition, Bool.and_eq_true, decide_eq_true_eq,
      Option.all_eq_true]
    exact ⟨⟨hp.symm, fun code he ↦ (hs code he).symm⟩, fun code he ↦ (hc code he).symm⟩
  unfold Grant.positionExists at h
  cases hphase : g.phases.find? (·.code = phaseCode) with
  | none => simp [hphase] at h
  | some phase =>
    have hp : phase.code = phaseCode := by simpa using List.find?_some hphase
    have hpm := List.mem_of_find?_eq_some hphase
    obtain ⟨hstages, hstatuses⟩ := hfull phase hpm
    cases stageCode with
    | none =>
      cases statusCode with
      | some _ => simp at h
      | none =>
        obtain ⟨stage, hsm⟩ := List.exists_mem_of_ne_nil _ hstages
        obtain ⟨status, hm⟩ := List.exists_mem_of_ne_nil _ (hstatuses stage hsm)
        exact hcover phase hpm hp stage hsm (by simp) status hm (by simp)
    | some stageCode =>
      cases hstage : phase.stages.find? (·.code = stageCode) with
      | none => simp [hphase, hstage] at h
      | some stage =>
        have hs : stage.code = stageCode := by simpa using List.find?_some hstage
        have hsm := List.mem_of_find?_eq_some hstage
        cases statusCode with
        | none =>
          obtain ⟨status, hm⟩ := List.exists_mem_of_ne_nil _ (hstatuses stage hsm)
          exact hcover phase hpm hp stage hsm (by simpa using hs) status hm (by simp)
        | some statusCode =>
          cases hstatus : stage.statuses.find? (·.code = statusCode) with
          | none => simp [hphase, hstage, hstatus] at h
          | some status =>
            have hc : status.code = statusCode := by simpa using List.find?_some hstatus
            exact hcover phase hpm hp stage hsm (by simpa using hs) status
              (List.mem_of_find?_eq_some hstatus) (by simpa using hc)

/-- What `has` has is declared. -/
theorem has_eq_true {position : Option Position} (h : g.has position = true) :
    ∃ p ∈ g.positions, position = some p := by
  obtain ⟨p, hp, he⟩ := List.any_eq_true.mp h
  exact ⟨p, hp, (of_decide_eq_true he).symm⟩

/-- A position is written as it was parsed. -/
theorem fullyQualified_of_parse {written : String} {p : Position}
    (h : Position.parse written = some p) : p.fullyQualified = written := by
  unfold Position.parse at h
  split at h
  · next phase stage status hsplit =>
    cases h
    have hparts : written.toList.splitOn ':' = [phase.toList, stage.toList, status.toList] := by
      have hmap := congrArg (List.map String.toList) hsplit
      simpa [List.map_map, Function.comp_def] using hmap
    have hjoin : [':'].intercalate (written.toList.splitOn ':') = written.toList :=
      List.intercalate_splitOn ':'
    rw [hparts] at hjoin
    apply String.toList_injective
    rw [← hjoin]
    simp [Position.fullyQualified, List.intercalate]
  · cases h

/-! ### Soundness -/

/-- Every lookup of a grant is sound: it finds what is declared, and leads nowhere else. -/
structure Grant.SoundLookups (g : Grant) (isKnownProcess : String → Bool)
    (amendablePositions : List String) : Prop where
  status : ∀ phase ∈ g.phases, ∀ stage ∈ phase.stages, ∀ status ∈ stage.statuses,
    g.findStatusDefinition ⟨phase.code, stage.code, status.code⟩ = some status
  mapped : ∀ position status source target,
    g.mapExternalStateToInternalState position status source = some target →
    target ∈ g.positions
  validFrom : ∀ phase ∈ g.phases, ∀ stage ∈ phase.stages, ∀ status ∈ stage.statuses,
    ∀ entry ∈ status.validFrom, ∃ p ∈ g.positions, entry.matchesPosition p.fullyQualified
  processes : ∀ target current processes, g.isValidTransition target current = some processes →
    ∀ name ∈ processes, isKnownProcess name = true
  amendable : ∀ written ∈ amendablePositions, ∃ p ∈ g.positions, p.fullyQualified = written
  templates : ∀ t ∈ g.entitlementTemplates, ∀ p ∈ t.declaredPositions,
    ∃ q ∈ g.positions, p.matchesPosition q = true
  approval : ∀ o, g.onClaimApproval = some o →
    o.currentPosition ∈ g.positions ∧ o.targetPosition ∈ g.positions ∧
    (o.currentPosition.fullyQualified = o.targetPosition.fullyQualified ∨
      (g.isValidTransition o.targetPosition o.currentPosition.fullyQualified).isSome)

/-- Codes that do not repeat make each status the first with its codes. -/
theorem Published.findStatusDefinition_eq (h : Published deps d) {phase : Phase} {stage : Stage}
    {status : StatusDefinition} (hphase : phase ∈ d.grant.phases) (hstage : stage ∈ phase.stages)
    (hstatus : status ∈ stage.statuses) :
    d.grant.findStatusDefinition ⟨phase.code, stage.code, status.code⟩ = some status := by
  have hfindPhase := find?_of_nodup h.phases hphase
  have hfindStage := find?_of_nodup (h.stages phase hphase) hstage
  have hfindStatus := find?_of_nodup (h.statuses phase hphase stage hstage) hstatus
  simp only [Grant.findStatusDefinition, hfindPhase, hfindStage, hfindStatus, Option.bind_eq_bind,
    Option.bind_some]

/-- The mapping an external status is found by was checked where it stands. -/
theorem Published.mem_positions_of_mapped (h : Published deps d) {position target : Position}
    {status source : String}
    (hmap : d.grant.mapExternalStateToInternalState position status source = some target) :
    target ∈ d.grant.positions := by
  rw [Grant.mapExternalStateToInternalState, ← placeOfExternalStatus_map] at hmap
  obtain ⟨mappedTo, hmapped, htarget⟩ := Option.bind_eq_some_iff.mp hmap
  obtain ⟨⟨place, entry⟩, hplace, rfl⟩ := Option.map_eq_some_iff.mp hmapped
  obtain ⟨hmem, _⟩ := mem_mappings_of_place hplace
  obtain ⟨p, hp, hdeclared⟩ := has_eq_true (h.targets _ hmem)
  have hsame : some target = some p := htarget.symm.trans hdeclared
  cases hsame
  exact hp

/-- The processes of an accepted transition are among those checked of its status. -/
theorem mem_processesOnEntering {status : StatusDefinition} {current name : String}
    {processes : List String}
    (h : (if status.validFrom.isEmpty then some status.processes
      else (status.validFrom.find? (·.matchesPosition current)).map (·.processes)) =
        some processes) (hname : name ∈ processes) : name ∈ status.processesOnEntering := by
  unfold StatusDefinition.processesOnEntering
  split at h
  · next hempty =>
    cases h
    rwa [if_pos hempty]
  · next hlisted =>
    obtain ⟨entry, hentry, rfl⟩ := Option.map_eq_some_iff.mp h
    rw [if_neg hlisted]
    exact List.mem_flatMap.mpr ⟨entry, List.mem_of_find?_eq_some hentry, hname⟩

/-- A process that a transition runs is known. -/
theorem Published.isKnownProcess_of_isValidTransition (h : Published deps d) {target : Position}
    {current name : String} {processes : List String}
    (hvalid : d.grant.isValidTransition target current = some processes)
    (hname : name ∈ processes) : deps.isKnownProcess name = true := by
  obtain ⟨status, hstatus, hprocesses⟩ := Option.bind_eq_some_iff.mp hvalid
  obtain ⟨phase, hphase, stage, hstage, hm, _⟩ := findStatusDefinition_eq_some hstatus
  exact h.processes phase hphase stage hstage status hm name
    (mem_processesOnEntering hprocesses hname)

/-- A definition that is published makes a grant whose lookups are sound. -/
theorem fromDefinition_sound (h : fromDefinition deps d = .ok g) :
    g.SoundLookups deps.isKnownProcess d.amendablePositions := by
  obtain ⟨rfl, hpublished⟩ := fromDefinition_eq_ok h
  constructor
  case status =>
    intro phase hphase stage hstage status hstatus
    exact hpublished.findStatusDefinition_eq hphase hstage hstatus
  case mapped =>
    intro position status source target hmap
    exact hpublished.mem_positions_of_mapped hmap
  case validFrom => exact hpublished.validFrom
  case processes =>
    intro target current processes hvalid name hname
    exact hpublished.isKnownProcess_of_isValidTransition hvalid hname
  case amendable =>
    intro written hwritten
    obtain ⟨p, hp, hparse⟩ := has_eq_true (hpublished.amendable written hwritten)
    exact ⟨p, hp, fullyQualified_of_parse hparse⟩
  case templates =>
    intro t ht p hp
    exact resolves_of_positionExists hpublished.stored (hpublished.templates t ht p hp)
  case approval =>
    intro o ho
    obtain ⟨hcurrent, htarget, hvalid⟩ := hpublished.approval o ho
    exact ⟨mem_positions_of_positionExists hcurrent, mem_positions_of_positionExists htarget,
      hvalid⟩

/-- A grant with two statuses, where a final claim moves the application on, is published. -/
theorem fromDefinition_sound_claimed :
    Grant.SoundLookups
      { code := "trees"
        phases := [⟨"CLAIM", [⟨"PAYMENT", [⟨"OPEN", [], ["SEND"]⟩,
          ⟨"PAID", [⟨"OPEN", ["SEND"]⟩], []⟩]⟩]⟩]
        externalStatusMap := [⟨"CLAIM", [⟨"PAYMENT", [⟨"paid", "CW", "::PAID"⟩]⟩]⟩]
        entitlementTemplates := []
        onClaimApproval := some ⟨⟨"CLAIM", "PAYMENT", "OPEN"⟩, ⟨"CLAIM", "PAYMENT", "PAID"⟩⟩ }
      (· = "SEND") ["CLAIM:PAYMENT:OPEN"] := by
  have hpublished : fromDefinition ⟨(· = "SEND"), fun (_ : Unit) ↦ .ok ()⟩
      { code := "trees"
        phases := [⟨"CLAIM", [⟨"PAYMENT", [⟨"OPEN", [], ["SEND"]⟩,
          ⟨"PAID", [⟨"OPEN", ["SEND"]⟩], []⟩]⟩], some ()⟩]
        externalStatusMap := [⟨"CLAIM", [⟨"PAYMENT", [⟨"paid", "CW", "::PAID"⟩]⟩]⟩]
        amendablePositions := ["CLAIM:PAYMENT:OPEN"]
        entitlementTemplates := []
        onClaimApproval := some ⟨⟨"CLAIM", "PAYMENT", "OPEN"⟩, ⟨"CLAIM", "PAYMENT", "PAID"⟩⟩ } =
      .ok _ := rfl
  exact fromDefinition_sound hpublished

/-- A code with a colon can make two positions be written alike: the target of the claim
approval is then another position, and no transition leads to it. -/
theorem claimApproval_unreachable : ∃ (deps : Dependencies Unit) (d : GrantDefinition Unit)
    (g : Grant) (o : OnClaimApproval), fromDefinition deps d = .ok g ∧
    g.onClaimApproval = some o ∧ o.targetPosition ≠ o.currentPosition ∧
    g.isValidTransition o.targetPosition o.currentPosition.fullyQualified = none :=
  ⟨⟨fun _ ↦ true, fun _ ↦ .ok ()⟩,
    { code := "trees"
      phases := [⟨"CLAIM:PAYMENT", [⟨"FINAL", [⟨"PAID", [], []⟩]⟩], some ()⟩,
        ⟨"CLAIM", [⟨"PAYMENT:FINAL", [⟨"OPEN", [], []⟩,
          ⟨"PAID", [⟨"OPEN", []⟩], []⟩]⟩], none⟩]
      externalStatusMap := []
      amendablePositions := []
      entitlementTemplates := []
      onClaimApproval := some ⟨⟨"CLAIM:PAYMENT", "FINAL", "PAID"⟩,
        ⟨"CLAIM", "PAYMENT:FINAL", "PAID"⟩⟩ },
    _, _, rfl, rfl, by decide, rfl⟩

end FgGas.Grants
