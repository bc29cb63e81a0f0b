import Mathlib.Data.List.Sigma
import FgGas.Grants.Application

/-!
# What a grant says of its lifecycle

`describeLifecycle` (`src/grants/models/grant.js`, `src/grants/models/lifecycle-phases.js`,
`src/grants/models/external-status-map.js`): the ways into each position and the external
statuses that are applied, worked out for an operator to read. The code tells list entries
apart by reference; here an entry is told apart by its place. The names of phases, stages and
statuses, and the amendable positions, are copied as they stand and left out.
-/

namespace FgGas.Grants

/-- The declared positions, in order. -/
def Grant.positions (g : Grant) : List Position :=
  g.phases.flatMap fun phase ↦ phase.stages.flatMap fun stage ↦
    stage.statuses.map fun status ↦ ⟨phase.code, stage.code, status.code⟩

/-- An entry of a JavaScript `Map` by written form: a later one takes the earlier's place. -/
def keepPosition (kept : List Position) (p : Position) : List Position :=
  if kept.any (·.fullyQualified = p.fullyQualified) then
    kept.map fun q ↦ if q.fullyQualified = p.fullyQualified then p else q
  else kept ++ [p]

/-- `distinctPositions`. -/
def Grant.distinctPositions (g : Grant) : List Position := g.positions.foldl keepPosition []

/-- `getInitialState`, by its codes. -/
def Grant.getInitialState (g : Grant) : Option Position := do
  let phase ← g.phases.head?
  let stage ← phase.stages.head?
  let status ← stage.statuses.head?
  pure ⟨phase.code, stage.code, status.code⟩

/-- `storedLifecycle`: strings are not empty, and every phase and stage has something in it. -/
def Grant.storedLifecycle (g : Grant) : Bool :=
  !g.phases.isEmpty &&
  (g.phases.all fun phase ↦ phase.code ≠ "" && !phase.stages.isEmpty &&
    phase.stages.all fun stage ↦ stage.code ≠ "" && !stage.statuses.isEmpty &&
      stage.statuses.all fun status ↦ status.code ≠ "" && status.processes.all (· ≠ "") &&
        status.validFrom.all fun entry ↦ entry.code ≠ "" && entry.processes.all (· ≠ "")) &&
  g.externalStatusMap.all fun phase ↦ phase.code ≠ "" &&
    phase.stages.all fun stage ↦ stage.code ≠ "" &&
      stage.statuses.all fun status ↦
        status.code ≠ "" && status.source ≠ "" && status.mappedTo ≠ ""

/-- What a `validFrom` entry is compared with. -/
inductive MatchedBy
  | position
  | status
  deriving DecidableEq, Repr

/-- `ValidFrom.matchedBy`. -/
def ValidFrom.matchedBy (v : ValidFrom) : MatchedBy :=
  if v.code.toList.contains ':' then .position else .status

/-- A way into a position. -/
inductive WayIn
  | any (into : String) (processes : List String)
  | move (into from_ : String) (matchedBy : MatchedBy) (processes : List String)
  | unmatched (into code : String) (matchedBy : MatchedBy) (processes : List String)
  deriving DecidableEq, Repr

/-- Where a way in leads. -/
def WayIn.into : WayIn → String
  | .any into _ => into
  | .move into _ _ _ => into
  | .unmatched into _ _ _ => into

/-- The processes of a way in. -/
def WayIn.processes : WayIn → List String
  | .any _ processes => processes
  | .move _ _ _ processes => processes
  | .unmatched _ _ _ processes => processes

/-- The way in can be taken from the position: any can, or it is a move from there. -/
def WayIn.appliesTo (w : WayIn) (from_ : String) : Bool :=
  match w with
  | .any _ _ => true
  | .move _ source _ _ => source = from_
  | .unmatched _ _ _ _ => false

/-- `#isValidFromMatch`, with the place of the entry it finds. -/
def validFromMatch (validFrom : List ValidFrom) (current : String) : Option (ValidFrom × Nat) :=
  validFrom.zipIdx.find? (·.1.matchesPosition current)

/-- `#waysIntoBy` the entry at its place. -/
def waysIntoBy (entry : ValidFrom × Nat) (validFrom : List ValidFrom) (into : Position)
    (positions : List Position) : List WayIn :=
  let target := into.fullyQualified
  let moves := ((positions.map Position.fullyQualified).filter fun source ↦
      source ≠ target && validFromMatch validFrom source = some entry).map fun source ↦
    WayIn.move target source entry.1.matchedBy entry.1.processes
  if !moves.isEmpty || positions.any (entry.1.matchesPosition ·.fullyQualified) then moves
  else [.unmatched target entry.1.code entry.1.matchedBy entry.1.processes]

/-- `#waysInto`. -/
def Grant.waysInto (g : Grant) (into : Position) (positions : List Position) : List WayIn :=
  match g.findStatusDefinition into with
  | none => []
  | some statusDef =>
      if statusDef.validFrom.isEmpty then [.any into.fullyQualified statusDef.processes]
      else statusDef.validFrom.zipIdx.flatMap fun entry ↦
        waysIntoBy entry statusDef.validFrom into positions

/-- A mapping of the external status map, with the place of its entry in phase, stage and
statuses. -/
structure ExternalStatusMapping where
  place : Nat × Nat × Nat
  entry : ExternalStatus
  phase : String
  stage : String
  deriving DecidableEq, Repr

/-- The mappings of `ExternalStatusMap`. -/
def Grant.mappings (g : Grant) : List ExternalStatusMapping :=
  g.externalStatusMap.zipIdx.flatMap fun phase ↦ phase.1.stages.zipIdx.flatMap fun stage ↦
    stage.1.statuses.zipIdx.map fun status ↦
      ⟨(phase.2, stage.2, status.2), status.1, phase.1.code, stage.1.code⟩

/-- `#findExternalStatusMapping`, with the place of the entry it finds. -/
def Grant.placeOfExternalStatus (g : Grant) (phaseCode stageCode externalRequestedState
    source : String) : Option ((Nat × Nat × Nat) × ExternalStatus) := do
  let phase ← g.externalStatusMap.zipIdx.find? (·.1.code = phaseCode)
  let stage ← phase.1.stages.zipIdx.find? (·.1.code = stageCode)
  let status ← stage.1.statuses.zipIdx.find? fun s ↦
    s.1.code = externalRequestedState ∧ s.1.source = source
  if status.1.mappedTo = "" then none else some ((phase.2, stage.2, status.2), status.1)

/-- `ExternalStatusMapping.target`. -/
def ExternalStatusMapping.target (m : ExternalStatusMapping) : Option Position :=
  mappedTarget m.entry.mappedTo ⟨m.phase, m.stage, ""⟩

/-- An applied mapping as described. -/
structure ExternalMappingDescription where
  source : String
  code : String
  whileIn : String
  mappedTo : String
  to_ : Option String
  deriving DecidableEq, Repr

/-- `ExternalStatusMapping.describe`. -/
def ExternalStatusMapping.describe (m : ExternalStatusMapping) : ExternalMappingDescription where
  source := m.entry.source
  code := m.entry.code
  whileIn := m.phase ++ ":" ++ m.stage
  mappedTo := m.entry.mappedTo
  to_ := m.target.map Position.fullyQualified

/-- The mappings `#appliedExternalStatusMappings` describes: those the lookup finds. -/
def Grant.appliedMappings (g : Grant) : List ExternalStatusMapping :=
  g.mappings.filter fun m ↦
    g.placeOfExternalStatus m.phase m.stage m.entry.code m.entry.source = some (m.place, m.entry)

/-- What `describeLifecycle` answers. -/
structure LifecycleDescription where
  initialPosition : String
  waysIn : List WayIn
  externalMappings : List ExternalMappingDescription
  claimApproval : Option (String × String)
  deriving DecidableEq, Repr

/-- `describeLifecycle`; nothing for a stored lifecycle that cannot be read. -/
def Grant.describeLifecycle (g : Grant) : Option LifecycleDescription :=
  if g.storedLifecycle then
    g.getInitialState.map fun initial ↦
      { initialPosition := initial.fullyQualified
        waysIn := g.distinctPositions.flatMap fun into ↦ g.waysInto into g.distinctPositions
        externalMappings := g.appliedMappings.map ExternalStatusMapping.describe
        claimApproval := g.onClaimApproval.map fun o ↦
          (o.currentPosition.fullyQualified, o.targetPosition.fullyQualified) }
  else none

/-! ### Places in a list -/

section
variable {α β : Type}

/-- Where only one entry of a list without repetitions has anything, its share is all. -/
theorem flatMap_eq_of_unique {l : List α} (hl : l.Nodup) {x : α} (hx : x ∈ l) {f : α → List β}
    (hf : ∀ y ∈ l, y ≠ x → f y = []) : l.flatMap f = f x := by
  induction l with
  | nil => exact absurd hx List.not_mem_nil
  | cons a l ih =>
    obtain ⟨ha, hl⟩ := List.nodup_cons.mp hl
    rw [List.flatMap_cons]
    rcases List.mem_cons.mp hx with rfl | hx
    · have hrest : l.flatMap f = [] := by
        rw [List.flatMap_eq_nil_iff]
        intro y hy
        exact hf y (List.mem_cons_of_mem _ hy) fun he ↦ ha (he ▸ hy)
      rw [hrest, List.append_nil]
    · have hne : a ≠ x := fun he ↦ ha (he ▸ hx)
      rw [hf a List.mem_cons_self hne, List.nil_append]
      exact ih hl hx fun y hy ↦ hf y (List.mem_cons_of_mem _ hy)

theorem nodup_zipIdx (l : List α) : l.zipIdx.Nodup := (List.nodup_zipIdx_map_snd l).of_map _

/-- Finding an entry with its place is finding the entry. -/
theorem find?_zipIdx (p : α → Bool) (l : List α) (n : Nat) :
    ((l.zipIdx n).find? (p ·.1)).map Prod.fst = l.find? p := by
  induction l generalizing n with
  | nil => rfl
  | cons x l ih =>
    rw [List.zipIdx_cons, List.find?_cons, List.find?_cons]
    cases p x with
    | true => rfl
    | false => exact ih (n + 1)

end

/-! ### The description and the lookups agree -/

/-- Positions of distinct written forms are all kept. -/
theorem foldl_keepPosition : ∀ {positions kept : List Position},
    ((kept ++ positions).map Position.fullyQualified).Nodup →
    positions.foldl keepPosition kept = kept ++ positions
  | [], kept, _ => by simp
  | p :: positions, kept, h => by
    have hnew : kept.any (·.fullyQualified = p.fullyQualified) = false := by
      rw [List.any_eq_false]
      intro q hq he
      rw [List.map_append, List.map_cons] at h
      have hdisj := (List.nodup_append.mp h).2.2 q.fullyQualified (List.mem_map_of_mem hq)
        p.fullyQualified List.mem_cons_self
      exact hdisj (of_decide_eq_true he)
    have hstep : keepPosition kept p = kept ++ [p] := by
      simp only [keepPosition, hnew]
      rfl
    rw [List.foldl_cons, hstep, foldl_keepPosition (by simpa using h), List.append_assoc]
    rfl

theorem distinctPositions_eq {g : Grant}
    (h : (g.positions.map Position.fullyQualified).Nodup) : g.distinctPositions = g.positions :=
  foldl_keepPosition h

section
variable {positions : List Position} {from_ into : Position}

/-- The ways in by one entry that can be taken from a position: the move from there, when
the entry is the first it matches. -/
theorem filter_waysIntoBy (hnodup : (positions.map Position.fullyQualified).Nodup)
    (hfrom : from_ ∈ positions) (hne : from_.fullyQualified ≠ into.fullyQualified)
    (entry : ValidFrom × Nat) (validFrom : List ValidFrom) :
    (((waysIntoBy entry validFrom into positions).filter
      (·.appliesTo from_.fullyQualified)).map WayIn.processes) =
      if validFromMatch validFrom from_.fullyQualified = some entry then [entry.1.processes]
      else [] := by
  have hmem : from_.fullyQualified ∈ positions.map Position.fullyQualified :=
    List.mem_map_of_mem hfrom
  have honly : (positions.map Position.fullyQualified).filter (· = from_.fullyQualified) =
      [from_.fullyQualified] := by
    rw [List.filter_eq, List.count_eq_one_of_mem hnodup hmem]
    rfl
  have hmoves : ((((positions.map Position.fullyQualified).filter fun source ↦
      source ≠ into.fullyQualified && validFromMatch validFrom source = some entry).map fun source ↦
        WayIn.move into.fullyQualified source entry.1.matchedBy entry.1.processes).filter
          (·.appliesTo from_.fullyQualified)).map WayIn.processes =
      if validFromMatch validFrom from_.fullyQualified = some entry then [entry.1.processes]
      else [] := by
    have hcomm : (((positions.map Position.fullyQualified).filter fun source ↦
        source ≠ into.fullyQualified && validFromMatch validFrom source = some entry).filter
          (· = from_.fullyQualified)) =
        [from_.fullyQualified].filter fun source ↦
          source ≠ into.fullyQualified && validFromMatch validFrom source = some entry := by
      rw [List.filter_comm, honly]
    rw [List.filter_map]
    change ((((positions.map Position.fullyQualified).filter _).filter
      fun source ↦ decide (source = from_.fullyQualified)).map _).map _ = _
    rw [hcomm]
    by_cases h : validFromMatch validFrom from_.fullyQualified = some entry
    · simp [h, hne, WayIn.processes]
    · simp [h]
  unfold waysIntoBy
  dsimp only
  split
  · exact hmoves
  · next hnone =>
    -- without a move, nothing is matched from here
    rw [if_neg]
    · rfl
    · intro hmatch
      have hcode := List.find?_some hmatch
      have hany : positions.any (entry.1.matchesPosition ·.fullyQualified) = true :=
        List.any_eq_true.mpr ⟨from_, hfrom, by simpa using hcode⟩
      simp [hany] at hnone

/-- Every way into a position says so. -/
theorem into_of_mem_waysInto {g : Grant} {w : WayIn} (h : w ∈ g.waysInto into positions) :
    w.into = into.fullyQualified := by
  unfold Grant.waysInto at h
  cases hdef : g.findStatusDefinition into with
  | none => simp [hdef] at h
  | some statusDef =>
    simp only [hdef] at h
    split at h
    · obtain rfl := List.mem_singleton.mp h
      rfl
    · obtain ⟨entry, _, hw⟩ := List.mem_flatMap.mp h
      unfold waysIntoBy at hw
      dsimp only at hw
      split at hw
      · obtain ⟨source, _, rfl⟩ := List.mem_map.mp hw
        rfl
      · obtain rfl := List.mem_singleton.mp hw
        rfl

/-- The ways into a position that can be taken from another are the transition the grant
accepts, if it does. -/
theorem filter_waysInto {g : Grant} (hnodup : (positions.map Position.fullyQualified).Nodup)
    (hfrom : from_ ∈ positions) (hne : from_.fullyQualified ≠ into.fullyQualified) :
    (((g.waysInto into positions).filter (·.appliesTo from_.fullyQualified)).map
      WayIn.processes) = (g.isValidTransition into from_.fullyQualified).toList := by
  unfold Grant.waysInto Grant.isValidTransition
  cases g.findStatusDefinition into with
  | none => rfl
  | some statusDef =>
    simp only [Option.bind_some]
    split
    · rfl
    · rw [List.filter_flatMap, List.map_flatMap]
      simp only [filter_waysIntoBy hnodup hfrom hne]
      have hfind : statusDef.validFrom.find? (·.matchesPosition from_.fullyQualified) =
          (validFromMatch statusDef.validFrom from_.fullyQualified).map Prod.fst :=
        (find?_zipIdx _ _ 0).symm
      rw [hfind]
      cases hmatch : validFromMatch statusDef.validFrom from_.fullyQualified with
      | none => simp
      | some entry =>
        have hentry : entry ∈ statusDef.validFrom.zipIdx := List.mem_of_find?_eq_some hmatch
        rw [flatMap_eq_of_unique (nodup_zipIdx _) hentry]
        · simp
        · intro other _ hother
          simp [Ne.symm hother]

end

/-- Among all the ways in, those into one position are its own. -/
theorem filter_flatMap_waysInto {g : Grant} {positions : List Position} {into : Position}
    (hnodup : (positions.map Position.fullyQualified).Nodup) (hinto : into ∈ positions)
    (q : WayIn → Bool) :
    ((positions.flatMap fun p ↦ g.waysInto p positions).filter fun w ↦
      w.into = into.fullyQualified && q w) = (g.waysInto into positions).filter q := by
  have hone : ∀ p, ((g.waysInto p positions).filter fun w ↦
      w.into = into.fullyQualified && q w) =
      if p.fullyQualified = into.fullyQualified then (g.waysInto p positions).filter q
      else [] := by
    intro p
    by_cases hp : p.fullyQualified = into.fullyQualified
    · rw [if_pos hp]
      refine List.filter_congr fun w hw ↦ ?_
      simp [into_of_mem_waysInto hw, hp]
    · rw [if_neg hp, List.filter_eq_nil_iff]
      intro w hw
      simp [into_of_mem_waysInto hw, hp]
  rw [List.filter_flatMap]
  simp only [hone]
  rw [flatMap_eq_of_unique (hnodup.of_map _) hinto]
  · simp
  · intro p hp hne
    rw [if_neg]
    exact fun he ↦ hne (List.inj_on_of_nodup_map hnodup hp hinto he)

/-- The lookup of an external status, with the place it finds, is the lookup. -/
theorem placeOfExternalStatus_map (g : Grant) (position : Position) (status source : String) :
    (g.placeOfExternalStatus position.phase position.stage status source).map (·.2.mappedTo) =
      g.findExternalStatusMapping position status source := by
  unfold Grant.placeOfExternalStatus Grant.findExternalStatusMapping
  have hphase := find?_zipIdx (fun x : ExternalPhase ↦ decide (x.code = position.phase))
    g.externalStatusMap 0
  rw [← hphase]
  cases g.externalStatusMap.zipIdx.find? fun x ↦ decide (x.1.code = position.phase) with
  | none => rfl
  | some phase =>
    have hstage := find?_zipIdx (fun x : ExternalStage ↦ decide (x.code = position.stage))
      phase.1.stages 0
    simp only [Option.map_some, Option.bind_eq_bind, Option.bind_some]
    rw [← hstage]
    cases phase.1.stages.zipIdx.find? fun x ↦ decide (x.1.code = position.stage) with
    | none => rfl
    | some stage =>
      have hstatus := find?_zipIdx
        (fun x : ExternalStatus ↦ decide (x.code = status ∧ x.source = source))
        stage.1.statuses 0
      simp only [Option.map_some, Option.bind_some]
      rw [← hstatus]
      cases stage.1.statuses.zipIdx.find? fun x ↦
          decide (x.1.code = status ∧ x.1.source = source) with
      | none => rfl
      | some entry =>
        simp only [Option.map_some, Option.bind_some]
        split <;> rfl

/-- What the lookup finds is a mapping declared there. -/
theorem mem_mappings_of_place {g : Grant} {phase stage status source : String}
    {place : Nat × Nat × Nat} {entry : ExternalStatus}
    (h : g.placeOfExternalStatus phase stage status source = some (place, entry)) :
    ⟨place, entry, phase, stage⟩ ∈ g.mappings ∧ entry.code = status ∧ entry.source = source := by
  unfold Grant.placeOfExternalStatus at h
  obtain ⟨p, hp, h⟩ := Option.bind_eq_some_iff.mp h
  obtain ⟨s, hs, h⟩ := Option.bind_eq_some_iff.mp h
  obtain ⟨e, he, h⟩ := Option.bind_eq_some_iff.mp h
  have hphase : p.1.code = phase := by simpa using List.find?_some hp
  have hstage : s.1.code = stage := by simpa using List.find?_some hs
  have hentry : e.1.code = status ∧ e.1.source = source := by simpa using List.find?_some he
  split at h
  · cases h
  · cases h
    refine ⟨List.mem_flatMap.mpr ⟨p, List.mem_of_find?_eq_some hp,
      List.mem_flatMap.mpr ⟨s, List.mem_of_find?_eq_some hs,
        List.mem_map.mpr ⟨e, List.mem_of_find?_eq_some he, ?_⟩⟩⟩, hentry⟩
    rw [hphase, hstage]

/-- The applied mappings of a phase, stage, status and source lead where the lookup leads. -/
theorem appliedMappings_iff {g : Grant} {position : Position} {status source p : String} :
    (∃ m ∈ g.appliedMappings, m.phase = position.phase ∧ m.stage = position.stage ∧
      m.entry.code = status ∧ m.entry.source = source ∧ m.describe.to_ = some p) ↔
    ∃ target, g.mapExternalStateToInternalState position status source = some target ∧
      target.fullyQualified = p := by
  have htarget : ∀ mappedTo, mappedTarget mappedTo ⟨position.phase, position.stage, ""⟩ =
      mappedTarget mappedTo position := fun _ ↦ rfl
  constructor
  · rintro ⟨m, hm, hphase, hstage, hcode, hsource, hto⟩
    have hplace := of_decide_eq_true (List.mem_filter.mp hm).2
    rw [hphase, hstage, hcode, hsource] at hplace
    obtain ⟨target, ht, hp⟩ := Option.map_eq_some_iff.mp hto
    refine ⟨target, ?_, hp⟩
    rw [Grant.mapExternalStateToInternalState, ← placeOfExternalStatus_map, hplace]
    rw [ExternalStatusMapping.target, hphase, hstage, htarget] at ht
    exact ht
  · rintro ⟨target, hmap, rfl⟩
    rw [Grant.mapExternalStateToInternalState, ← placeOfExternalStatus_map] at hmap
    obtain ⟨mappedTo, hmapped, ht⟩ := Option.bind_eq_some_iff.mp hmap
    obtain ⟨⟨place, entry⟩, hplace, rfl⟩ := Option.map_eq_some_iff.mp hmapped
    obtain ⟨hmem, hcode, hsource⟩ := mem_mappings_of_place hplace
    refine ⟨_, List.mem_filter.mpr ⟨hmem, ?_⟩, rfl, rfl, hcode, hsource, ?_⟩
    · rw [hcode, hsource]
      exact decide_eq_true hplace
    · exact Option.map_eq_some_iff.mpr ⟨target, ht, rfl⟩

/-- A grant whose description can be read, its declared positions told apart by how they are
written, is described as it works: an application moves from one declared position to
another with the processes of the one way in it can take; and the external mappings described are
some of those declared, such that an external status leads where the one of its phase, stage, code
and source leads. -/
theorem describeLifecycle_agrees {g : Grant} {d : LifecycleDescription}
    (h : g.describeLifecycle = some d)
    (hnodup : (g.positions.map Position.fullyQualified).Nodup) :
    (∀ (a : Application) (into : Position) (now : String) (processes : List String),
      a.position ∈ g.positions → into ∈ g.positions → a.position ≠ into →
      (a.moveTo into g now = .changed (a.at into now) processes ↔
        ∃ w, d.waysIn.filter (fun w ↦ w.into = into.fullyQualified &&
          w.appliesTo a.position.fullyQualified) = [w] ∧ w.processes = processes)) ∧
    ∃ described, List.Sublist described g.mappings ∧
      d.externalMappings = described.map ExternalStatusMapping.describe ∧
      ∀ (position : Position) (status source p : String),
        (∃ target, g.mapExternalStateToInternalState position status source = some target ∧
          target.fullyQualified = p) ↔
        ∃ m ∈ described, m.phase = position.phase ∧ m.stage = position.stage ∧
          m.entry.code = status ∧ m.entry.source = source ∧ m.describe.to_ = some p := by
  unfold Grant.describeLifecycle at h
  split at h
  case isFalse => cases h
  obtain ⟨initial, _, rfl⟩ := Option.map_eq_some_iff.mp h
  constructor
  · intro a into now processes ha hinto hne
    have hforms : a.position.fullyQualified ≠ into.fullyQualified :=
      fun he ↦ hne (List.inj_on_of_nodup_map hnodup ha hinto he)
    have hmove : a.moveTo into g now = .changed (a.at into now) processes ↔
        g.isValidTransition into a.position.fullyQualified = some processes := by
      unfold Application.moveTo Application.fullyQualifiedStatus
      rw [if_neg hforms]
      cases g.isValidTransition into a.position.fullyQualified with
      | none => simp
      | some accepted => simp
    have hways := filter_waysInto (g := g) hnodup ha hforms
    rw [hmove, distinctPositions_eq hnodup, filter_flatMap_waysInto hnodup hinto]
    constructor
    · intro hvalid
      rw [hvalid, Option.toList_some] at hways
      obtain ⟨w, hw, hprocesses⟩ := List.map_eq_singleton_iff.mp hways
      exact ⟨w, hw, hprocesses⟩
    · rintro ⟨w, hw, hprocesses⟩
      rw [hw, List.map_singleton, hprocesses] at hways
      cases hvalid : g.isValidTransition into a.position.fullyQualified with
      | none => simp [hvalid] at hways
      | some accepted =>
        rw [hvalid, Option.toList_some] at hways
        exact congrArg some (List.singleton_injective hways).symm
  · refine ⟨g.appliedMappings, List.filter_sublist, rfl, ?_⟩
    intro position status source p
    exact appliedMappings_iff.symm

/-- An offer is made when a review is done, by the first of the two entries that match. -/
theorem describeLifecycle_agrees_reviewed :
    let grant : Grant :=
      { code := "trees"
        phases := [⟨"PRE_AWARD", [⟨"REVIEW", [⟨"RECEIVED", [], []⟩,
          ⟨"REVIEWED", [⟨"PRE_AWARD:REVIEW:RECEIVED", ["GENERATE_OFFER"]⟩, ⟨"RECEIVED", []⟩],
            []⟩]⟩]⟩]
        externalStatusMap := [⟨"PRE_AWARD", [⟨"REVIEW", [⟨"reviewed", "CW", "::REVIEWED"⟩]⟩]⟩]
        entitlementTemplates := []
        onClaimApproval := none }
    ∃ d, grant.describeLifecycle = some d ∧ ∃ w,
      d.waysIn.filter (fun w ↦ w.into = "PRE_AWARD:REVIEW:REVIEWED" &&
        w.appliesTo "PRE_AWARD:REVIEW:RECEIVED") = [w] ∧ w.processes = ["GENERATE_OFFER"] := by
  intro grant
  have h : grant.describeLifecycle = some _ := rfl
  have hmoved := (describeLifecycle_agrees h (by decide)).1
    ⟨"c-1", "trees", ⟨"PRE_AWARD", "REVIEW", "RECEIVED"⟩, none, none, "", []⟩
    ⟨"PRE_AWARD", "REVIEW", "REVIEWED"⟩ "" ["GENERATE_OFFER"] (by decide) (by decide) (by decide)
  exact ⟨_, h, hmoved.mp rfl⟩

end FgGas.Grants
