import Mathlib.Data.List.Induction
import FgGas.Processes.Runtime

/-!
# Outputs are there when they are read

What the checks of an accepted definition come to when its processes run. In every run, whatever
reads outputs has those of the processes before it in the sequence, each with the names it
declares, and the values of a transition are resolved before any handler. So every reference that
is spelled in what is handed to jsonata finds its output there.
-/

namespace FgGas.Processes

open Machine

section
variable {outside : Outside} {definitions : List (String × ProcessDefinition)}
  {sequence : ProcessSequence} {seen produced produced' : List String}

/-- The names of the outputs a process declares. -/
def declaredOutputs (definitions : List (String × ProcessDefinition)) (processKey : String) :
    List String :=
  (definitions.lookup processKey).elim [] (·.output.map Prod.fst)

/-- A reference to a declared output of an earlier process. -/
structure Allowed (definitions : List (String × ProcessDefinition)) (earlier : List String)
    (dependency : Dependency) : Prop where
  earlier : dependency.processKey ∈ earlier
  declared : ∀ outputName, dependency.outputName = some outputName → outputName ≠ "" →
    outputName ∈ declaredOutputs definitions dependency.processKey

/-- What the checks of a process at its turn come to. -/
structure TurnChecked (j : Jsonata) (definitions : List (String × ProcessDefinition))
    (earlier : List String) (processKey : String) : Prop where
  isNew : processKey ∉ earlier
  dependencies : ∃ definition found, definitions.lookup processKey = some definition ∧
    findProcessOutputDependencies j definition.parts = .ok found ∧
    ∀ dependency ∈ found, Allowed definitions earlier dependency

theorem assertDependency_eq_ok {dependency : Dependency} {processKey : String}
    (h : assertDependency definitions dependency processKey sequence seen = .ok ()) :
    Allowed definitions seen dependency := by
  obtain ⟨hseen, houtput⟩ := andThen_eq_ok.mp h
  refine ⟨of_decide_eq_true (require_eq_ok.mp hseen), fun outputName hname hne ↦ ?_⟩
  rw [assertProducedOutput, hname] at houtput
  have hproduced := require_eq_ok.mp houtput
  simp only [Bool.or_eq_true, decide_eq_true_eq, hne, false_or] at hproduced
  cases hlookup : definitions.lookup dependency.processKey with
  | none => rw [hlookup] at hproduced; cases hproduced
  | some definition =>
    rw [hlookup] at hproduced
    rw [declaredOutputs, hlookup]
    exact of_decide_eq_true hproduced

/-- Outputs are recorded after those produced before, and none twice. -/
theorem recordOutputs_eq_ok {names : List String}
    (h : recordOutputs sequence produced names = .ok produced') :
    produced' = produced ++ names ∧ (produced.Nodup → produced'.Nodup) := by
  induction names generalizing produced with
  | nil =>
    obtain rfl := Except.ok.inj h
    exact ⟨(List.append_nil _).symm, id⟩
  | cons outputName names ih =>
    obtain ⟨hnew, hrest⟩ := andThen_eq_ok.mp h
    obtain ⟨rfl, hnodup⟩ := ih hrest
    refine ⟨List.append_assoc _ _ _, fun hproduced ↦ hnodup ?_⟩
    have hnew' : outputName ∉ produced := of_decide_eq_true (require_eq_ok.mp hnew)
    exact List.nodup_append.mpr ⟨hproduced, List.nodup_singleton _,
      fun a ha b hb hab ↦ hnew' (List.mem_singleton.mp hb ▸ hab ▸ ha)⟩

theorem validateProcess_eq_ok {processKey : String}
    (h : validateProcess outside definitions sequence seen produced processKey = .ok produced') :
    TurnChecked outside.jsonata definitions seen processKey ∧
      produced' = produced ++ declaredOutputs definitions processKey ∧
      (produced.Nodup → produced'.Nodup) := by
  obtain ⟨definition, hdefinition, h⟩ := bind_eq_ok.mp h
  obtain ⟨hnew, h⟩ := andThen_eq_ok.mp h
  obtain ⟨found, hfound, h⟩ := bind_eq_ok.mp h
  obtain ⟨hdependencies, h⟩ := andThen_eq_ok.mp h
  obtain ⟨produced, hproduced, h⟩ := bind_eq_ok.mp h
  obtain ⟨-, h⟩ := andThen_eq_ok.mp h
  obtain rfl := Except.ok.inj h
  have hlookup : definitions.lookup processKey = some definition := by
    unfold requireProcessDefinition at hdefinition
    split at hdefinition
    · next hlookup => exact Except.ok.inj hdefinition ▸ hlookup
    · cases hdefinition
  refine ⟨⟨of_decide_eq_true (require_eq_ok.mp hnew), definition, found, hlookup, hfound,
    fun dependency hdependency ↦ ?_⟩, ?_⟩
  · exact assertDependency_eq_ok (forM_eq_ok.mp hdependencies dependency hdependency)
  · rw [declaredOutputs, hlookup]
    exact recordOutputs_eq_ok hproduced

/-- Every process of a sequence is checked against those before it, and no two put out one
value. -/
theorem validateProcesses_eq_ok {processes : List String}
    (h : validateProcesses outside definitions sequence seen produced processes = .ok produced') :
    (∀ before processKey after, processes = before ++ processKey :: after →
      TurnChecked outside.jsonata definitions (seen ++ before) processKey) ∧
      produced' = produced ++ processes.flatMap (declaredOutputs definitions) ∧
      (produced.Nodup → produced'.Nodup) := by
  induction processes generalizing seen produced with
  | nil =>
    obtain rfl := Except.ok.inj h
    refine ⟨fun before processKey after heq ↦ ?_, (List.append_nil _).symm, id⟩
    cases before <;> cases heq
  | cons first processes ih =>
    obtain ⟨middle, hfirst, hrest⟩ := bind_eq_ok.mp h
    obtain ⟨hchecked, rfl, hnodup⟩ := validateProcess_eq_ok hfirst
    obtain ⟨hturns, rfl, hnodup'⟩ := ih hrest
    refine ⟨fun before processKey after heq ↦ ?_, ?_, hnodup' ∘ hnodup⟩
    · cases before with
      | nil =>
        obtain ⟨rfl, -⟩ := List.cons.inj heq
        rw [List.append_nil]
        exact hchecked
      | cons first' before =>
        obtain ⟨rfl, heq'⟩ := List.cons.inj heq
        have hturn := hturns before processKey after heq'
        rwa [List.append_assoc] at hturn
    · rw [List.flatMap_cons, List.append_assoc]

/-- What the checks of a sequence come to. -/
structure SequenceChecked (j : Jsonata) (definitions : List (String × ProcessDefinition))
    (produced processes : List String) : Prop where
  turn : ∀ before processKey after, processes = before ++ processKey :: after →
    TurnChecked j definitions before processKey
  nodup : produced.Nodup → (produced ++ processes.flatMap (declaredOutputs definitions)).Nodup

theorem validateSequence_eq_ok
    (h : validateSequence outside definitions sequence = .ok ()) :
    SequenceChecked outside.jsonata definitions sequence.produced sequence.processes := by
  obtain ⟨produced', hprocesses, -⟩ := bind_eq_ok.mp h
  obtain ⟨hturn, rfl, hnodup⟩ := validateProcesses_eq_ok hprocesses
  exact ⟨hturn, hnodup⟩

/-- Names none of which stands before itself are distinct. -/
theorem nodup_of_turns {names : List String}
    (h : ∀ before name after, names = before ++ name :: after → name ∉ before) : names.Nodup := by
  induction names using List.reverseRecOn with
  | nil => exact List.nodup_nil
  | append_singleton names last ih =>
    have hnames : names.Nodup := ih fun before name after heq ↦
      h before name (after ++ [last]) (by rw [heq, List.append_assoc, List.cons_append])
    exact List.nodup_append.mpr ⟨hnames, List.nodup_singleton _, fun a ha b hb hab ↦
      h names last [] rfl (List.mem_singleton.mp hb ▸ hab ▸ ha)⟩

/-- The processes of a checked sequence are distinct. -/
theorem SequenceChecked.nodup_processes {j : Jsonata} {processes : List String}
    (h : SequenceChecked j definitions produced processes) : processes.Nodup :=
  nodup_of_turns fun before processKey after heq ↦ (h.turn before processKey after heq).isNew

end

/-! ### The sequences of an accepted definition -/

section
variable {outside : Outside} {d : Definition}

theorem Accepted.sequence (h : Accepted outside d) {sequence : ProcessSequence}
    (hsequence : sequence ∈ collectSequences d) :
    SequenceChecked outside.jsonata d.processDefinitions sequence.produced sequence.processes := by
  obtain ⟨-, hprocesses⟩ := andThen_eq_ok.mp h.processes
  obtain ⟨-, hsequences⟩ := andThen_eq_ok.mp hprocesses
  exact validateSequence_eq_ok (forM_eq_ok.mp hsequences sequence hsequence)

theorem mem_collectSequences_transition {state transition : String} {t : Transition}
    (h : findTransition d state transition = some t) :
    ∃ sequence ∈ collectSequences d, sequence.processes = t.processes := by
  obtain ⟨s, hs, ht⟩ := Option.bind_eq_some_iff.mp h
  refine ⟨_, List.mem_cons_of_mem _ (List.mem_flatMap.mpr ⟨(state, s), mem_of_lookup hs,
    List.mem_cons_of_mem _ (List.mem_map.mpr ⟨(transition, t), mem_of_lookup ht, rfl⟩)⟩), rfl⟩

theorem mem_collectSequences_page {state : String} {s : State}
    (h : d.states.lookup state = some s) :
    ∃ sequence ∈ collectSequences d, sequence.processes = s.processes :=
  ⟨_, List.mem_cons_of_mem _ (List.mem_flatMap.mpr ⟨(state, s), mem_of_lookup h,
    List.mem_cons_self⟩), rfl⟩

/-- What is asked to run is a sequence that was checked. -/
theorem exists_sequence_of_resolveLocation {location : Location} {resolved : ResolvedLocation}
    (h : resolveLocation d location = .ok resolved) :
    ∃ sequence ∈ collectSequences d, sequence.processes = resolved.processes := by
  cases location with
  | create =>
    obtain rfl := Except.ok.inj h
    exact ⟨_, List.mem_cons_self, rfl⟩
  | transition state transition =>
    change resolveTransitionLocation d state transition = .ok resolved at h
    unfold resolveTransitionLocation at h
    split at h
    · cases h
    · next t ht =>
      obtain rfl := Except.ok.inj h
      exact mem_collectSequences_transition ht
  | page state page =>
    change resolvePageLocation d state page = .ok resolved at h
    unfold resolvePageLocation at h
    split at h
    · next s hs =>
      split at h
      · obtain rfl := Except.ok.inj h
        exact mem_collectSequences_page hs
      · cases h
    · cases h

/-- Where the values of a transition are resolved: before its first handler, or at the end. -/
structure ResolvedAfter (d : Definition) (processes before : List String) : Prop where
  handlers : ∀ processKey ∈ before, isHandlerKey d processKey = false
  ends : processes = before ∨
    ∃ handler rest, processes = before ++ handler :: rest ∧ isHandlerKey d handler = true

theorem ResolvedAfter.findIdx? {processes before handlers : List String} {handler : String}
    (h : ResolvedAfter d processes before) (heq : processes = before ++ handler :: handlers)
    (hhandler : isHandlerKey d handler = true) :
    processes.findIdx? (isHandlerKey d) = some before.length := by
  have hnone : before.findIdx? (isHandlerKey d) = none := List.findIdx?_eq_none_iff.mpr h.handlers
  rw [heq, List.findIdx?_append, hnone, List.findIdx?_cons, if_pos hhandler]
  simp

/-- A producer that has to run before the handlers runs before the values are resolved. -/
theorem mem_of_assertProducerBeforeHandlers {entry : TransitionEntry} {processKey : String}
    {before : List String} (h : assertProducerBeforeHandlers entry processKey
      (entry.transition.processes.findIdx? (isHandlerKey d)) = .ok ())
    (hafter : ResolvedAfter d entry.transition.processes before) : processKey ∈ before := by
  unfold assertProducerBeforeHandlers at h
  cases hindex : entry.transition.processes.idxOf? processKey with
  | none => rw [hindex] at h; cases h
  | some i =>
    obtain ⟨hi, hkey, -⟩ := List.idxOf?_eq_some_iff.mp hindex
    rcases hafter.ends with hends | ⟨handler, rest, hends, hhandler⟩
    · exact hends ▸ hkey ▸ List.getElem_mem hi
    · rw [hindex, hafter.findIdx? hends hhandler] at h
      have hlt : i < before.length := of_decide_eq_true (require_eq_ok.mp h)
      have hget : entry.transition.processes[i] = before[i] := by
        simp only [hends, List.getElem_append_left hlt]
      exact hkey ▸ hget ▸ List.getElem_mem hlt

theorem declared_of_assertDependencyOutput {entry : TransitionEntry} {dependency : Dependency}
    (h : assertDependencyOutput d entry dependency = .ok ()) (outputName : String)
    (hname : dependency.outputName = some outputName) (hne : outputName ≠ "") :
    outputName ∈ declaredOutputs d.processDefinitions dependency.processKey := by
  unfold assertDependencyOutput at h
  split at h
  · cases h
  · next definition hlookup =>
    have hdeclared := require_eq_ok.mp h
    simp only [hname, Option.all_some, Bool.or_eq_true, decide_eq_true_eq, hne,
      false_or] at hdeclared
    rw [declaredOutputs, hlookup]
    exact hdeclared

/-- The values of a transition refer to declared outputs of processes that run before they are
resolved. -/
theorem Accepted.transitionValues (h : Accepted outside d) {state transition : String}
    {t : Transition} (ht : findTransition d state transition = some t) {mapping : Data}
    (hmapping : t.values = some mapping) :
    ∃ found, findProcessOutputDependencies outside.jsonata [.undefined, mapping, .undefined] =
        .ok found ∧
      ∀ before, ResolvedAfter d t.processes before → ∀ dependency ∈ found,
        Allowed d.processDefinitions before dependency := by
  obtain ⟨s, hs, ht⟩ := Option.bind_eq_some_iff.mp ht
  obtain ⟨hvalues, -⟩ := andThen_eq_ok.mp h.processes
  have hentry := forM_eq_ok.mp hvalues _ (List.mem_flatMap.mpr ⟨(state, s), mem_of_lookup hs,
    List.mem_map.mpr ⟨(transition, t), mem_of_lookup ht, rfl⟩⟩)
  unfold compileTransitionEntry at hentry
  rw [hmapping] at hentry
  obtain ⟨-, hentry⟩ := andThen_eq_ok.mp hentry
  obtain ⟨found, hfound, hdependencies⟩ := bind_eq_ok.mp hentry
  refine ⟨found, hfound, fun before hbefore dependency hdependency ↦ ?_⟩
  obtain ⟨houtput, hproducer⟩ :=
    andThen_eq_ok.mp (forM_eq_ok.mp hdependencies dependency hdependency)
  exact ⟨mem_of_assertProducerBeforeHandlers hproducer hbefore,
    declared_of_assertDependencyOutput houtput⟩

end

/-! ### What a process reads -/

/-- The mappings a process resolves. -/
def ProcessDefinition.mappings : ProcessDefinition → List Data
  | endpoint _ body output => body :: output.map Prod.snd
  | handler input => [input]

/-- What a process's mappings have in them, the parts that are inspected have. -/
theorem ProcessDefinition.exists_part {definition : ProcessDefinition} {mapping : Data}
    (h : mapping ∈ definition.mappings) {text : String} (htext : Occurs text mapping) :
    ∃ part ∈ definition.parts, Occurs text part := by
  cases definition with
  | endpoint endpoint body output =>
    rcases List.mem_cons.mp h with rfl | h
    · exact ⟨_, List.mem_cons_self, .entry List.mem_cons_self htext⟩
    · obtain ⟨entry, hentry, rfl⟩ := List.mem_map.mp h
      exact ⟨.object output, List.mem_cons_of_mem _ (List.mem_cons_of_mem _ List.mem_cons_self),
        .entry hentry htext⟩
  | handler input =>
    obtain rfl := List.mem_singleton.mp h
    exact ⟨mapping, List.mem_cons_of_mem _ List.mem_cons_self, htext⟩

/-- An evaluation, if it is one, of one of some mappings by a reader who has these outputs. -/
def ReadsWith (reader : Reader) (mappings : List Data) (outputs : Outputs) : RunEvent → Prop
  | .evaluated reader' mapping outputs' e =>
    reader' = reader ∧ outputs' = outputs ∧ mapping ∈ mappings ∧ Occurs e.mapping mapping ∧
      e.context.property "outputs" = outputsData outputs
  | _ => True

section
variable {outside : Outside} {d : Definition} {reader : Reader} {mappings : List Data}
  {mapping : Data} {outputs : Outputs} {context : List (String × Data)} {error : String}

theorem property_of_lookup {value : Data} (h : context.lookup "outputs" = some value) :
    (Data.object context).property "outputs" = value := by
  rw [Data.property, h]
  rfl

theorem resolveProcessMapping_ensures (hmapping : mapping ∈ mappings)
    (hcontext : context.lookup "outputs" = some (outputsData outputs)) :
    (resolveProcessMapping outside reader outputs mapping context error).Ensures
      (ReadsWith reader mappings outputs) fun _ ↦ True := by
  refine (Logged.Ensures.mapLog (resolveMapping_ensures.mono (fun e he ↦ ?_) fun _ h ↦ h)).mapError
  exact ⟨rfl, rfl, hmapping, he.occurs, he.context ▸ property_of_lookup hcontext⟩

theorem callEndpoint_ensures {processKey : String} {endpoint : List (String × Data)} {body : Data} :
    (callEndpoint outside processKey endpoint body).Ensures (ReadsWith reader mappings outputs)
      fun _ ↦ True :=
  (Logged.ensures_note trivial).bind fun _ _ ↦ Logged.ensures_lift fun _ _ ↦ trivial

theorem mapOutputEntry_ensures {processKey : String} {entry : String × Data}
    (hmapping : entry.2 ∈ mappings)
    (hcontext : context.lookup "outputs" = some (outputsData outputs)) :
    (mapOutputEntry outside processKey outputs context entry).Ensures
      (ReadsWith (.process processKey) mappings outputs) fun result ↦ result.1 = entry.1 := by
  refine (resolveProcessMapping_ensures hmapping hcontext).bind fun mapped _ ↦ ?_
  split
  · exact Logged.ensures_lift fun _ h ↦ by cases h
  · refine (Logged.ensures_lift (Q := fun _ ↦ True) fun _ _ ↦ trivial).bind fun value _ ↦ ?_
    exact Logged.ensures_pure rfl

theorem map_fst_of_forall₂ {entries results : List (String × Data)}
    (h : List.Forall₂ (fun entry result ↦ result.1 = entry.1) entries results) :
    results.map Prod.fst = entries.map Prod.fst := by
  induction h with
  | nil => rfl
  | cons hfirst _ ih => rw [List.map_cons, List.map_cons, hfirst, ih]

theorem executeEndpoint_ensures {processKey : String} {endpoint output : List (String × Data)}
    {body : Data} (hbody : body ∈ mappings) (houtput : ∀ entry ∈ output, entry.2 ∈ mappings)
    (hcontext : context.lookup "outputs" = some (outputsData outputs)) :
    (executeEndpoint outside processKey endpoint body output outputs context).Ensures
      (ReadsWith (.process processKey) mappings outputs)
      fun result ↦ result.output.map Prod.fst = output.map Prod.fst := by
  have hresponse (response : Data) :
      (setEntry "response" response context).lookup "outputs" = some (outputsData outputs) := by
    rw [lookup_setEntry, if_neg (by decide), hcontext]
  refine (resolveProcessMapping_ensures hbody hcontext).bind fun body _ ↦ ?_
  refine callEndpoint_ensures.bind fun response _ ↦ ?_
  refine (Logged.ensures_all fun entry hentry ↦
    mapOutputEntry_ensures (houtput entry hentry) (hresponse response)).bind fun entries h ↦ ?_
  exact Logged.ensures_pure (map_fst_of_forall₂ h)

theorem executeHandler_ensures {processKey : String} {input : Data} (hinput : input ∈ mappings)
    (hcontext : context.lookup "outputs" = some (outputsData outputs)) :
    (executeHandler outside processKey input outputs context).Ensures
      (ReadsWith (.process processKey) mappings outputs) fun result ↦ result.output = [] := by
  refine (Logged.ensures_lift (Q := fun _ ↦ True) fun _ _ ↦ trivial).bind fun handler _ ↦ ?_
  refine (resolveProcessMapping_ensures hinput hcontext).bind fun mapped _ ↦ ?_
  refine (Logged.ensures_lift (Q := fun _ ↦ True) fun _ _ ↦ trivial).bind fun input _ ↦ ?_
  refine (Logged.ensures_note trivial).bind fun _ _ ↦ ?_
  refine (Logged.ensures_lift (Q := fun _ ↦ True) fun _ _ ↦ trivial).bind fun result _ ↦ ?_
  refine (Logged.ensures_lift (Q := fun _ ↦ True) fun _ _ ↦ trivial).bind fun operations _ ↦ ?_
  exact Logged.ensures_pure rfl

/-- A process resolves its own mappings, and puts out what it declares. -/
theorem execute_ensures {processKey : String} {definition : ProcessDefinition}
    (hcontext : context.lookup "outputs" = some (outputsData outputs)) :
    (execute outside processKey definition outputs context).Ensures
      (ReadsWith (.process processKey) definition.mappings outputs)
      fun result ↦ result.output.map Prod.fst = definition.output.map Prod.fst := by
  cases definition with
  | endpoint endpoint body output =>
    exact executeEndpoint_ensures List.mem_cons_self
      (fun entry hentry ↦ List.mem_cons_of_mem _ (List.mem_map_of_mem hentry)) hcontext
  | handler input =>
    refine (executeHandler_ensures (List.mem_singleton_self input) hcontext).mono
      (fun _ h ↦ h) fun result h ↦ ?_
    rw [h]
    rfl

/-- Every process has the outputs there are. -/
theorem lookup_toProcessContext {context : Context} {location : ResolvedLocation}
    {state : RunState} :
    (toProcessContext context location state).lookup "outputs" =
      some (outputsData state.outputs) := by
  cases location with
  | mk executionLocation processes target stateName transitionName =>
    cases executionLocation <;> rfl

/-! ### What a sequence reads -/

/-- The outputs of the processes that have run, under the names they declare. -/
structure OutputsOf (definitions : List (String × ProcessDefinition)) (before : List String)
    (outputs : Outputs) : Prop where
  keys : outputs.map Prod.fst = before
  names : ∀ p ∈ outputs, p.2.map Prod.fst = declaredOutputs definitions p.1

/-- Where a mapping is resolved in a sequence, and by whom. -/
def Placed (d : Definition) (location : ResolvedLocation) (mapping : Data)
    (before : List String) : Reader → Prop
  | .process processKey => ∃ definition after,
      location.processes = before ++ processKey :: after ∧
        d.processDefinitions.lookup processKey = some definition ∧ mapping ∈ definition.mappings
  | .transitionValues => location.executionLocation = .transition ∧
      ResolvedAfter d location.processes before ∧
      (findTransition d location.stateName location.transitionName).bind (·.values) = some mapping

/-- An evaluation, if it is one, of a mapping in its place, with the outputs of the processes
before. -/
def InPlace (d : Definition) (location : ResolvedLocation) : RunEvent → Prop
  | .evaluated reader mapping outputs e =>
    (∃ before, OutputsOf d.processDefinitions before outputs ∧
      Placed d location mapping before reader) ∧
      Occurs e.mapping mapping ∧ e.context.property "outputs" = outputsData outputs
  | _ => True

/-- A sequence on its way: the processes that have run, and no handler among them while the
values of a transition are pending. -/
structure Reached (d : Definition) (location : ResolvedLocation) (before : List String)
    (state : RunState) : Prop where
  outputs : OutputsOf d.processDefinitions before state.outputs
  pending : state.candidate = none → location.executionLocation = .transition →
    ∀ processKey ∈ before, isHandlerKey d processKey = false

variable {location : ResolvedLocation} {runContext : Context} {before : List String}
  {state : RunState}

/-- What a reader in its place reads is in place. -/
theorem inPlace_of_readsWith (houtputs : OutputsOf d.processDefinitions before outputs)
    (hplaced : ∀ mapping ∈ mappings, Placed d location mapping before reader) {event : RunEvent}
    (h : ReadsWith reader mappings outputs event) : InPlace d location event := by
  cases event with
  | evaluated reader' mapping outputs' e =>
    obtain ⟨rfl, rfl, hmapping, hoccurs, hcontext⟩ := h
    exact ⟨⟨before, houtputs, hplaced mapping hmapping⟩, hoccurs, hcontext⟩
  | _ => exact trivial

theorem resolveCandidate_ensures (houtputs : OutputsOf d.processDefinitions before outputs)
    (htransition : location.executionLocation = .transition)
    (hafter : ResolvedAfter d location.processes before) :
    (resolveCandidate outside d location runContext outputs).Ensures (InPlace d location)
      fun _ ↦ True := by
  refine (Logged.ensures_note trivial).bind fun _ _ ↦ ?_
  refine Logged.Ensures.bind (Q := fun _ ↦ True) ?_ fun values _ ↦ ?_
  · unfold resolveTransitionValues
    split
    · exact Logged.ensures_pure trivial
    · next mapping hmapping =>
      have hplaced : ∀ mapping' ∈ [mapping], Placed d location mapping' before .transitionValues :=
        fun mapping' hmapping' ↦
          ⟨htransition, hafter, (List.mem_singleton.mp hmapping').symm ▸ hmapping⟩
      refine ((resolveProcessMapping_ensures (List.mem_singleton_self mapping) rfl).mono
        (fun event h ↦ inPlace_of_readsWith houtputs hplaced h) fun _ h ↦ h).bind fun mapped _ ↦ ?_
      refine (Logged.ensures_lift (Q := fun _ ↦ True) fun _ _ ↦ trivial).bind fun values _ ↦ ?_
      exact Logged.ensures_pure trivial
  · refine (Logged.ensures_note trivial).bind fun _ _ ↦ ?_
    exact Logged.ensures_pure trivial

/-- The values of a transition are resolved where they are pending. -/
theorem resolveWhenPending_ensures {pending : Bool} (hstate : Reached d location before state)
    (hpending : state.candidate = none → pending = true →
      location.executionLocation = .transition ∧ ResolvedAfter d location.processes before) :
    (resolveWhenPending outside d location runContext state pending).Ensures (InPlace d location)
      fun state' ↦ Reached d location before state' ∧
        (state'.candidate = none → pending = false) := by
  unfold resolveWhenPending
  split
  · next h =>
    obtain ⟨hnone, hpending'⟩ := (Bool.and_eq_true _ _).mp h
    obtain ⟨htransition, hafter⟩ := hpending (Option.isNone_iff_eq_none.mp hnone) hpending'
    refine (resolveCandidate_ensures hstate.outputs htransition hafter).bind fun candidate _ ↦ ?_
    exact Logged.ensures_pure ⟨⟨hstate.outputs, fun h ↦ by cases h⟩, fun h ↦ by cases h⟩
  · next h =>
    refine Logged.ensures_pure ⟨hstate, fun hnone ↦ ?_⟩
    rw [hnone] at h
    exact Bool.eq_false_iff.mpr h

/-- One turn of a sequence. -/
theorem runProcess_ensures {processKey : String} {rest : List String}
    (hsplit : location.processes = before ++ processKey :: rest) (hnew : processKey ∉ before)
    (hstate : Reached d location before state) :
    (runProcess outside d location runContext state processKey).Ensures (InPlace d location)
      (Reached d location (before ++ [processKey])) := by
  unfold runProcess
  split
  · exact Logged.ensures_lift fun _ h ↦ by cases h
  · next definition hdefinition =>
    have hhandler : isHandlerKey d processKey = definition.isHandler := by
      rw [isHandlerKey, hdefinition, Option.any_some]
    refine (resolveWhenPending_ensures hstate fun hnone hpending ↦ ?_).bind
      fun state' ⟨hstate', hnone'⟩ ↦ ?_
    · obtain ⟨htransition, hpending⟩ := (Bool.and_eq_true _ _).mp hpending
      have htransition' := of_decide_eq_true htransition
      exact ⟨htransition', hstate.pending hnone htransition',
        .inr ⟨processKey, rest, hsplit, hhandler.trans hpending⟩⟩
    · have hplaced : ∀ mapping ∈ definition.mappings,
          Placed d location mapping before (.process processKey) :=
        fun mapping hmapping ↦ ⟨definition, rest, hsplit, hdefinition, hmapping⟩
      refine ((execute_ensures lookup_toProcessContext).mono
        (fun event h ↦ inPlace_of_readsWith hstate'.outputs hplaced h)
        fun _ h ↦ h).bind fun result hresult ↦ Logged.ensures_pure ⟨?_, ?_⟩
      · have hkeys : processKey ∉ state'.outputs.map Prod.fst := hstate'.outputs.keys ▸ hnew
        have houtputs : (recordProcessResult state' processKey result).outputs =
            state'.outputs ++ [(processKey, result.output)] := setEntry_of_notMem hkeys
        refine ⟨?_, fun p hp ↦ ?_⟩
        · rw [houtputs, List.map_append, hstate'.outputs.keys]
          rfl
        · rw [houtputs] at hp
          rcases List.mem_append.mp hp with hp | hp
          · exact hstate'.outputs.names p hp
          · obtain rfl := List.mem_singleton.mp hp
            rw [declaredOutputs, hdefinition]
            exact hresult
      · intro hnone htransition key hkey
        rcases List.mem_append.mp hkey with hkey | hkey
        · exact hstate'.pending hnone htransition key hkey
        · rw [List.mem_singleton.mp hkey, hhandler]
          have := hnone' hnone
          rw [htransition] at this
          simpa using this

/-- The turns of a sequence, from any point on. -/
theorem runProcesses_ensures {rest : List String} (hnodup : location.processes.Nodup)
    (hsplit : location.processes = before ++ rest) (hstate : Reached d location before state) :
    (runProcesses outside d location runContext state rest).Ensures (InPlace d location)
      (Reached d location location.processes) := by
  induction rest generalizing before state with
  | nil =>
    rw [List.append_nil] at hsplit
    exact Logged.ensures_pure (hsplit ▸ hstate)
  | cons processKey rest ih =>
    have hnew : processKey ∉ before := by
      rw [hsplit, List.nodup_append] at hnodup
      exact fun h ↦ hnodup.2.2 processKey h processKey List.mem_cons_self rfl
    refine (runProcess_ensures hsplit hnew hstate).bind fun state' hstate' ↦ ?_
    exact ih (by rw [hsplit, List.append_assoc, List.singleton_append]) hstate'

/-- A whole sequence reads everything in its place, and returns the outputs of its processes. -/
theorem runSequence_ensures (hnodup : location.processes.Nodup) :
    (runSequence outside d location runContext).Ensures (InPlace d location)
      fun result ↦ OutputsOf d.processDefinitions location.processes result.outputs := by
  have hstart : Reached d location [] ⟨[], [], none⟩ :=
    ⟨⟨rfl, fun p hp ↦ absurd hp List.not_mem_nil⟩, fun _ _ _ h ↦ absurd h List.not_mem_nil⟩
  refine (runProcesses_ensures hnodup (List.nil_append _).symm hstart).bind fun state hstate ↦ ?_
  refine (resolveWhenPending_ensures hstate fun hnone hpending ↦ ?_).bind
    fun state' ⟨hstate', _⟩ ↦ Logged.ensures_pure hstate'.outputs
  have htransition := of_decide_eq_true hpending
  exact ⟨htransition, hstate.pending hnone htransition, .inl rfl⟩

/-- A location that runs has a checked sequence. -/
theorem Accepted.checked (h : Accepted outside d) {asked : Location}
    (hasked : resolveLocation d asked = .ok location) :
    ∃ produced, SequenceChecked outside.jsonata d.processDefinitions produced
      location.processes := by
  obtain ⟨sequence, hsequence, heq⟩ := exists_sequence_of_resolveLocation hasked
  exact ⟨sequence.produced, heq ▸ h.sequence hsequence⟩

/-- A run of an accepted definition reads everything in its place. -/
theorem runLocation_ensures (h : Accepted outside d) (asked : Location) :
    (runLocation outside d asked runContext).Ensures
      (fun event ↦ ∃ location, resolveLocation d asked = .ok location ∧ InPlace d location event)
      fun result ↦ ∃ location, resolveLocation d asked = .ok location ∧
        OutputsOf d.processDefinitions location.processes result.outputs := by
  refine (Logged.ensures_lift (Q := fun location ↦ resolveLocation d asked = .ok location)
    fun _ h ↦ h).bind fun location hlocation ↦ ?_
  obtain ⟨produced, hchecked⟩ := h.checked hlocation
  exact (runSequence_ensures hchecked.nodup_processes).mono
    (fun event hevent ↦ ⟨location, hlocation, hevent⟩)
    fun result hresult ↦ ⟨location, hlocation, hresult⟩

/-- The processes at a location that is found in a transition are the transition's. -/
theorem processes_of_findTransition {asked : Location}
    (hasked : resolveLocation d asked = .ok location) {t : Transition}
    (ht : findTransition d location.stateName location.transitionName = some t)
    (hlocation : location.executionLocation = .transition) : location.processes = t.processes := by
  cases asked with
  | create =>
    obtain rfl := Except.ok.inj hasked
    cases hlocation
  | transition state transition =>
    change resolveTransitionLocation d state transition = .ok location at hasked
    unfold resolveTransitionLocation at hasked
    split at hasked
    · cases hasked
    · next t' ht' =>
      obtain rfl := Except.ok.inj hasked
      obtain rfl := Option.some.inj (ht'.symm.trans ht)
      rfl
  | page state page =>
    change resolvePageLocation d state page = .ok location at hasked
    unfold resolvePageLocation at hasked
    split at hasked
    · split at hasked
      · obtain rfl := Except.ok.inj hasked
        cases hlocation
      · cases hasked
    · cases hasked

/-- A spelled reference in what is resolved in its place is one that was checked. -/
theorem Accepted.allowed (h : Accepted outside d) {asked : Location}
    (hasked : resolveLocation d asked = .ok location)
    (hplaced : Placed d location mapping before reader) {text : String} {tree : Data}
    {dependency : Dependency} (htext : Occurs text mapping) (houtput : isOutputMapping text = true)
    (htree : outside.jsonata.ast (toProcessExpression text) = .ok tree)
    (hspells : Spells tree dependency) (hplain : dependency.IsPlain) :
    Allowed d.processDefinitions before dependency := by
  have hfind {parts : List Data} {found : List Dependency}
      (hfound : findProcessOutputDependencies outside.jsonata parts = .ok found) {part : Data}
      (hpart : part ∈ parts) (hoccurs : Occurs text part)
      (hallowed : ∀ other ∈ found, Allowed d.processDefinitions before other) :
      Allowed d.processDefinitions before dependency := by
    obtain ⟨-, hspelled, -⟩ := findProcessOutputDependencies_eq_ok hfound
    obtain ⟨other, hother, hkey, hname⟩ := hspelled part hpart dependency
      ⟨text, tree, hoccurs, houtput, htree, hspells⟩ hplain
    obtain ⟨hearlier, hdeclared⟩ := hallowed other hother
    refine ⟨hkey ▸ hearlier, fun outputName hsome hne ↦ ?_⟩
    rw [hsome, Option.getD_some] at hname
    have hother' : other.outputName = some outputName := by
      cases hcase : other.outputName with
      | none => rw [hcase] at hname; exact absurd hname.symm hne
      | some name => rw [hcase] at hname; exact congrArg some hname
    exact hkey ▸ hdeclared outputName hother' hne
  cases reader with
  | process processKey =>
    obtain ⟨definition, after, hsplit, hdefinition, hmapping⟩ := hplaced
    obtain ⟨produced, hchecked⟩ := h.checked hasked
    obtain ⟨definition', found, hdefinition', hfound, hallowed⟩ :=
      (hchecked.turn before processKey after hsplit).dependencies
    obtain rfl := Option.some.inj (hdefinition.symm.trans hdefinition')
    obtain ⟨part, hpart, hoccurs⟩ := definition.exists_part hmapping htext
    exact hfind hfound hpart hoccurs hallowed
  | transitionValues =>
    obtain ⟨htransition, hafter, hvalues⟩ := hplaced
    obtain ⟨t, ht, hmapping⟩ := Option.bind_eq_some_iff.mp hvalues
    obtain ⟨found, hfound, hallowed⟩ := h.transitionValues ht hmapping
    rw [processes_of_findTransition hasked ht htransition] at hafter
    exact hfind hfound (List.mem_cons_of_mem _ List.mem_cons_self) htext (hallowed before hafter)

/-- Allowed references are there among the outputs of the processes before. -/
theorem OutputsOf.exists_of_allowed (houtputs : OutputsOf d.processDefinitions before outputs)
    {dependency : Dependency} (h : Allowed d.processDefinitions before dependency) :
    ∃ output, outputs.lookup dependency.processKey = some output ∧
      ∀ outputName, dependency.outputName = some outputName → outputName ≠ "" →
        ∃ value, output.lookup outputName = some value := by
  obtain ⟨output, hlookup, hmem⟩ := exists_lookup (houtputs.keys ▸ h.earlier)
  refine ⟨output, hlookup, fun outputName hname hne ↦ ?_⟩
  have hdeclared := h.declared outputName hname hne
  rw [← houtputs.names _ hmem] at hdeclared
  obtain ⟨value, hvalue, -⟩ := exists_lookup hdeclared
  exact ⟨value, hvalue⟩

/-- In every run of an accepted definition, an evaluation has the outputs that the context holds,
and every reference to outputs that its expression spells outside any other reference finds the
process, and the output where it names one. -/
theorem spelled_references_are_there (h : Accepted outside d) {asked : Location} {e : Evaluation}
    (hevent : .evaluated reader mapping outputs e ∈ (runLocation outside d asked runContext).log)
    (houtput : isOutputMapping e.mapping = true) {tree : Data}
    (htree : outside.jsonata.ast (toProcessExpression e.mapping) = .ok tree)
    {dependency : Dependency} (hspells : Spells tree dependency) (hplain : dependency.IsPlain) :
    e.context.property "outputs" = outputsData outputs ∧
      ∃ output, outputs.lookup dependency.processKey = some output ∧
        ∀ outputName, dependency.outputName = some outputName →
          ∃ value, output.lookup outputName = some value := by
  obtain ⟨location, hasked, ⟨before, houtputs, hplaced⟩, hoccurs, hcontext⟩ :=
    (runLocation_ensures h asked).log _ hevent
  have hallowed := h.allowed hasked hplaced hoccurs houtput htree hspells hplain
  obtain ⟨output, hlookup, hnames⟩ := houtputs.exists_of_allowed hallowed
  exact ⟨hcontext, output, hlookup, fun outputName hname ↦
    hnames outputName hname (hplain.outputName outputName hname).2⟩

end

/-! ### A definition that is accepted -/

/-- An agreement whose total is calculated, and then read to calculate the annual amount. -/
def woodland : Definition where
  code := "woodland"
  processDefinitions :=
    [("calculate", .endpoint [] (.object []) [("totalAmountPence", .number 500)]),
      ("schedule", .endpoint [] (.object [("total", .string totalReference)])
        [("annualAmountPence", .number 100)])]
  create :=
    { target := "offered"
      application := .object []
      values := [("actions", .array []), ("items", .array [])]
      processes := ["calculate", "schedule"]
      distinct := by decide }
  states := []
  hasDocumentPage := false

/-- What is outside where every expression is that reference. -/
def woodlandOutside : Outside where
  jsonata := totalJsonata
  outputSchema _ := ⟨.mk "array" [] [] false false, .ok⟩
  transitionValues := .mk "object" [] [] true false
  agreementValues _ := true
  reconcile agreement _ := .ok agreement
  handlers := []
  callEndpoint _ _ := .ok .null

theorem woodland_schedule : findProcessOutputDependencies totalJsonata
    (ProcessDefinition.endpoint [] (.object [("total", .string totalReference)])
      [("annualAmountPence", .number 100)]).parts =
        .ok [⟨"calculate", some "totalAmountPence"⟩] := by
  simp [findProcessOutputDependencies, ProcessDefinition.parts, inspectMapping,
    inspectString_totalReference]

theorem woodland_calculate : findProcessOutputDependencies totalJsonata
    (ProcessDefinition.endpoint [] (.object []) [("totalAmountPence", .number 500)]).parts =
      .ok [] := by
  simp [findProcessOutputDependencies, ProcessDefinition.parts, inspectMapping]
  rfl

theorem woodland_accepted : Accepted woodlandOutside woodland where
  creation := by
    simp [compileCreationMappings, compileCreationMapping, woodland, validateProcessMapping,
      isCollectionMapping, assertKnownCreationValueFields, findAgreementProcessOutputSchema,
      processOutputs, findUnknownMappingField]
    rfl
  processes := by
    have hstring : validateStringMapping totalJsonata totalReference = .ok () := rfl
    simp [compileAgreementProcesses, compileTransitionValueMappings, transitionEntries, woodland,
      woodlandOutside,
      compileProcessDefinitions, compileProcess, compileEndpoint, assertValidMapping,
      validateProcessMapping, isCollectionMapping, hstring, assertKnownOutputMappings,
      assertKnownMappingFields, findAgreementProcessOutputSchema, processOutputs,
      findUnknownMappingField, woodland_calculate, woodland_schedule, validateSequences,
      collectSequences, validateSequence, validateProcesses, validateProcess,
      requireProcessDefinition, lookup_cons_eq, bind, Except.bind]
    rfl

/-- The execution of a creation. -/
def woodlandExecution : List (String × Data) := [("correlationId", .string "correlation-1")]

/-- A creation with an application that has nothing in it. -/
def woodlandContext : Context := ⟨.object [], [], .undefined, woodlandExecution⟩

/-- What the first process has put out. -/
def woodlandOutputs : Outputs := [("calculate", [("totalAmountPence", .number 500)])]

/-- What the second process hands to jsonata. -/
def woodlandEvaluation : Evaluation where
  mapping := totalReference
  context := .object [("application", .object []),
    ("execution", .object [("correlationId", .string "correlation-1"),
      ("location", .string "create"), ("target", .string "offered")]),
    ("outputs", outputsData woodlandOutputs)]
  row := .undefined

theorem woodland_run : runLocation woodlandOutside woodland .create woodlandContext =
    ⟨[.called "calculate" (.object []),
        .evaluated (.process "schedule") (.object [("total", .string totalReference)])
          woodlandOutputs woodlandEvaluation,
        .called "schedule" (.object [("total", .number 500)])],
      .ok ⟨woodlandOutputs ++ [("schedule", [("annualAmountPence", .number 100)])], none, []⟩⟩ := by
  simp [runLocation, resolveLocation, woodland, woodlandOutside, runSequence, runProcesses,
    runProcess, resolveWhenPending, execute, executeEndpoint, resolveProcessMapping, resolveMapping,
    isCollectionMapping, mapOutputEntry, bind, Logged.andThen, pure, Logged.lift,
    lookup_cons_eq]
  constructor <;> rfl

theorem woodland_evaluates :
    .evaluated (.process "schedule") (.object [("total", .string totalReference)])
        woodlandOutputs woodlandEvaluation ∈
      (runLocation woodlandOutside woodland .create woodlandContext).log := by
  rw [woodland_run]
  exact List.mem_cons_of_mem _ List.mem_cons_self

theorem totalTree_spells : Spells totalTree ⟨"calculate", some "totalAmountPence"⟩ := by
  have hrefers : Refers totalTree ⟨"calculate", nodeName (nodeAt
      [.object [("type", .string "name"), ("value", .string "totalAmountPence")]] 0)⟩ :=
    .path rfl rfl rfl rfl rfl
  exact .here hrefers

theorem total_isPlain : Dependency.IsPlain ⟨"calculate", some "totalAmountPence"⟩ := by
  refine ⟨by decide, fun outputName h ↦ ?_⟩
  obtain rfl := Option.some.inj h
  exact ⟨by decide, by decide⟩

theorem spelled_references_woodland :
    .evaluated (.process "schedule") (.object [("total", .string totalReference)])
        woodlandOutputs woodlandEvaluation ∈
      (runLocation woodlandOutside woodland .create woodlandContext).log ∧
    woodlandEvaluation.context.property "outputs" = outputsData woodlandOutputs ∧
    ∃ output, woodlandOutputs.lookup "calculate" = some output ∧
      ∀ outputName, some "totalAmountPence" = some outputName →
        ∃ value, output.lookup outputName = some value :=
  ⟨woodland_evaluates, spelled_references_are_there woodland_accepted woodland_evaluates
    (by decide) rfl totalTree_spells total_isPlain⟩

end FgGas.Processes
