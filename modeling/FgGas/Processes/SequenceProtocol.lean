import FgGas.Processes.EarlierOutputs

/-!
# The order a sequence keeps

In which order a sequence does what it does, whatever the definition: each process calls its
endpoint or executes its handler once and in its turn, and the values of a transition are resolved
once, before its first handler or, without one, at the end. A process hands to jsonata what it acts
on in its turn and what it puts out right after it, and the values of a transition are handed to it
while they are resolved. A handler of a transition is given the agreement with these values, one of
a page the agreement as it is.
-/

namespace FgGas.Processes

open Machine

/-- How far a sequence is: the processes that have acted, whether the transition's values have been
asked for, and what they have made of the agreement, once they are resolved. -/
structure Progress where
  acted : List String
  resolving : Bool
  candidate : Option Candidate

/-- The progress after an event. -/
def Progress.after (p : Progress) : RunEvent → Option Progress
  | .evaluated _ _ _ _ => some p
  | .called processKey _ => some { p with acted := p.acted ++ [processKey] }
  | .executed processKey _ => some { p with acted := p.acted ++ [processKey] }
  | .resolving => some { p with resolving := true }
  | .candidate agreement agreementValues =>
    some { p with candidate := some ⟨agreement, agreementValues⟩ }

/-- The mapping of the request or the input of a process. -/
def ProcessDefinition.actsOn : ProcessDefinition → Data
  | endpoint _ body _ => body
  | handler input => input

section
variable (d : Definition) (location : ResolvedLocation) (context : Context)

/-- The process whose turn it is. -/
def IsNext (p : Progress) (processKey : String) : Prop :=
  ∃ rest, location.processes = p.acted ++ processKey :: rest

/-- Who may hand a mapping to jsonata: the process whose turn it is what it acts on, the one that
acted last what it puts out, and the values of the transition theirs from when they are asked for
until they are resolved. -/
def MayRead (p : Progress) (mapping : Data) : Reader → Prop
  | .process processKey => ∃ definition, d.processDefinitions.lookup processKey = some definition ∧
      (IsNext location p processKey ∧ mapping = definition.actsOn ∨
        p.acted.getLast? = some processKey ∧ mapping ∈ definition.output.map Prod.snd)
  | .transitionValues => p.resolving = true ∧ p.candidate = none ∧
      (findTransition d location.stateName location.transitionName).bind (·.values) = some mapping

/-- The agreement a handler is given. -/
def IsGiven (p : Progress) (agreement : Data) : Prop :=
  match location.executionLocation with
  | .create => agreement = .undefined
  | .page => agreement = .object context.agreement
  | .transition =>
    ∃ candidate, p.candidate = some candidate ∧ agreement = .object candidate.agreement

/-- What may come next. -/
inductive Progress.Allows (p : Progress) : RunEvent → Prop
  | evaluated {reader : Reader} {mapping : Data} {outputs : Outputs} {e : Evaluation}
      (hreader : MayRead d location p mapping reader) :
      Allows p (.evaluated reader mapping outputs e)
  | called {processKey : String} {body : Data} (hnext : IsNext location p processKey)
      (hendpoint : isHandlerKey d processKey = false) : Allows p (.called processKey body)
  | executed {processKey : String} {agreement : Data} (hnext : IsNext location p processKey)
      (hhandler : isHandlerKey d processKey = true)
      (hgiven : IsGiven location context p agreement) : Allows p (.executed processKey agreement)
  | resolving (hlocation : location.executionLocation = .transition) (hfirst : p.resolving = false)
      (hafter : ResolvedAfter d location.processes p.acted) : Allows p .resolving
  | candidate {agreement : List (String × Data)} {agreementValues : Option (List (String × Data))}
      (hasked : p.resolving = true) (hfirst : p.candidate = none)
      (hafter : ResolvedAfter d location.processes p.acted)
      (hagreement : agreement = agreementValues.elim context.agreement (assign context.agreement)) :
      Allows p (.candidate agreement agreementValues)

/-- A computation of a sequence whose events come in their order. -/
abbrev InOrder {α : Type} (p : Progress) (l : Run α) (G : α → Progress → Prop) : Prop :=
  Logged.Follows Progress.after (Progress.Allows d location context) p l G

end

/-- An evaluation by one that may read. -/
def EvaluatesIn (d : Definition) (location : ResolvedLocation) (p : Progress) : RunEvent → Prop
  | .evaluated reader mapping _ _ => MayRead d location p mapping reader
  | _ => False

section
variable {outside : Outside} {d : Definition} {location : ResolvedLocation} {context : Context}
  {p : Progress} {reader : Reader} {mapping : Data} {outputs : Outputs}
  {processContext : List (String × Data)} {error : String}

theorem inOrder_of_evaluatesIn {α : Type} {l : Run α} {Q : α → Prop}
    (h : l.Ensures (EvaluatesIn d location p) Q) :
    InOrder d location context p l fun a p' ↦ p' = p ∧ Q a := by
  refine h.follows fun event hevent ↦ ?_
  cases event with
  | evaluated reader mapping outputs e => exact ⟨.evaluated hevent, rfl⟩
  | _ => cases hevent

theorem resolveProcessMapping_evaluatesIn (hreader : MayRead d location p mapping reader) :
    (resolveProcessMapping outside reader outputs mapping processContext error).Ensures
      (EvaluatesIn d location p) fun _ ↦ True := by
  refine Logged.Ensures.mapError (Logged.Ensures.mapLog (P := EvaluatesIn d location p) ?_)
  exact resolveMapping_ensures.mono (fun _ _ ↦ hreader) fun _ h ↦ h

theorem mapOutputEntry_evaluatesIn {processKey : String} {entry : String × Data}
    (hreader : MayRead d location p entry.2 (.process processKey)) :
    (mapOutputEntry outside processKey outputs processContext entry).Ensures
      (EvaluatesIn d location p) fun _ ↦ True := by
  refine (resolveProcessMapping_evaluatesIn hreader).bind fun mapped _ ↦ ?_
  split
  · exact Logged.ensures_lift fun _ h ↦ by cases h
  · refine (Logged.ensures_lift (Q := fun _ ↦ True) fun _ _ ↦ trivial).bind fun value _ ↦ ?_
    exact Logged.ensures_pure trivial

/-- An endpoint is called once, in its turn. -/
theorem executeEndpoint_inOrder {processKey : String} {endpoint output : List (String × Data)}
    {body : Data} (hnext : IsNext location p processKey)
    (hdefinition : d.processDefinitions.lookup processKey =
      some (.endpoint endpoint body output)) :
    InOrder d location context p
      (executeEndpoint outside processKey endpoint body output outputs processContext)
      fun _ p' ↦ p' = { p with acted := p.acted ++ [processKey] } := by
  have hendpoint : isHandlerKey d processKey = false := by
    rw [isHandlerKey, hdefinition]
    rfl
  have hreader : MayRead d location p body (.process processKey) :=
    ⟨_, hdefinition, .inl ⟨hnext, rfl⟩⟩
  refine (inOrder_of_evaluatesIn (resolveProcessMapping_evaluatesIn hreader)).bind fun body _ h ↦ ?_
  rw [h.1]
  refine Logged.Follows.bind
    (G := fun _ p' ↦ p' = { p with acted := p.acted ++ [processKey] }) ?_ ?_
  · have hcall : Progress.Allows d location context p (.called processKey body) :=
      .called hnext hendpoint
    refine (Logged.follows_note hcall rfl).bind fun _ p' h ↦ ?_
    exact Logged.follows_lift fun _ _ ↦ h
  · rintro response _ rfl
    -- the outputs are mapped at once, by the process that acted last
    refine (inOrder_of_evaluatesIn (Logged.ensures_all (Q := fun _ _ ↦ True) fun entry hentry ↦
      mapOutputEntry_evaluatesIn ⟨_, hdefinition, .inr
        ⟨List.getLast?_concat, List.mem_map_of_mem hentry⟩⟩)).bind fun entries _ h ↦ ?_
    exact Logged.follows_pure h.1

/-- A handler is executed once, in its turn, with the agreement it is to be given. -/
theorem executeHandler_inOrder {processKey : String} {input : Data}
    (hnext : IsNext location p processKey)
    (hdefinition : d.processDefinitions.lookup processKey = some (.handler input))
    (hgiven : IsGiven location context p ((Data.object processContext).property "agreement")) :
    InOrder d location context p
      (executeHandler outside processKey input outputs processContext)
      fun _ p' ↦ p' = { p with acted := p.acted ++ [processKey] } := by
  refine (Logged.follows_lift (G := fun _ p' ↦ p' = p) fun _ _ ↦ rfl).bind fun handler p' h ↦ ?_
  rw [h]
  have hhandler : isHandlerKey d processKey = true := by
    rw [isHandlerKey, hdefinition]
    rfl
  have hreader : MayRead d location p input (.process processKey) :=
    ⟨_, hdefinition, .inl ⟨hnext, rfl⟩⟩
  refine (inOrder_of_evaluatesIn (resolveProcessMapping_evaluatesIn hreader)).bind
    fun mapped p' h ↦ ?_
  rw [h.1]
  refine (Logged.follows_lift (G := fun _ p' ↦ p' = p) fun _ _ ↦ rfl).bind fun input p' h ↦ ?_
  rw [h]
  have hexecuted := Progress.Allows.executed hnext hhandler hgiven
  refine (Logged.follows_note hexecuted rfl).bind fun _ p' h ↦ ?_
  refine (Logged.follows_lift (G := fun _ q ↦ q = p') fun _ _ ↦ rfl).bind fun result _ h' ↦ ?_
  refine (Logged.follows_lift (G := fun _ q ↦ q = p') fun _ _ ↦ h').bind fun operations _ h' ↦ ?_
  exact Logged.follows_pure (h'.trans h)

theorem execute_inOrder {processKey : String} {definition : ProcessDefinition}
    (hnext : IsNext location p processKey)
    (hdefinition : d.processDefinitions.lookup processKey = some definition)
    (hgiven : definition.isHandler = true →
      IsGiven location context p ((Data.object processContext).property "agreement")) :
    InOrder d location context p
      (execute outside processKey definition outputs processContext)
      fun _ p' ↦ p' = { p with acted := p.acted ++ [processKey] } := by
  cases definition with
  | endpoint endpoint body output => exact executeEndpoint_inOrder hnext hdefinition
  | handler input => exact executeHandler_inOrder hnext hdefinition (hgiven rfl)

/-- A sequence on its way goes with its progress. -/
structure Along (d : Definition) (location : ResolvedLocation) (before : List String)
    (state : RunState) (p : Progress) : Prop where
  acted : p.acted = before
  resolving : p.resolving = state.candidate.isSome
  candidate : p.candidate = state.candidate
  elsewhere : location.executionLocation ≠ .transition → state.candidate = none
  pending : state.candidate = none → location.executionLocation = .transition →
    ∀ processKey ∈ before, isHandlerKey d processKey = false

variable {before : List String} {state : RunState}

theorem resolveTransitionValues_inOrder {agreement : List (String × Data)}
    (hasked : p.resolving = true) (hnone : p.candidate = none) :
    InOrder d location context p
      (resolveTransitionValues outside d location agreement outputs) fun _ p' ↦ p' = p := by
  unfold resolveTransitionValues
  split
  · exact Logged.follows_pure rfl
  · next mapping hmapping =>
    have hreader : MayRead d location p mapping .transitionValues := ⟨hasked, hnone, hmapping⟩
    refine (inOrder_of_evaluatesIn (resolveProcessMapping_evaluatesIn hreader)).bind
      fun mapped p' h ↦ ?_
    refine (Logged.follows_lift (G := fun _ q ↦ q = p') fun _ _ ↦ rfl).bind fun values _ h' ↦ ?_
    exact Logged.follows_pure (h'.trans h.1)

/-- The values of a transition are resolved where they may be, and only once. -/
theorem resolveWhenPending_inOrder {pending : Bool} (h : Along d location before state p)
    (hpending : state.candidate = none → pending = true →
      location.executionLocation = .transition ∧ ResolvedAfter d location.processes before) :
    InOrder d location context p (resolveWhenPending outside d location context state pending)
      fun state' p' ↦ Along d location before state' p' ∧
        (state'.candidate = none → pending = false) := by
  unfold resolveWhenPending
  split
  · next hboth =>
    obtain ⟨hnone, hpending'⟩ := (Bool.and_eq_true _ _).mp hboth
    have hnone' := Option.isNone_iff_eq_none.mp hnone
    obtain ⟨htransition, hafter⟩ := hpending hnone' hpending'
    have hfirst : p.resolving = false := by rw [h.resolving, hnone']; rfl
    have hnone'' : p.candidate = none := h.candidate.trans hnone'
    have hafter' : ResolvedAfter d location.processes p.acted := h.acted.symm ▸ hafter
    refine Logged.Follows.bind (G := fun candidate p' ↦
      p' = { p with resolving := true, candidate := some candidate }) ?_ fun candidate p' hp' ↦ ?_
    · refine (Logged.follows_note (Progress.Allows.resolving htransition hfirst hafter') rfl).bind
        fun _ p' hp' ↦ ?_
      rw [hp']
      refine (resolveTransitionValues_inOrder (p := { p with resolving := true }) rfl hnone'').bind
        fun values p' hp' ↦ ?_
      have hcandidate : Progress.Allows d location context { p with resolving := true }
          (.candidate (values.elim context.agreement (assign context.agreement)) values) :=
        .candidate rfl hnone'' hafter' rfl
      rw [hp']
      refine (Logged.follows_note hcandidate rfl).bind fun _ p' h ↦ ?_
      exact Logged.follows_pure h
    · rw [hp']
      exact Logged.follows_pure ⟨⟨h.acted, rfl, rfl, fun hne ↦ absurd htransition hne,
        fun h ↦ by cases h⟩, fun h ↦ by cases h⟩
  · next hboth =>
    refine Logged.follows_pure ⟨h, fun hnone ↦ ?_⟩
    rw [hnone] at hboth
    exact Bool.eq_false_iff.mpr hboth

/-- Whatever handler is executed is given the agreement it is to be given. -/
theorem isGiven_toProcessContext (h : Along d location before state p)
    (hcandidate : location.executionLocation = .transition → state.candidate ≠ none) :
    IsGiven location context p
      ((Data.object (toProcessContext context location state)).property "agreement") := by
  obtain ⟨executionLocation, processes, target, stateName, transitionName⟩ := location
  cases executionLocation with
  | create => rfl
  | page =>
    have hnone := h.elsewhere SequenceLocation.noConfusion
    unfold toProcessContext
    rw [hnone]
    rfl
  | transition =>
    obtain ⟨candidate, hsome⟩ := Option.ne_none_iff_exists'.mp (hcandidate rfl)
    refine ⟨candidate, h.candidate.trans hsome, ?_⟩
    unfold toProcessContext
    rw [hsome]
    rfl

/-- One turn of a sequence. -/
theorem runProcess_inOrder {processKey : String} {rest : List String}
    (hsplit : location.processes = before ++ processKey :: rest)
    (h : Along d location before state p) :
    InOrder d location context p (runProcess outside d location context state processKey)
      (Along d location (before ++ [processKey])) := by
  unfold runProcess
  split
  · exact Logged.follows_lift fun _ h ↦ by cases h
  · next definition hdefinition =>
    have hhandler : isHandlerKey d processKey = definition.isHandler := by
      rw [isHandlerKey, hdefinition, Option.any_some]
    refine (resolveWhenPending_inOrder h fun hnone hpending ↦ ?_).bind fun state' p' h' ↦ ?_
    · obtain ⟨htransition, hpending⟩ := (Bool.and_eq_true _ _).mp hpending
      have htransition' := of_decide_eq_true htransition
      exact ⟨htransition', h.pending hnone htransition',
        .inr ⟨processKey, rest, hsplit, hhandler.trans hpending⟩⟩
    · obtain ⟨h', hnone'⟩ := h'
      have hnext : IsNext location p' processKey := ⟨rest, h'.acted.symm ▸ hsplit⟩
      have hstaged (htransition : location.executionLocation = .transition)
          (hnone : state'.candidate = none) : definition.isHandler = false := by
        have := hnone' hnone
        rwa [htransition, decide_eq_true rfl, Bool.true_and] at this
      refine (execute_inOrder hnext hdefinition fun hdefinition' ↦ ?_).bind
        fun result p'' hp'' ↦ ?_
      · refine isGiven_toProcessContext h' fun htransition hnone ↦ ?_
        exact Bool.noConfusion (hdefinition'.symm.trans (hstaged htransition hnone))
      · rw [hp'']
        refine Logged.follows_pure ⟨by rw [h'.acted], h'.resolving, h'.candidate, h'.elsewhere, ?_⟩
        intro hnone htransition key hkey
        rcases List.mem_append.mp hkey with hkey | hkey
        · exact h'.pending hnone htransition key hkey
        · rw [List.mem_singleton.mp hkey, hhandler]
          exact hstaged htransition hnone

/-- The turns of a sequence, from any point on. -/
theorem runProcesses_inOrder {rest : List String} (hsplit : location.processes = before ++ rest)
    (h : Along d location before state p) :
    InOrder d location context p (runProcesses outside d location context state rest)
      (Along d location location.processes) := by
  induction rest generalizing before state p with
  | nil =>
    rw [List.append_nil] at hsplit
    exact Logged.follows_pure (hsplit ▸ h)
  | cons processKey rest ih =>
    refine (runProcess_inOrder hsplit h).bind fun state' p' h' ↦ ?_
    exact ih (by rw [hsplit, List.append_assoc, List.singleton_append]) h'

/-- Every run of a sequence keeps the order. One that returns has had each process act once, in
the order of the sequence, and returns the values that a transition has mapped; elsewhere than at
a transition it maps none. -/
theorem runSequence_inOrder :
    InOrder d location context ⟨[], false, none⟩ (runSequence outside d location context)
      fun result p ↦ p.acted = location.processes ∧
        result.agreementValues = p.candidate.bind (·.agreementValues) ∧
        (p.candidate.isSome ↔ location.executionLocation = .transition) := by
  have hstart : Along d location [] ⟨[], [], none⟩ ⟨[], false, none⟩ :=
    ⟨rfl, rfl, rfl, fun _ ↦ rfl, fun _ _ _ h ↦ absurd h List.not_mem_nil⟩
  refine (runProcesses_inOrder (List.nil_append _).symm hstart).bind fun state p h ↦ ?_
  refine (resolveWhenPending_inOrder h fun hnone hpending ↦ ?_).bind
    fun state' p' ⟨h', hnone'⟩ ↦ Logged.follows_pure ⟨h'.acted, by rw [h'.candidate], ?_, ?_⟩
  · have htransition := of_decide_eq_true hpending
    exact ⟨htransition, h.pending hnone htransition, .inl rfl⟩
  · intro hsome
    by_contra hne
    rw [h'.candidate, h'.elsewhere hne] at hsome
    cases hsome
  · intro htransition
    rw [h'.candidate, Option.isSome_iff_ne_none]
    intro hnone
    exact absurd (hnone' hnone) (by rw [decide_eq_true htransition]; exact Bool.noConfusion)

end

end FgGas.Processes
