import FgGas.Processes.Definitions

/-!
# Running the processes of a sequence

The processes of a sequence run one after another, each with the outputs of those before it
(`src/agreements/models/agreement-definitions/processes/agreement-process-runtime.js`,
`src/agreements/models/agreement-definitions/processes/compile-process-definitions.js`); at a
transition its mapped values are resolved on the way. A run starts from a context that the schema
of its location has accepted. It logs what is handed to jsonata, by whom and with which outputs
there, the endpoints called, the handlers executed, and of the values of the transition when they
are asked for and what they come to.
-/

namespace FgGas.Processes

open Machine

/-- The outputs there are, by process. -/
abbrev Outputs := List (String × List (String × Data))

/-- What resolves a mapping. -/
inductive Reader
  | process (processKey : String)
  | transitionValues
  deriving DecidableEq, Repr

/-- What a run does. -/
inductive RunEvent
  | evaluated (reader : Reader) (mapping : Data) (outputs : Outputs) (e : Evaluation)
  | called (processKey : String) (body : Data)
  | executed (processKey : String) (agreement : Data)
  | resolving
  | candidate (agreement : List (String × Data)) (agreementValues : Option (List (String × Data)))

/-- A run, with its errors as their messages. -/
abbrev Run := Logged RunEvent String

/-- What is asked to run. -/
inductive Location
  | create
  | transition (state transition : String)
  | page (state page : String)

/-- A location found in the definition. -/
structure ResolvedLocation where
  executionLocation : SequenceLocation
  processes : List String
  target : String
  stateName : String
  transitionName : String

/-- What a run is given; each location has its own part of it, and all the execution. -/
structure Context where
  application : Data
  agreement : List (String × Data)
  transitionValues : Data
  execution : List (String × Data)

/-- What a process makes of its context. -/
structure ProcessResult where
  commitOperations : List Data
  output : List (String × Data)

/-- The agreement that staged handlers are given, and the values mapped, if there are any. -/
structure Candidate where
  agreement : List (String × Data)
  agreementValues : Option (List (String × Data))

/-- What a sequence has come to. -/
structure RunState where
  outputs : Outputs
  commitOperations : List Data
  candidate : Option Candidate

/-- What a sequence returns. -/
structure SequenceResult where
  outputs : Outputs
  agreementValues : Option (List (String × Data))
  commitOperations : List Data

section
variable (outside : Outside) (d : Definition)

/-- `findTransition`. -/
def findTransition (state transition : String) : Option Transition :=
  (d.states.lookup state).bind fun s ↦ s.on.lookup transition

def resolveTransitionLocation (state transition : String) : Except String ResolvedLocation :=
  match findTransition d state transition with
  | none => .error ("Agreement Process location references unknown transition " ++
      quoted (state ++ "." ++ transition))
  | some t => .ok ⟨.transition, t.processes, t.target, state, transition⟩

/-- `allowedPages`. -/
def allowedPages (state : State) : List String :=
  ((state.page :: state.on.map (·.2.page)) ++
    [if d.hasDocumentPage then some "document" else none]).filterMap id

def resolvePageLocation (state page : String) : Except String ResolvedLocation :=
  match d.states.lookup state with
  | some s =>
    if page ≠ "" ∧ page ∈ allowedPages d s then .ok ⟨.page, s.processes, state, "", ""⟩
    else .error ("Page " ++ quoted page ++ " is not valid for agreement code " ++
      quoted d.code ++ " in state " ++ quoted state)
  | none => .error ("Page " ++ quoted page ++ " is not valid for agreement code " ++
      quoted d.code ++ " in state " ++ quoted state)

/-- `resolveLocation`. -/
def resolveLocation : Location → Except String ResolvedLocation
  | .create => .ok ⟨.create, d.create.processes, d.create.target, "", ""⟩
  | .transition state transition => resolveTransitionLocation d state transition
  | .page state page => resolvePageLocation d state page

/-! ### Contexts -/

/-- The outputs as a value. -/
def outputsData (outputs : Outputs) : Data := .object (outputs.map fun p ↦ (p.1, .object p.2))

/-- `locationContext`, with the agreement there is by then. -/
def locationContext (context : Context) (location : ResolvedLocation)
    (agreement : List (String × Data)) : List (String × Data) :=
  match location.executionLocation with
  | .create => [("application", context.application)]
  | .transition =>
    [("agreement", .object agreement),
      ("transition", .object [("name", .string location.transitionName),
        ("values", context.transitionValues)])]
  | .page => [("agreement", .object agreement)]

/-- `toProcessContext`. -/
def toProcessContext (context : Context) (location : ResolvedLocation) (state : RunState) :
    List (String × Data) :=
  locationContext context location (state.candidate.elim context.agreement (·.agreement)) ++
    [("execution", .object (assign context.execution
        [("location", .string location.executionLocation.text),
          ("target", .string location.target)])),
      ("outputs", outputsData state.outputs)]

/-! ### Processes -/

/-- `resolveProcessMapping`, logged. -/
def resolveProcessMapping (reader : Reader) (outputs : Outputs) (mapping : Data)
    (context : List (String × Data)) (error : String) : Run Data :=
  ((resolveMapping outside.jsonata mapping ⟨.object context, .undefined, false⟩).mapLog
    (.evaluated reader mapping outputs)).mapError fun _ ↦ error

/-- `validateMappedValue`. -/
def validateMappedValue (schema : Schema) (value : Data) (message : String) :
    Except String Data :=
  (schema.validate value).mapError fun paths ↦ message ++ " at: " ++ paths

/-- `callEndpoint`. -/
def callEndpoint (processKey : String) (endpoint : List (String × Data)) (body : Data) :
    Run Data := do
  Logged.note (.called processKey body)
  Logged.lift <| (outside.callEndpoint (.object (assign [("code", .string processKey)] endpoint))
    (.object [("BODY", body)])).mapError fun failure ↦ failure.badGateway.getD
      ("Agreement Process " ++ quoted processKey ++ " endpoint call failed")

/-- One entry of `mapOutput`. -/
def mapOutputEntry (processKey : String) (outputs : Outputs) (context : List (String × Data))
    (entry : String × Data) : Run (String × Data) := do
  let malformed := "Agreement Process " ++ quoted processKey ++ " received a malformed response"
  let mapped ← resolveProcessMapping outside (.process processKey) outputs entry.2 context malformed
  match findAgreementProcessOutputSchema outside entry.1 with
  | none => Logged.lift (.error malformed)
  | some schema =>
    let value ← Logged.lift <| validateMappedValue schema mapped
      ("Agreement Process " ++ quoted processKey ++ " returned malformed output " ++
        quoted entry.1)
    return (entry.1, value)

/-- An endpoint's executable. -/
def executeEndpoint (processKey : String) (endpoint : List (String × Data)) (body : Data)
    (output : List (String × Data)) (outputs : Outputs) (context : List (String × Data)) :
    Run ProcessResult := do
  let body ← resolveProcessMapping outside (.process processKey) outputs body context
    ("Agreement Process " ++ quoted processKey ++ " request mapping failed")
  let response ← callEndpoint outside processKey endpoint body
  let entries ← Logged.all <| output.map <|
    mapOutputEntry outside processKey outputs (setEntry "response" response context)
  return ⟨[], entries⟩

/-- `mapped ?? {}`. -/
def orEmpty : Data → Data
  | .undefined => .object []
  | .null => .object []
  | mapped => mapped

/-- `validateHandlerResult`. -/
def validateHandlerResult (processKey : String) (handler : Handler) (result : Data) :
    Except String (List Data) :=
  match result, handler.commitOperationsSchema with
  | .undefined, _ => .ok []
  | _, none => .error ("Agreement Process handler " ++ quoted processKey ++
      " returned unsupported commit operations")
  | result, some schema => do
    let value ← validateMappedValue schema result
      ("Agreement Process handler " ++ quoted processKey ++
        " returned malformed commit operations")
    return (value.property "commitOperations").elements

/-- A handler's executable. -/
def executeHandler (processKey : String) (input : Data) (outputs : Outputs)
    (context : List (String × Data)) : Run ProcessResult := do
  let handler ← Logged.lift (findProcessHandler outside processKey)
  let mapped ← resolveProcessMapping outside (.process processKey) outputs input context
    ("Agreement Process " ++ quoted processKey ++ " input mapping failed")
  let input ← Logged.lift <| validateMappedValue handler.inputSchema (orEmpty mapped)
    ("Agreement Process " ++ quoted processKey ++ " input failed validation")
  let agreement := (Data.object context).property "agreement"
  Logged.note (.executed processKey agreement)
  let result ← Logged.lift <|
    handler.execute agreement ((Data.object context).property "execution") input
  let commitOperations ← Logged.lift (validateHandlerResult processKey handler result)
  return ⟨commitOperations, []⟩

/-- The executable of a process. -/
def execute (processKey : String) (definition : ProcessDefinition) (outputs : Outputs)
    (context : List (String × Data)) : Run ProcessResult :=
  match definition with
  | .endpoint endpoint body output =>
    executeEndpoint outside processKey endpoint body output outputs context
  | .handler input => executeHandler outside processKey input outputs context

/-! ### Sequences -/

/-- `resolveTransitionValues`. -/
def resolveTransitionValues (location : ResolvedLocation) (agreement : List (String × Data))
    (outputs : Outputs) : Run (Option (List (String × Data))) :=
  match (findTransition d location.stateName location.transitionName).bind (·.values) with
  | none => return none
  | some mapping => do
    let mapped ← resolveProcessMapping outside .transitionValues outputs mapping
      [("agreement", .object agreement), ("outputs", outputsData outputs)]
      ("Agreement definition " ++ quoted d.code ++ " could not resolve transition values")
    let values ← Logged.lift (outside.reconcile agreement mapped)
    return some values

/-- `resolveCandidate`. -/
def resolveCandidate (location : ResolvedLocation) (context : Context) (outputs : Outputs) :
    Run Candidate := do
  Logged.note .resolving
  let agreementValues ← resolveTransitionValues outside d location context.agreement outputs
  let agreement := agreementValues.elim context.agreement (assign context.agreement)
  Logged.note (.candidate agreement agreementValues)
  return ⟨agreement, agreementValues⟩

/-- `resolveWhenPending`. -/
def resolveWhenPending (location : ResolvedLocation) (context : Context) (state : RunState)
    (pending : Bool) : Run RunState :=
  if state.candidate.isNone && pending then do
    let candidate ← resolveCandidate outside d location context state.outputs
    return { state with candidate := some candidate }
  else return state

/-- `recordProcessResult`. -/
def recordProcessResult (state : RunState) (processKey : String) (result : ProcessResult) :
    RunState :=
  { state with
    outputs := setEntry processKey result.output state.outputs
    commitOperations := state.commitOperations ++ result.commitOperations }

/-- One turn of the loop of `runSequence`. -/
def runProcess (location : ResolvedLocation) (context : Context) (state : RunState)
    (processKey : String) : Run RunState :=
  match d.processDefinitions.lookup processKey with
  | none => Logged.lift (.error "Cannot read properties of undefined (reading 'type')")
  | some definition => do
    let state ← resolveWhenPending outside d location context state
      (location.executionLocation = .transition && definition.isHandler)
    let result ← execute outside processKey definition state.outputs
      (toProcessContext context location state)
    return recordProcessResult state processKey result

/-- The loop of `runSequence`. -/
def runProcesses (location : ResolvedLocation) (context : Context) (state : RunState) :
    List String → Run RunState
  | [] => return state
  | processKey :: rest => do
    let state ← runProcess outside d location context state processKey
    runProcesses location context state rest

def runSequence (location : ResolvedLocation) (context : Context) : Run SequenceResult := do
  let state ← runProcesses outside d location context ⟨[], [], none⟩ location.processes
  let state ← resolveWhenPending outside d location context state
    (location.executionLocation = .transition)
  return ⟨state.outputs, state.candidate.bind (·.agreementValues), state.commitOperations⟩

/-- What `compileAgreementProcesses` returns, run. -/
def runLocation (location : Location) (context : Context) : Run SequenceResult := do
  let resolved ← Logged.lift (resolveLocation d location)
  runSequence outside d resolved context

end

end FgGas.Processes
