import FgGas.Machine.Property
import FgGas.Processes.OutputDependencies

/-!
# Compiling the processes of a definition

The checks an agreement definition goes through before any of its processes runs: of each process
(`src/agreements/models/agreement-definitions/processes/compile-process-definitions.js`), of the
sequences they run in
(`src/agreements/models/agreement-definitions/processes/agreement-process-runtime.js`) and of the
values mapped at a creation and at a transition
(`src/agreements/models/agreement-definitions/compile-creation-mappings.js`,
`src/agreements/models/agreement-definitions/compile-transition-value-mapping.js`). What Joi makes
of the schemas, the handlers and the endpoints are parameters.
-/

namespace FgGas.Processes

open Machine

/-! ### Fields a schema knows -/

/-- What `schema.describe()` tells of a schema: its type, the fields of an object, the items of an
array, and whether unknown fields are allowed or the value is forbidden. -/
inductive Description
  | mk (type : String) (keys : List (String × Description)) (items : List Description)
      (unknown : Bool) (forbidden : Bool)

namespace Description

def type : Description → String
  | mk type _ _ _ _ => type

def keys : Description → List (String × Description)
  | mk _ keys _ _ _ => keys

/-- `arrayItemSchema`. -/
def item : Description → Description
  | mk _ _ items _ _ => items.head?.getD (mk "" [] [] false false)

def allowsUnknownFields : Description → Bool
  | mk _ _ _ unknown _ => unknown

def isForbidden : Description → Bool
  | mk _ _ _ _ forbidden => forbidden

end Description

/-- `findInField`, of a field that a finder goes on in. -/
def findInField (schema : Description) (key fieldPath : String)
    (find : Description → Option String) : Option String :=
  match property schema.keys key with
  | .undefined => some fieldPath
  | .inherited => none
  | .own field => if field.isForbidden then some fieldPath else find field

/-- `findUnknownMappingField`. -/
def findUnknownMappingField (mapping : Data) (schema : Description) (path : String) :
    Option String :=
  match mapping with
  | .array items =>
    if schema.type = "array" then
      items.attach.zipIdx.findSome? fun (item, index) ↦
        findUnknownMappingField item.1 schema.item (path ++ "[" ++ toString index ++ "]")
    else if schema.type = "object" && !schema.allowsUnknownFields then
      items.attach.zipIdx.findSome? fun (item, index) ↦
        let fieldPath := path ++ "." ++ toString index
        findInField schema (toString index) fieldPath fun field ↦
          findUnknownMappingField item.1 field fieldPath
    else none
  | .object entries =>
    if schema.type = "array" then
      match _hitems : entries.lookup "items" with
      | some items => findUnknownMappingField items schema.item path
      | none => none
    else if schema.type = "object" && !schema.allowsUnknownFields then
      entries.attach.findSome? fun entry ↦
        let fieldPath := path ++ "." ++ entry.1.1
        findInField schema entry.1.1 fieldPath fun field ↦
          findUnknownMappingField entry.1.2 field fieldPath
    else none
  | _ => none
termination_by sizeOf mapping
decreasing_by
  · have := List.sizeOf_lt_of_mem item.2
    simp only [Data.array.sizeOf_spec]
    omega
  · have := List.sizeOf_lt_of_mem item.2
    simp only [Data.array.sizeOf_spec]
    omega
  · exact sizeOf_lt_of_mem (mem_of_lookup _hitems)
  · exact sizeOf_lt_of_mem entry.2

/-! ### Definitions -/

/-- A process: an endpoint, with the body of its request and its outputs, or a handler, with its
input unless that is undefined. -/
inductive ProcessDefinition
  | endpoint (endpoint : List (String × Data)) (body : Data) (output : List (String × Data))
  | handler (input : Data)

/-- The outputs a process declares. -/
def ProcessDefinition.output : ProcessDefinition → List (String × Data)
  | endpoint _ _ output => output
  | handler _ => []

def ProcessDefinition.isHandler : ProcessDefinition → Bool
  | endpoint _ _ _ => false
  | handler _ => true

/-- `definition.request`, `definition.input` and `definition.output`. -/
def ProcessDefinition.parts : ProcessDefinition → List Data
  | endpoint _ body output => [.object [("body", body)], .undefined, .object output]
  | handler input => [.undefined, input, .undefined]

/-- A transition of a state. -/
structure Transition where
  target : String
  page : Option String
  values : Option Data
  processes : List String

/-- A state. -/
structure State where
  page : Option String
  processes : List String
  on : List (String × Transition)

/-- What creates an agreement. The values are an object's, under names of their own. -/
structure Create where
  target : String
  application : Data
  values : List (String × Data)
  processes : List String
  distinct : (values.map Prod.fst).Nodup

/-- What of an agreement definition has to do with processes and mapped values. -/
structure Definition where
  code : String
  processDefinitions : List (String × ProcessDefinition)
  create : Create
  states : List (String × State)
  hasDocumentPage : Bool

/-- A schema as Joi has it: its description, and the validated value or an error. -/
structure Schema where
  description : Description
  validate : Data → Except String Data

/-- A registered handler: what it is executed with are the agreement, the execution and its input,
and what it returns are commit operations, if its schema knows any. -/
structure Handler where
  locations : List String
  inputSchema : Schema
  commitOperationsSchema : Option Schema
  execute : Data → Data → Data → Except String Data

/-- An endpoint call that failed, with what says so to the caller if it is a bad gateway. -/
structure CallFailure where
  badGateway : Option String

/-- What lies outside of the code: jsonata, the schemas, the handlers and the endpoints, and what
the values mapped at a transition become when they are checked and written over the agreement's. The
schema of an agreement's values converts nothing: it accepts them as they are, or not. -/
structure Outside where
  jsonata : Jsonata
  outputSchema : String → Schema
  transitionValues : Description
  agreementValues : List (String × Data) → Bool
  reconcile : List (String × Data) → Data → Except String (List (String × Data))
  handlers : List (String × Handler)
  callEndpoint : Data → Data → Except CallFailure Data

/-- The names of `processOutputSchemas`. -/
def processOutputs : List String :=
  ["schemeCode", "name", "applicant", "startDate", "endDate", "parcels", "annualAmountPence",
    "totalAmountPence", "actions", "items", "paymentSchedule"]

section
variable (outside : Outside)

def findAgreementProcessOutputSchema (field : String) : Option Schema :=
  if field ∈ processOutputs then some (outside.outputSchema field) else none

def quoted (text : String) : String := "\"" ++ text ++ "\""

/-! ### Processes -/

def assertValidMapping (processKey path : String) (mapping : Data) : Except String Unit :=
  (validateProcessMapping outside.jsonata mapping).mapError fun _ ↦
    "Agreement Process " ++ quoted processKey ++ " " ++ path ++ " has an invalid mapping"

def assertKnownMappingFields (mapping : Data) (schema : Description) (path : String) :
    Except String Unit :=
  match findUnknownMappingField mapping schema path with
  | some unknownPath =>
    .error ("Agreement Process mapping field " ++ quoted unknownPath ++ " is unknown")
  | none => .ok ()

def assertKnownOutputMappings (processKey : String) (output : List (String × Data)) :
    Except String Unit :=
  output.forM fun (name, mapping) ↦
    match findAgreementProcessOutputSchema outside name with
    | none => .error
        ("Agreement Process " ++ quoted processKey ++ " declares unknown output " ++ quoted name)
    | some schema =>
      assertKnownMappingFields mapping schema.description (processKey ++ ".output." ++ name)

def findProcessHandler (processKey : String) : Except String Handler :=
  match outside.handlers.lookup processKey with
  | some handler => .ok handler
  | none => .error
      ("Agreement Process handler " ++ quoted processKey ++ " has no registered handler")

def compileEndpoint (processKey : String) (body : Data) (output : List (String × Data)) :
    Except String Unit := do
  assertValidMapping outside processKey "request.body" body
  assertValidMapping outside processKey "output" (.object output)
  assertKnownOutputMappings outside processKey output

def compileHandler (processKey : String) (input : Data) : Except String Unit := do
  let handler ← findProcessHandler outside processKey
  assertValidMapping outside processKey "input" input
  assertKnownMappingFields input handler.inputSchema.description (processKey ++ ".input")

def compileProcess (processKey : String) (definition : ProcessDefinition) : Except String Unit := do
  match definition with
  | .endpoint _ body output => compileEndpoint outside processKey body output
  | .handler input => compileHandler outside processKey input
  discard <| (findProcessOutputDependencies outside.jsonata definition.parts).mapError
    fun message ↦ "Agreement Process " ++ quoted processKey ++
      " has an invalid output dependency: " ++ message

/-- `compileProcessDefinitions`. -/
def compileProcessDefinitions (definitions : List (String × ProcessDefinition)) :
    Except String Unit :=
  definitions.forM fun (key, definition) ↦ compileProcess outside key definition

end

/-! ### Sequences -/

/-- Where a sequence runs. -/
inductive SequenceLocation
  | create
  | page
  | transition
  deriving DecidableEq, Repr

/-- `location`, as it is written. -/
def SequenceLocation.text : SequenceLocation → String
  | create => "create"
  | page => "page"
  | transition => "transition"

/-- A sequence of processes, and the values that are there without them. -/
structure ProcessSequence where
  location : SequenceLocation
  path : String
  processes : List String
  produced : List String

/-- The sequences of one state. -/
def stateSequences (stateName : String) (state : State) : List ProcessSequence :=
  ⟨.page, "states." ++ stateName ++ ".processes", state.processes, []⟩ ::
    state.on.map fun (transitionName, transition) ↦
      ⟨.transition, "states." ++ stateName ++ ".on." ++ transitionName ++ ".processes",
        transition.processes, []⟩

def collectSequences (d : Definition) : List ProcessSequence :=
  ⟨.create, "create.processes", d.create.processes, d.create.values.map Prod.fst⟩ ::
    d.states.flatMap fun (stateName, state) ↦ stateSequences stateName state

section
variable (outside : Outside) (definitions : List (String × ProcessDefinition))

def requireProcessDefinition (processKey : String) (sequence : ProcessSequence) :
    Except String ProcessDefinition :=
  match definitions.lookup processKey with
  | some definition => .ok definition
  | none => .error ("Agreement Process reference " ++ quoted sequence.path ++ " names " ++
      quoted processKey ++ ", which is not defined")

/-- `assertProducedOutput`. An output's name that is empty passes for none. -/
def assertProducedOutput (dependency : Dependency) (processKey : String) : Except String Unit :=
  match dependency.outputName with
  | none => .ok ()
  | some outputName =>
    require (outputName = "" || (definitions.lookup dependency.processKey).any fun definition ↦
        decide (outputName ∈ definition.output.map Prod.fst))
      ("Agreement Process " ++ quoted dependency.processKey ++ " does not produce output " ++
        quoted outputName ++ " required by " ++ quoted processKey)

def assertDependency (dependency : Dependency) (processKey : String) (sequence : ProcessSequence)
    (seen : List String) : Except String Unit := do
  require (dependency.processKey ∈ seen)
    ("Agreement Process " ++ quoted processKey ++ " depends on " ++
      quoted dependency.processKey ++ ", which must occur earlier in " ++ quoted sequence.path)
  assertProducedOutput definitions dependency processKey

/-- `recordOutputs`, of the names declared. -/
def recordOutputs (sequence : ProcessSequence) (produced : List String) :
    List String → Except String (List String)
  | [] => .ok produced
  | outputName :: rest => do
    require (outputName ∉ produced)
      ("Agreement Process sequence " ++ quoted sequence.path ++ " output " ++
        quoted outputName ++ " has competing producers")
    recordOutputs sequence (produced ++ [outputName]) rest

def assertHandlerLocation (processKey : String) (definition : ProcessDefinition)
    (sequence : ProcessSequence) : Except String Unit :=
  if definition.isHandler then do
    let handler ← findProcessHandler outside processKey
    require (sequence.location.text ∈ handler.locations)
      ("Agreement Process handler " ++ quoted processKey ++ " is not allowed at location " ++
        quoted sequence.location.text)
  else .ok ()

def requiredCreationValues : List String := ["actions", "items"]

def assertRequiredCreationValues (sequence : ProcessSequence) (produced : List String) :
    Except String Unit :=
  match sequence.location, requiredCreationValues.find? (· ∉ produced) with
  | .create, some missing => .error ("Agreement Process sequence " ++ quoted sequence.path ++
      " has no producer for required Agreement value " ++ quoted missing)
  | _, _ => .ok ()

/-- One turn of the loop of `validateSequence`: the outputs produced with the process's. -/
def validateProcess (sequence : ProcessSequence) (seen produced : List String)
    (processKey : String) : Except String (List String) := do
  let definition ← requireProcessDefinition definitions processKey sequence
  require (processKey ∉ seen) ("Agreement Process sequence " ++ quoted sequence.path ++
    " contains " ++ quoted processKey ++ " more than once")
  let dependencies ← findProcessOutputDependencies outside.jsonata definition.parts
  dependencies.forM fun dependency ↦
    assertDependency definitions dependency processKey sequence seen
  let produced ← recordOutputs sequence produced (definition.output.map Prod.fst)
  assertHandlerLocation outside processKey definition sequence
  return produced

/-- The loop of `validateSequence`, with the processes seen and the outputs produced. -/
def validateProcesses (sequence : ProcessSequence) (seen produced : List String) :
    List String → Except String (List String)
  | [] => .ok produced
  | processKey :: rest => do
    let produced ← validateProcess outside definitions sequence seen produced processKey
    validateProcesses sequence (seen ++ [processKey]) produced rest

def validateSequence (sequence : ProcessSequence) : Except String Unit := do
  let produced ← validateProcesses outside definitions sequence [] sequence.produced
    sequence.processes
  assertRequiredCreationValues sequence produced

end

section
variable (outside : Outside) (d : Definition)

def validateSequences : Except String Unit :=
  (collectSequences d).forM (validateSequence outside d.processDefinitions)

/-! ### Values mapped at a transition -/

/-- A transition with what the errors of its values name. -/
structure TransitionEntry where
  path : String
  stateName : String
  transitionName : String
  transition : Transition

def transitionEntries : List TransitionEntry :=
  d.states.flatMap fun (stateName, state) ↦ state.on.map fun (transitionName, transition) ↦
    ⟨"states." ++ stateName ++ ".on." ++ transitionName ++ ".values", stateName, transitionName,
      transition⟩

/-- A mapping of a definition that does not validate. -/
def invalidMapping (path : String) : String :=
  "Invalid agreement definition " ++ quoted d.code ++ ": " ++ quoted path ++
    " contains an invalid mapping"

/-- A field that the definition's schemas do not know. -/
def unknownField (path : String) : String :=
  "Invalid agreement definition " ++ quoted d.code ++ ": " ++ quoted path ++ " is unknown"

/-- `compileMapping`, of the values of a transition that has some. -/
def compileTransitionMapping (entry : TransitionEntry) (mapping : Data) : Except String Unit := do
  (validateProcessMapping outside.jsonata mapping).mapError fun _ ↦ invalidMapping d entry.path
  match findUnknownMappingField mapping outside.transitionValues entry.path with
  | some unknownPath => .error (unknownField d unknownPath)
  | none => .ok ()

def assertDependencyOutput (entry : TransitionEntry) (dependency : Dependency) :
    Except String Unit :=
  match d.processDefinitions.lookup dependency.processKey with
  | none => .error ("Agreement transition values " ++ quoted entry.path ++
      " depend on undefined Process " ++ quoted dependency.processKey)
  | some definition =>
    require (dependency.outputName.all fun outputName ↦
        outputName = "" || decide (outputName ∈ definition.output.map Prod.fst))
      ("Agreement transition values " ++ quoted entry.path ++ " depend on missing output " ++
        quoted (dependency.processKey ++ "." ++ dependency.outputName.getD "undefined"))

/-- Whether a process of a sequence is a handler. -/
def isHandlerKey (processKey : String) : Bool :=
  (d.processDefinitions.lookup processKey).any ProcessDefinition.isHandler

/-- `assertProducerBeforeHandlers`. -/
def assertProducerBeforeHandlers (entry : TransitionEntry) (processKey : String)
    (firstHandlerIndex : Option Nat) : Except String Unit :=
  match entry.transition.processes.idxOf? processKey, firstHandlerIndex with
  | none, _ => .error ("Agreement transition values " ++ quoted entry.path ++
      " require Process " ++ quoted processKey ++ " in the transition sequence")
  | some producerIndex, some firstHandlerIndex =>
    require (producerIndex < firstHandlerIndex) ("Agreement transition values require " ++
      quoted processKey ++ " before staged handler " ++
      quoted (entry.transition.processes[firstHandlerIndex]?.getD "undefined"))
  | some _, none => .ok ()

def assertDependenciesBeforeHandlers (entry : TransitionEntry) (mapping : Data) :
    Except String Unit := do
  let firstHandlerIndex := entry.transition.processes.findIdx? (isHandlerKey d)
  let dependencies ←
    findProcessOutputDependencies outside.jsonata [.undefined, mapping, .undefined]
  dependencies.forM fun dependency ↦ do
    assertDependencyOutput d entry dependency
    assertProducerBeforeHandlers entry dependency.processKey firstHandlerIndex

/-- The checks of one transition. -/
def compileTransitionEntry (entry : TransitionEntry) : Except String Unit :=
  match entry.transition.values with
  | none => .ok ()
  | some mapping => do
    compileTransitionMapping outside d entry mapping
    assertDependenciesBeforeHandlers outside d entry mapping

/-- `compileTransitionValueMappings`. -/
def compileTransitionValueMappings : Except String Unit :=
  (transitionEntries d).forM (compileTransitionEntry outside d)

/-! ### Values mapped at a creation -/

/-- `compileMapping`. -/
def compileCreationMapping (mapping : Data) (path : String) : Except String Unit :=
  (validateProcessMapping outside.jsonata mapping).mapError fun _ ↦ invalidMapping d path

def assertKnownCreationValueFields : Except String Unit :=
  d.create.values.forM fun (field, mapping) ↦
    match findAgreementProcessOutputSchema outside field with
    | none => .error ("Invalid agreement definition " ++ quoted d.code ++ ": " ++
        quoted ("create.values." ++ field) ++ " is not a supported Agreement value")
    | some schema =>
      match findUnknownMappingField mapping schema.description ("create.values." ++ field) with
      | some unknownPath => .error (unknownField d unknownPath)
      | none => .ok ()

def compileCreationMappings : Except String Unit := do
  compileCreationMapping outside d d.create.application "create.application"
  compileCreationMapping outside d (.object d.create.values) "create.values"
  assertKnownCreationValueFields outside d

/-! ### Compiling -/

/-- `compileAgreementProcesses`. -/
def compileAgreementProcesses : Except String Unit := do
  compileTransitionValueMappings outside d
  compileProcessDefinitions outside d.processDefinitions
  validateSequences outside d

/-- A definition that its compilers accept. -/
structure Accepted : Prop where
  processes : compileAgreementProcesses outside d = .ok ()
  creation : compileCreationMappings outside d = .ok ()

end

end FgGas.Processes
