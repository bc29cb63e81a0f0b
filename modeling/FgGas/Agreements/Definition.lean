import FgGas.Agreements.Action
import FgGas.Agreements.ValueMapping
import Mathlib.Data.Prod.Lex
import Mathlib.Data.List.MinMax

/-!
# Agreement definitions

What a definition makes of an action on an agreement
(`src/agreements/models/agreement-lifecycle.js`,
`src/agreements/models/agreement-definitions/compile-agreement-action-execution.js`), and which
definition that is: the one loaded for the agreement at that moment, from the catalogue of
published versions (`src/agreements/use-cases/load-agreement-definition.js`,
`src/agreements/use-cases/compile-agreement-definition.js`,
`src/common/config-broker/config-catalog.repository.js`). What the processes of a transition
put out is of a type `O`, and what a mapping resolves to is a function of it. The statuses a
load records, which the next look at the catalogue finds, and the logs are left out.
-/

namespace FgGas.Agreements

open Machine

/-- A transition of a definition: its target, and its mapping, which may fail to resolve. -/
structure ActionTransition (A P O : Type) where
  target : String
  values : Option (Agreement (Contents A P) → O → Option (Candidate A P))

/-- A compiled definition: the transitions of each state, by their actions. -/
structure AgreementDefinition (A P O : Type) where
  code : String
  configVersion : String
  states : List (String × List (String × ActionTransition A P O))

/-- The `message` of an `InvalidAgreementTransitionError`. -/
def invalidAgreementTransition (state action : String) (availableActions : List String) :
    Refusal :=
  .invalidTransition ("Cannot perform action \"" ++ action ++ "\" from agreement state \"" ++
    state ++ "\". Available actions: " ++
    (if availableActions.isEmpty then "none" else ", ".intercalate availableActions) ++ ".")

section
variable {A P O : Type}

/-- `requirePersistedAgreementState`, for the transitions of the state. -/
def AgreementDefinition.requirePersistedState (d : AgreementDefinition A P O) (state : String) :
    Except Refusal (List (String × ActionTransition A P O)) :=
  match d.states.lookup state with
  | some transitions => .ok transitions
  | none => .error (.other ("Agreement code \"" ++ d.code ++ "\" has unknown persisted state \"" ++
      state ++ "\""))

/-- `resolveAction`. -/
def AgreementDefinition.resolveAction (d : AgreementDefinition A P O) (state actionName : String) :
    Except Refusal (ActionTransition A P O) := do
  let transitions ← d.requirePersistedState state
  match transitions.lookup actionName with
  | some transition => pure transition
  | none => throw (invalidAgreementTransition state actionName (transitions.map (·.1)))

/-- `resolveActionForTarget`, for the name of the action. -/
def AgreementDefinition.resolveActionForTarget (d : AgreementDefinition A P O)
    (state target : String) : Except Refusal String := do
  let transitions ← d.requirePersistedState state
  match (transitions.filter (·.2.target = target)).map (·.1) with
  | [] => throw (invalidAgreementTransition state ("transition to " ++ target)
      (transitions.map (·.1)))
  | [actionName] => pure actionName
  | _ => throw (.other ("Agreement state \"" ++ state ++
      "\" configures multiple actions targeting \"" ++ target ++ "\""))

/-- The action a request is for. -/
def AgreementDefinition.actionFor (d : AgreementDefinition A P O) (state : String) :
    ActionRequest → Except Refusal String
  | .action options => .ok options.actionName
  | .status command => d.resolveActionForTarget state command.status

/-- The candidate a mapping resolves to, if the transition has one. -/
def ActionTransition.candidate (t : ActionTransition A P O) (definitionCode : String)
    (a : Agreement (Contents A P)) (outputs : O) : Except Refusal (Option (Candidate A P)) :=
  match t.values with
  | none => .ok none
  | some mapping =>
    match mapping a outputs with
    | some c => .ok (some c)
    | none => .error (.other ("Agreement definition \"" ++ definitionCode ++
        "\" could not resolve transition values"))

/-- The function `compileAgreementActionExecution` returns, with what the processes of the
transition come to. -/
def AgreementDefinition.executeAction [DecidableEq A] [DecidableEq P]
    (d : AgreementDefinition A P O) (a : Agreement (Contents A P)) (actionName executedAt : String)
    (processes : Except Refusal (O × List CommitOperation)) :
    Except Refusal (Execution (Contents A P)) := do
  let transition ← d.resolveAction a.state actionName
  let configVersion := if transition.target = "accepted" then some d.configVersion else none
  let result ← processes
  let candidate ← transition.candidate d.code a result.1
  let call : TransitionCall A P := ⟨d.code, transition.target, executedAt, candidate, configVersion⟩
  let values ← (call.values a.values).mapError .other
  pure ⟨transition.target, executedAt, Contents.transition values, configVersion, result.2⟩

end

/-! ### The catalogue -/

/-- `FetchStatus`. -/
inductive FetchStatus
  | pending
  | fetched
  | transientError
  | permanentError
  deriving DecidableEq, Repr

/-- The agreement definition file of a published version. -/
structure DefinitionFile where
  s3Key : Option String
  fetchStatus : FetchStatus
  deriving DecidableEq, Repr

/-- A version in the catalogue. -/
structure ConfigVersion where
  grantCode : String
  version : String
  active : Bool
  major : Nat
  minor : Nat
  patch : Nat
  definition : Option DefinitionFile
  deriving DecidableEq, Repr

/-- A version with its agreement definition file, as `toDefinition` makes it. -/
structure DefinitionTarget where
  grantCode : String
  version : String
  active : Bool
  fetchStatus : FetchStatus
  s3Key : Option String
  deriving DecidableEq, Repr

/-- `toDefinition`. -/
def ConfigVersion.toDefinition (v : ConfigVersion) : Option DefinitionTarget :=
  v.definition.map fun file ↦ ⟨v.grantCode, v.version, v.active, file.fetchStatus, file.s3Key⟩

/-- `findConfigDefinition`. -/
def findConfigDefinition (catalogue : List ConfigVersion) (grantCode version : String) :
    Option DefinitionTarget :=
  (catalogue.find? fun v ↦ v.grantCode = grantCode ∧ v.version = version).bind
    ConfigVersion.toDefinition

/-- A version has a file with a location, and no permanent error. -/
def ConfigVersion.usable (v : ConfigVersion) : Bool :=
  v.active && v.definition.any fun file ↦ file.s3Key.isSome && file.fetchStatus ≠ .permanentError

/-- `findLatestUsableDefinition`, of a major version, up to a minor and a patch version if
they are given. -/
def findLatestUsableDefinition (catalogue : List ConfigVersion) (grantCode : String) (major : Nat)
    (upperBound : Option (Nat × Nat)) : Option DefinitionTarget :=
  ((catalogue.filter fun v ↦ v.grantCode = grantCode && v.major = major && v.usable &&
      upperBound.all fun bound ↦ v.minor < bound.1 || v.minor = bound.1 && v.patch ≤ bound.2).argmax
    fun v ↦ toLex (v.minor, v.patch)).bind ConfigVersion.toDefinition

/-- A part of a version: decimal digits. -/
def parseVersionPart (part : List Char) : Option Nat :=
  if part.isEmpty || !part.all Char.isDigit then none else some (Nat.ofDigitChars 10 part 0)

/-- `parseSemver`. -/
def parseSemver (version : String) : Option (Nat × Nat × Nat) :=
  match version.toList.splitOn '.' with
  | [major, minor, patch] => do
      let major ← parseVersionPart major
      let minor ← parseVersionPart minor
      let patch ← parseVersionPart patch
      some (major, minor, patch)
  | _ => none

/-! ### Loading -/

/-- What loading a definition may throw. -/
inductive LoadFailure
  | boom (text : String)
  | endpointServiceUrl (text : String)
  | s3Fetch (isPermanent isParseError : Bool) (text : String)
  | other (text : String)
  deriving DecidableEq, Repr

/-- `unavailable`. -/
def unavailable (code version : String) : LoadFailure :=
  .boom ("Agreement definition \"" ++ code ++ "\" version \"" ++ version ++ "\" is unavailable")

/-- `classifyFailure`, for the status. -/
def LoadFailure.status : LoadFailure → FetchStatus
  | .endpointServiceUrl _ => .transientError
  | .s3Fetch isPermanent isParseError _ =>
      if isPermanent || isParseError then .permanentError else .transientError
  | .boom _ => .permanentError
  | .other _ => .transientError

/-- A definition as its producer wrote it. `checks` is what the checks of its structure and of
the URLs of its services throw. -/
structure RawDefinition (A P O : Type) where
  code : String
  configVersion : Option String
  states : List (String × List (String × ActionTransition A P O))
  checks : Except LoadFailure Unit

section
variable {A P O : Type}

/-- `compileAgreementDefinition`. -/
def compileAgreementDefinition (raw : RawDefinition A P O) (code version : String) :
    Except LoadFailure (AgreementDefinition A P O) := do
  require (raw.code = code) (.boom ("Agreement definition code \"" ++ raw.code ++
    "\" does not match \"" ++ code ++ "\""))
  require raw.configVersion.isNone (.boom ("Agreement definition \"" ++ code ++
    "\" must not declare configVersion; it is applied from the config catalog"))
  raw.checks
  pure ⟨code, version, raw.states⟩

end

/-- An entry of `compiledDefinitions`: what a definition was compiled to under a code and a
version. -/
structure CompiledDefinition (A P O : Type) where
  code : String
  version : String
  definition : AgreementDefinition A P O
  compiled : ∃ raw, compileAgreementDefinition raw code version = .ok definition

/-- The answers of the world to one attempt of a load: the catalogue, the definitions this
process has compiled, and what is stored or fetched for a target and recorded of it. -/
structure LoadOutside (A P O : Type) where
  catalogue : List ConfigVersion
  compiledDefinitions : List (CompiledDefinition A P O)
  rawDefinition : DefinitionTarget → Except LoadFailure (RawDefinition A P O)
  recorded : Except LoadFailure Unit

/-- The keys of `resolutions`. -/
inductive Resolution
  | creation
  | sameMajor
  | exact
  deriving DecidableEq, Repr

/-- `canFallBack`. -/
def Resolution.canFallBack : Resolution → Bool
  | .creation => true
  | .sameMajor => true
  | .exact => false

/-- The options of `loadAgreementDefinition`. -/
structure LoadOptions where
  code : String
  configVersion : String
  resolution : Resolution
  deriving DecidableEq, Repr

/-- `parseVersion`. -/
def parseVersion (version : String) : Except LoadFailure (Nat × Nat × Nat) :=
  (parseSemver version).elim (.error (unavailable "unknown" version)) .ok

/-- `resolveExact`. -/
def resolveExact (catalogue : List ConfigVersion) (code configVersion : String) :
    Except LoadFailure (Option DefinitionTarget) :=
  .ok (findConfigDefinition catalogue code configVersion)

/-- `resolveSameMajor`. -/
def resolveSameMajor (catalogue : List ConfigVersion) (code configVersion : String) :
    Except LoadFailure (Option DefinitionTarget) := do
  let parsed ← parseVersion configVersion
  pure (findLatestUsableDefinition catalogue code parsed.1 none)

/-- `resolveCreation`. -/
def resolveCreation (catalogue : List ConfigVersion) (code configVersion : String) :
    Except LoadFailure (Option DefinitionTarget) := do
  let parsed ← parseVersion configVersion
  match (findConfigDefinition catalogue code configVersion).filter fun target ↦
      target.active && target.fetchStatus ≠ .permanentError with
  | some target => pure (some target)
  | none => pure (findLatestUsableDefinition catalogue code parsed.1 (some parsed.2))

/-- `findTarget`. -/
def findTarget (catalogue : List ConfigVersion) (o : LoadOptions) :
    Except LoadFailure (Option DefinitionTarget) :=
  match o.resolution with
  | .creation => resolveCreation catalogue o.code o.configVersion
  | .sameMajor => resolveSameMajor catalogue o.code o.configVersion
  | .exact => resolveExact catalogue o.code o.configVersion

/-- `resolveTarget`. -/
def resolveTarget (catalogue : List ConfigVersion) (o : LoadOptions) :
    Except LoadFailure DefinitionTarget := do
  match ← findTarget catalogue o with
  | some target => pure target
  | none => throw (unavailable o.code o.configVersion)

section
variable {A P O : Type}

/-- What a definition was compiled from is there. -/
theorem exists_compiled {target : DefinitionTarget} {raw : RawDefinition A P O}
    {definition : AgreementDefinition A P O}
    (h : compileAgreementDefinition raw target.grantCode target.version = .ok definition) :
    ∃ raw : RawDefinition A P O,
      compileAgreementDefinition raw target.grantCode target.version = .ok definition :=
  ⟨raw, h⟩

/-- `load`. -/
def load (outside : LoadOutside A P O) (target : DefinitionTarget) :
    Except LoadFailure (CompiledDefinition A P O) := do
  require (target.fetchStatus ≠ .permanentError) (unavailable target.grantCode target.version)
  let raw ← outside.rawDefinition target
  match h : compileAgreementDefinition raw target.grantCode target.version with
  | .error failure => throw failure
  | .ok definition =>
    outside.recorded
    pure ⟨target.grantCode, target.version, definition, exists_compiled h⟩

/-- `loadCompiled`. -/
def loadCompiled (outside : LoadOutside A P O) (target : DefinitionTarget) :
    Except LoadFailure (CompiledDefinition A P O) :=
  match outside.compiledDefinitions.find? fun c ↦
      c.code = target.grantCode ∧ c.version = target.version with
  | some cached => .ok cached
  | none => load outside target

/-- `loadAgreementDefinition`, with the keys attempted so far and the answers to the attempts
there are until it returns. -/
def loadAgreementDefinition (o : LoadOptions) :
    List (String × String) → List (LoadOutside A P O) →
    Option (Except LoadFailure (CompiledDefinition A P O))
  | _, [] => none
  | attempted, outside :: later =>
    match resolveTarget outside.catalogue o with
    | .error failure => some (.error failure)
    | .ok target =>
      if (target.grantCode, target.version) ∈ attempted then
        some (.error (unavailable o.code o.configVersion))
      else
        match loadCompiled outside target with
        | .ok c => some (.ok c)
        | .error failure =>
          if o.resolution.canFallBack && failure.status = .permanentError then
            loadAgreementDefinition o ((target.grantCode, target.version) :: attempted) later
          else some (.error failure)

/-- `loadDefinitionForAgreement`: an agreement that was accepted has its definition pinned. -/
def loadDefinitionForAgreement (a : Agreement (Contents A P))
    (outsides : List (LoadOutside A P O)) :
    Option (Except LoadFailure (CompiledDefinition A P O)) :=
  loadAgreementDefinition
    ⟨a.code, a.configVersion, if a.acceptedAt.any (· ≠ "") then .exact else .sameMajor⟩ [] outsides

end

/-! ### Actions -/

/-- A moment as the clock gives it. -/
structure Moment where
  text : String
  nonempty : text ≠ ""

/-- An action that is executed: what is requested, when, what loading its definition finds, and
what the processes of the transition come to. -/
structure ActionCall (A P O : Type) where
  request : ActionRequest
  executedAt : Moment
  outsides : List (LoadOutside A P O)
  processes : Except Refusal (O × List CommitOperation)

section
variable {A P O : Type} [DecidableEq A] [DecidableEq P]

/-- What an action comes to under the definition that is loaded for the agreement. -/
def ActionCall.execution (l : ActionCall A P O) (a : Agreement (Contents A P)) :
    Option (Execution (Contents A P)) :=
  match loadDefinitionForAgreement a l.outsides with
  | some (.ok c) => Except.toOption do
      let actionName ← c.definition.actionFor a.state l.request
      c.definition.executeAction a actionName l.executedAt.text l.processes
  | _ => none

/-- The agreement an action commits. -/
def actionStep (a : Agreement (Contents A P)) (l : ActionCall A P O) :
    Option (Agreement (Contents A P)) :=
  (l.execution a.reloaded).map fun x ↦
    a.reloaded.transition x.target x.executedAt x.values x.configVersion

end

end FgGas.Agreements
