import FgGas.Agreements.Agreement
import FgGas.Store.Sound

/-!
# Executing an action on an agreement

`commitAgreementAction` and the two ways to it, `executeAgreementActionUseCase` and
`handleUpdateAgreementStatusCommandUseCase`
(`src/agreements/use-cases/execute-agreement-action.use-case.js`,
`src/agreements/use-cases/handle-update-agreement-status-command.use-case.js`), over one
agreement: its current document, its versions, and what the outbox holds of it. Loading and
running the agreement definition, and the validators of the event models, are outside
answers. The outbox rows of the audit events are listed apart from the others.
-/

namespace FgGas.Agreements

open Store

/-- The current document, the versions in the order of their inserts, the publications and
the audit events. -/
structure ActionStore (V : Type) where
  current : Agreement V
  versions : List (AgreementVersion V)
  outbox : List (Publication V)
  audits : List AgreementAudit
  deriving DecidableEq, Repr

/-- The current document and the unique index entries of the versions. -/
inductive ActionKey
  | agreement
  | version (version : Nat)
  | idempotencyKey (key : String)
  deriving DecidableEq, Repr

/-- The two unique indexes of the versions. -/
inductive VersionIndex
  | version
  | idempotencyKey
  deriving DecidableEq, Repr

/-- What the definition and its processes may throw: an `InvalidAgreementTransitionError`,
or anything else. -/
inductive Refusal
  | invalidTransition (text : String)
  | other (text : String)
  deriving DecidableEq, Repr

/-- What an action may throw. `refused` is what the definition, a process or an event model
threw; `concurrencyLoss` carries the version the action was executed on. -/
inductive ActionFailure
  | notFound
  | conflict
  | stale
  | unsupportedCommitOperation (type : String)
  | severalPayments
  | refused (refusal : Refusal)
  | duplicateKey (index : VersionIndex)
  | concurrencyLoss (found : Bool) (executedOn : Nat)
  deriving DecidableEq, Repr

/-- The `message` of what was thrown. -/
def ActionFailure.message : ActionFailure → String
  | .notFound => "Agreement not found"
  | .conflict => "Idempotency key has already been used"
  | .stale => "Agreement version is stale"
  | .unsupportedCommitOperation type =>
      "Unsupported Agreement Action commit operation \"" ++ type ++ "\""
  | .severalPayments => "Agreement Action cannot create more than one Payment"
  | .refused (.invalidTransition text) => text
  | .refused (.other text) => text
  | .duplicateKey _ => "E11000 duplicate key error"
  | .concurrencyLoss true _ => "Agreement version is stale"
  | .concurrencyLoss false _ => "Agreement not found"

/-- The action as the loaded definition resolves it: its target, and whether the submitted
values are valid. -/
structure ResolvedAction where
  target : String
  valid : Bool
  deriving DecidableEq, Repr

/-- The loaded definition of an agreement: the ETag, and the action it resolves. -/
structure ActionContext where
  etag : String
  action : Except String ResolvedAction

/-- A commit operation of a process result. -/
inductive CommitOperation
  | createAgreementPayment
  | other (type : String)
  deriving DecidableEq, Repr

/-- What `executeAction` computes for the transition. -/
structure Execution (V : Type) where
  target : String
  executedAt : String
  values : V → V
  configVersion : Option String
  commitOperations : List CommitOperation

/-- The answers of the world. -/
structure ActionOutside (V : Type) where
  context : Except String ActionContext
  definition : Except String Unit
  actionForStatus : Except Refusal String
  page : Except String Unit
  execution : Except Refusal (Execution V)
  publications : Except String Unit
  audit : Except String Unit
  recorded : Bool

/-- How `commitActionTransaction` returns. -/
inductive Committed
  | completed
  | concurrentUpdate
  deriving DecidableEq, Repr

/-- How a use case ends: with the agreement's location, with the snapshot of a replayed
command, with a page to correct, with an error, or with an error it logs and drops. -/
inductive Report (V : Type)
  | completed
  | replayed (snapshot : Agreement V)
  | invalid
  | failed (error : ActionFailure)
  | rejected (error : ActionFailure)
  deriving DecidableEq, Repr

variable {V : Type}

/-- The sessions of this module. -/
abbrev ActionSession (V : Type) := Session ActionKey (ActionStore V) (ActionOutside V) ActionFailure

/-- The use cases of this module; the note of a transaction is the version its action was executed
on. -/
abbrev ActionUseCase (V : Type) :=
  UseCase ActionKey (ActionStore V) (ActionOutside V) ActionFailure Nat Committed (Report V)

/-- `findAgreementByNumber`. -/
def findAgreementByNumber (agreementNumber : String) (s : ActionStore V) : Option (Agreement V) :=
  if s.current.agreementNumber = agreementNumber then some s.current else none

/-- The idempotency key a version was committed under. -/
def AgreementVersion.idempotencyKey (v : AgreementVersion V) : Option String :=
  v.actionExecution.map (·.idempotencyKey)

/-- `findVersionByIdempotencyKey`, with the action the version was committed for. -/
def findVersionByIdempotencyKey (agreementNumber idempotencyKey : String) (s : ActionStore V) :
    Option (AgreementVersion V × ActionExecution) :=
  s.versions.findSome? fun v ↦
    if v.agreementNumber = agreementNumber then
      (v.actionExecution.filter (·.idempotencyKey = idempotencyKey)).map fun x ↦ (v, x)
    else none

/-- `findCompleted` of the action: whether the key is committed, for this action. -/
def findCompleted (agreementNumber actionName idempotencyKey : String) (s : ActionStore V) :
    Except ActionFailure Bool :=
  match findVersionByIdempotencyKey agreementNumber idempotencyKey s with
  | none => .ok false
  | some (_, x) => if x.name ≠ actionName then .error .conflict else .ok true

/-- `replaceCurrentAgreement`: whether a document was modified. -/
def replaceCurrentAgreement (agreement : Agreement V) (expectedVersion : Nat) :
    ActionSession V Bool :=
  let found := fun (s : ActionStore V) ↦
    s.current.agreementNumber = agreement.agreementNumber ∧ s.current.version = expectedVersion
  .op (fun s ↦ if found s then ⟨[.agreement], fun s ↦ { s with current := agreement }⟩ else .none)
    fun s ↦ .done (decide (found s))

/-- The unique index a version would violate. -/
def violatedBy (v : AgreementVersion V) (s : ActionStore V) : Option ActionFailure :=
  if s.versions.any fun w ↦ w.agreementNumber = v.agreementNumber && w.version = v.version then
    some (.duplicateKey .version)
  else if s.versions.any fun w ↦ w.agreementNumber = v.agreementNumber &&
      w.idempotencyKey.isSome && w.idempotencyKey = v.idempotencyKey then
    some (.duplicateKey .idempotencyKey)
  else none

/-- `insertAgreementVersion`. -/
def insertAgreementVersion (v : AgreementVersion V) : ActionSession V Unit :=
  .insert (violatedBy v) (.version v.version :: (v.idempotencyKey.map .idempotencyKey).toList)
    fun s ↦ { s with versions := s.versions ++ [v] }

/-- `saveEvents`, unless building a publication or its row threw. -/
def saveEvents (built : Except String Unit) (publications : List (Publication V)) :
    ActionSession V Unit := do
  Session.orThrow (built.mapError fun text ↦ .refused (.other text))
  Session.write [] fun s ↦ { s with outbox := s.outbox ++ publications }

/-- `writeAuditEvent` in a session, unless the event is not valid. -/
def writeAuditEvent (validated : Except String Unit) (audit : AgreementAudit) :
    ActionSession V Unit := do
  Session.orThrow (validated.mapError fun text ↦ .refused (.other text))
  Session.write [] fun s ↦ { s with audits := s.audits ++ [audit] }

/-- `createLifecyclePublications`. -/
def createLifecyclePublications (current next : Agreement V) : List (Publication V) :=
  if current.state = next.state then []
  else [createLifecyclePublication next, createAgreementStatusChangedReportingPublication next]

/-- `createActionPublications`. -/
def createActionPublications (current next : Agreement V) (paymentRequested : Bool) :
    List (Publication V) :=
  if paymentRequested then
    createLifecyclePublications current next ++
      [createPaymentRequestedPublication next next.updatedAt]
  else createLifecyclePublications current next

/-- The type of an operation that is not `create-agreement-payment`. -/
def CommitOperation.unsupported : CommitOperation → Option String
  | .createAgreementPayment => none
  | .other type => some type

/-- `hasPaymentCommitOperation`. -/
def hasPaymentCommitOperation (commitOperations : List CommitOperation) :
    Except ActionFailure Bool :=
  match commitOperations.findSome? CommitOperation.unsupported with
  | some type => .error (.unsupportedCommitOperation type)
  | none =>
    if 1 < commitOperations.length then .error .severalPayments
    else .ok (commitOperations.length = 1)

/-- What a call of `commitAgreementAction` commits: `next` in place of `current`. -/
structure CommitOptions (V : Type) where
  actionName : String
  current : Agreement V
  idempotencyKey : String
  next : Agreement V
  commitOperations : List CommitOperation

/-- The version a call inserts. -/
def CommitOptions.version (o : CommitOptions V) : AgreementVersion V where
  agreementNumber := o.current.agreementNumber
  version := o.next.version
  snapshot := o.next
  versionedAt := o.next.updatedAt
  actionExecution := some ⟨o.actionName, o.idempotencyKey⟩

/-- `commitActionTransaction`. -/
def commitActionTransaction (o : CommitOptions V) (paymentRequested : Bool) :
    ActionSession V Committed := do
  let found ← Session.read (findCompleted o.current.agreementNumber o.actionName o.idempotencyKey)
  let completed ← Session.orThrow found
  if completed then pure .completed
  else
    let modified ← replaceCurrentAgreement o.next o.current.version
    if !modified then pure .concurrentUpdate
    else
      insertAgreementVersion o.version
      let outside ← Session.outside
      saveEvents outside.publications (createActionPublications o.current o.next paymentRequested)
      writeAuditEvent outside.audit (buildAgreementActionAudit o.actionName o.current o.next)
      pure .completed

/-- `isConcurrentActionConflict`. -/
def isConcurrentActionConflict : ActionFailure → Bool
  | .duplicateKey _ => true
  | _ => false

/-- `resolveConcurrentUpdate`, going on with `k`. The ETag of the stale response changes
nothing and its failure is swallowed. -/
def resolveConcurrentUpdate (o : CommitOptions V)
    (k : Except ActionFailure Unit → ActionUseCase V) : ActionUseCase V :=
  .look true fun s ↦
    match findCompleted o.current.agreementNumber o.actionName o.idempotencyKey s with
    | .error error => k (.error error)
    | .ok true => k (.ok ())
    | .ok false => .look true fun s ↦
      match findAgreementByNumber o.current.agreementNumber s with
      | none => k (.error (.concurrencyLoss false o.current.version))
      | some _ => k (.error (.concurrencyLoss true o.current.version))

/-- `commitAgreementAction`, going on with `k`. -/
def commitAgreementAction (o : CommitOptions V)
    (k : Except ActionFailure Unit → ActionUseCase V) : ActionUseCase V :=
  match hasPaymentCommitOperation o.commitOperations with
  | .error error => k (.error error)
  | .ok paymentRequested =>
    .withTransaction (.body o.current.version (commitActionTransaction o paymentRequested)) fun
      | .ok .completed => k (.ok ())
      | .ok .concurrentUpdate => resolveConcurrentUpdate o k
      | .error error =>
        if isConcurrentActionConflict error then resolveConcurrentUpdate o k else k (.error error)

/-- `recordAgreementActionFailure`, then the end: the write may fail, which is logged. -/
def recordAgreementActionFailure (audit : AgreementAudit) (report : Report V) : ActionUseCase V :=
  .ask fun outside ↦
    if outside.recorded then
      .act (fun _ ↦ ⟨[], fun s ↦ { s with audits := s.audits ++ [audit] }⟩) fun _ ↦ .ret report
    else .ret report

/-- `isAgreementActionConcurrencyLoss`. -/
def isAgreementActionConcurrencyLoss : ActionFailure → Bool
  | .concurrencyLoss _ _ => true
  | _ => false

/-- The audit unless the action lost a race, then the end. -/
def recordUnlessLost (actionName : String) (current : Agreement V) (attempted : Option Attempted)
    (idempotencyKey : String) (error : ActionFailure) (report : Report V) : ActionUseCase V :=
  if isAgreementActionConcurrencyLoss error then .ret report
  else recordAgreementActionFailure (buildAgreementActionFailureAudit actionName current attempted
    error.message idempotencyKey) report

/-- The request of `executeAgreementActionUseCase`; the submitted values are the
definition's to read. -/
structure ActionOptions where
  actionName : String
  agreementNumber : String
  ifMatch : Option String
  idempotencyKey : String
  accessSource : String
  accessSbi : String
  deriving DecidableEq, Repr

/-- `loadAgreementForAction`. -/
def loadAgreementForAction (o : ActionOptions) (s : ActionStore V) : Option (Agreement V) :=
  (findAgreementByNumber o.agreementNumber s).filter fun a ↦
    o.accessSource = "defra" && a.sbi = o.accessSbi

/-- The `catch` of `executeAgreementActionAttempt`. -/
def failAttempt (o : ActionOptions) (agreement : Agreement V) (attempted : Option Attempted)
    (error : ActionFailure) : ActionUseCase V :=
  recordUnlessLost o.actionName agreement attempted o.idempotencyKey error (.failed error)

/-- The part of `executeAgreementActionAttempt` that executes the action and commits it. -/
def executeAndCommit (o : ActionOptions) (agreement : Agreement V) (target : String) :
    ActionUseCase V :=
  .ask fun outside ↦
    match outside.execution with
    | .error refusal => failAttempt o agreement (some ⟨target, none⟩) (.refused refusal)
    | .ok x =>
      let next := agreement.transition x.target x.executedAt x.values x.configVersion
      commitAgreementAction ⟨o.actionName, agreement, o.idempotencyKey, next, x.commitOperations⟩
        fun
        | .ok () => .ret .completed
        | .error error => failAttempt o agreement (some ⟨next.state, next.version⟩) error

/-- `executeAgreementActionAttempt`. -/
def executeAgreementActionAttempt (o : ActionOptions) (agreement : Agreement V) :
    ActionUseCase V :=
  .ask fun outside ↦
    match outside.context with
    | .error text => failAttempt o agreement none (.refused (.other text))
    | .ok context =>
      if o.ifMatch.any (· ≠ context.etag) then failAttempt o agreement none .stale
      else match context.action with
        | .error text => failAttempt o agreement none (.refused (.other text))
        | .ok action =>
          let attempted : Attempted := ⟨action.target, none⟩
          if o.ifMatch ≠ some context.etag then failAttempt o agreement (some attempted) .stale
          else if !action.valid then
            match outside.page with
            | .error text => failAttempt o agreement (some attempted) (.refused (.other text))
            | .ok () => recordAgreementActionFailure (buildAgreementActionFailureAudit o.actionName
                agreement (some attempted) "Agreement action validation failed" o.idempotencyKey)
                .invalid
          else executeAndCommit o agreement action.target

/-- `executeAgreementActionUseCase`. -/
def executeAgreementAction (o : ActionOptions) : ActionUseCase V :=
  .look true fun s ↦
    match loadAgreementForAction o s with
    | none => .ret (.failed .notFound)
    | some agreement => .look true fun s ↦
      match findCompleted o.agreementNumber o.actionName o.idempotencyKey s with
      | .error error => .ret (.failed error)
      | .ok true => .ret .completed
      | .ok false => executeAgreementActionAttempt o agreement

/-- A status command. -/
structure StatusCommand where
  id : String
  agreementNumber : String
  status : String
  deriving DecidableEq, Repr

/-- `isRejectedTransition`. -/
def isRejectedTransition : ActionFailure → Bool
  | .refused (.invalidTransition _) => true
  | .stale => true
  | .concurrencyLoss found _ => found
  | _ => false

/-- The `catch` of the handler; `reportRejectedTransition` logs what it does not rethrow. -/
def failCommand (command : StatusCommand) (agreement : Agreement V) (actionName : String)
    (error : ActionFailure) : ActionUseCase V :=
  recordUnlessLost actionName agreement (some ⟨command.status, none⟩) command.id error
    (if isRejectedTransition error then .rejected error else .failed error)

/-- `executeStatusTransition`. -/
def executeStatusTransition (command : StatusCommand) (agreement : Agreement V) :
    ActionUseCase V :=
  .ask fun outside ↦
    match outside.actionForStatus with
    | .error refusal => failCommand command agreement command.status (.refused refusal)
    | .ok actionName => .ask fun outside ↦
      match outside.execution with
      | .error refusal => failCommand command agreement actionName (.refused refusal)
      | .ok x =>
        let next := agreement.transition x.target x.executedAt x.values x.configVersion
        commitAgreementAction ⟨actionName, agreement, command.id, next, x.commitOperations⟩ fun
          | .ok () => .ret .completed
          | .error error => failCommand command agreement actionName error

/-- `handleUpdateAgreementStatusCommandUseCase`. -/
def handleUpdateAgreementStatusCommand (command : StatusCommand) : ActionUseCase V :=
  .look true fun s ↦
    match findVersionByIdempotencyKey command.agreementNumber command.id s with
    -- a snapshot in another state than the command's is logged and returned all the same
    | some (v, _) => .ret (.replayed v.snapshot)
    | none => .look true fun s ↦
      match findAgreementByNumber command.agreementNumber s with
      | none => .ret (.failed .notFound)
      | some agreement => .ask fun outside ↦
        match outside.definition with
        | .error text => .ret (.failed (.refused (.other text)))
        | .ok () => executeStatusTransition command agreement

/-- A call of one of the two use cases. -/
inductive ActionRequest
  | action (options : ActionOptions)
  | status (command : StatusCommand)
  deriving DecidableEq, Repr

/-- The use case of a request. -/
def ActionRequest.run : ActionRequest → ActionUseCase V
  | .action options => executeAgreementAction options
  | .status command => handleUpdateAgreementStatusCommand command

/-- The idempotency key of a request. -/
def ActionRequest.key : ActionRequest → String
  | .action options => options.idempotencyKey
  | .status command => command.id

end FgGas.Agreements
