import FgGas.Events.AuditedTransaction
import FgGas.Grants.VersionFiles
import FgGas.Store.Sound

/-!
# Fetching the definitions of a version

`fetchConfigDefinitionsUseCase`
(`src/grants/use-cases/fetch-config-definitions.use-case.js`) over the definitions stored by the
grants, the agreements and the payments: the files that are missing are read one after another, and
then checked and stored in one transaction, with the audit event of the fetch. What the reads come
to is given with each fetch; what the operations of the transaction come to is asked of the world in
each pass. Definitions are never changed or deleted.
-/

namespace FgGas.Grants.FetchDefinitions

open Store VersionFiles Events

/-- `reason`. -/
inductive Reason
  | missing
  | forbidden
  | unparseable
  | timeout
  | invalid
  deriving DecidableEq, Repr

/-- What a file came to. -/
inductive FileOutcome
  | stored (file : DefinitionType)
  | failed (file : DefinitionType) (reason : Reason) (message : Option String)
  deriving DecidableEq, Repr

/-- The file of an outcome. -/
def FileOutcome.file : FileOutcome → DefinitionType
  | .stored file | .failed file _ _ => file

/-- `outcome === "failed"`. -/
def FileOutcome.isFailed : FileOutcome → Bool
  | .stored _ => false
  | .failed _ _ _ => true

/-- An error of the driver. -/
structure DriverError where
  transientTransactionError : Bool
  duplicateKey : Bool
  message : String
  deriving DecidableEq, Repr

/-- What is thrown; a Boom error may carry files as its data. -/
inductive Thrown
  | noLocation
  | s3Fetch (code : String) (message : String)
  | boom (statusCode : Nat) (message : String) (files : List FileOutcome)
  | typeError (message : String)
  | driver (error : DriverError)
  | other (message : String)
  deriving DecidableEq, Repr

/-- `error.message`. -/
def Thrown.message : Thrown → String
  | .noLocation => ""
  | .s3Fetch _ message | .boom _ message _ | .typeError message | .other message => message
  | .driver error => error.message

/-- `error.data?.files ?? []`. -/
def Thrown.files : Thrown → List FileOutcome
  | .boom _ _ files => files
  | _ => []

/-- `isDefinitionDefect`. -/
def isDefinitionDefect : Thrown → Bool
  | .boom statusCode _ _ => statusCode = 500
  | .typeError _ => true
  | _ => false

/-- `s3ReasonOf`. -/
def s3ReasonOf (code : String) : Reason :=
  if code = "NoSuchKey" then .missing
  else if code = "AccessDenied" then .forbidden
  else if code = "PARSE_ERROR" then .unparseable
  else .timeout

/-- `reasonOf`. -/
def reasonOf : Thrown → Option Reason
  | .noLocation => some .missing
  | .s3Fetch code _ => some (s3ReasonOf code)
  | error => if isDefinitionDefect error then some .invalid else none

/-- `MESSAGE_MAX`. -/
def messageMax : Nat := 500

/-- `failed`. -/
def failed (file : DefinitionType) (reason : Reason) (error : Thrown) : FileOutcome :=
  .failed file reason
    (if reason = .invalid then some (String.ofList (error.message.toList.take messageMax))
    else none)

/-- `isTransient`. -/
def isTransient : Thrown → Bool
  | .driver error => error.transientTransactionError
  | _ => false

/-- The error of a fetch that stops. -/
def stopped (handled : List FileOutcome) : Thrown :=
  .boom 500 "Fetch definitions stopped" (handled.filter FileOutcome.isFailed)

/-- `settle`: what a step returns, or the outcome it comes to. -/
def settle {A : Type} (file : DefinitionType) (handled : List FileOutcome) :
    Except Thrown A → Except Thrown (Except FileOutcome A)
  | .ok value => .ok (.ok value)
  | .error error =>
      match reasonOf error with
      | some reason => .ok (.error (failed file reason error))
      | none => .error (if isTransient error then error else stopped handled)

/-- `inTurn`. -/
def inTurn {m : Type → Type} [Monad m] {A B : Type} (items : List A) (next : A → List B → m B) :
    m (List B) :=
  items.foldlM (fun handled item ↦ do return handled ++ [← next item handled]) []

/-! ### Reading -/

section
variable {B : Type}

/-- The arguments of a fetch. -/
structure FetchArgs where
  grantCode : String
  version : String
  caller : String
  deriving DecidableEq, Repr

/-- What the reads of a fetch come to: the version's row, by the files it has; the reads of what is
stored of them; and of each file its location and what S3 answers. -/
structure Answers (B : Type) where
  findVersion : Except Thrown (Option (DefinitionType → Bool))
  storedVersions : Except Thrown Unit
  findConfigDefinition : DefinitionType → Except Thrown (Option String)
  fetchConfigFile : DefinitionType → Except Thrown B

/-- `FILE_TYPES`. -/
def fileTypes : List DefinitionType := [.grant, .agreement, .payment]

/-- `configVersionNotFound`. -/
def configVersionNotFound : Thrown := .boom 404 "grant version not found" []

/-- `readFile`. -/
def readFile (answers : Answers B) (file : DefinitionType) : Except Thrown B := do
  let s3Key ← answers.findConfigDefinition file
  match s3Key.filter (· ≠ "") with
  | some _ => answers.fetchConfigFile file
  | none => throw .noLocation

/-- A file that was read, or could not be. -/
inductive Read (B : Type)
  | definition (file : DefinitionType) (definition : B)
  | failed (outcome : FileOutcome)

/-- The outcome of a file that could not be read. -/
def Read.outcome : Read B → Option FileOutcome
  | .definition _ _ => none
  | .failed outcome => some outcome

/-- `readEach`. -/
def readEach (answers : Answers B) (missingFiles : List DefinitionType) :
    Except Thrown (List (Read B)) :=
  inTurn missingFiles fun file handled ↦ do
    match ← settle file (handled.filterMap Read.outcome) (readFile answers file) with
    | .ok definition => return .definition file definition
    | .error outcome => return .failed outcome

end

/-! ### Storing -/

section
variable {B G : Type}

/-- The file, the grant code and the version of a definition: the unique key of its collection. -/
abbrev DefinitionKey := DefinitionType × String × String

/-- A stored definition. -/
structure StoredDefinition (G : Type) where
  key : DefinitionKey
  document : G
  deriving DecidableEq, Repr

/-- The audit event of a fetch, with the reasons of the files that failed. -/
structure FetchAudit where
  args : FetchArgs
  files : List (DefinitionType × Option Reason)
  deriving DecidableEq, Repr

/-- The definitions of the three collections, and the audit events of the fetches. -/
structure DefinitionStore (G : Type) where
  definitions : List (StoredDefinition G)
  audits : List FetchAudit
  deriving DecidableEq, Repr

/-- What the operations of a pass come to: for each file the read of what is stored of it and the
insert of it, where these fail; the insert of the audit event; and the commit. -/
structure Outside where
  isStored : DefinitionType → Option Thrown
  insertOne : DefinitionType → Option DriverError
  writeAudit : Option Thrown
  commit : DbReply Thrown

/-- The sessions of this module. -/
abbrev FetchSession (G : Type) := Session DefinitionKey (DefinitionStore G) Outside Thrown

/-- What the caller of a fetch is answered. -/
abbrev FetchReply := Except Thrown (List FileOutcome)

/-- The use cases of this module. -/
abbrev FetchUseCase (G : Type) :=
  UseCase DefinitionKey (DefinitionStore G) Outside Thrown Unit FetchReply FetchReply

/-- A definition of the key is stored. -/
def DefinitionStore.has (s : DefinitionStore G) (key : DefinitionKey) : Bool :=
  s.definitions.any (·.key = key)

/-- `insertOne` of a definition. -/
def insertDefinition (entry : StoredDefinition G) (s : DefinitionStore G) :
    Act DefinitionKey (DefinitionStore G) :=
  if s.has entry.key then .none
  else ⟨[entry.key], fun s ↦ { s with definitions := s.definitions ++ [entry] }⟩

/-- What the error of an insert is thrown as: `save` tells a duplicate. -/
def insertThrown (key : DefinitionKey) (error : DriverError) : Thrown :=
  match key with
  | (.grant, grantCode, version) =>
      if error.duplicateKey then
        .boom 409 ("Grant with code \"" ++ grantCode ++ "\" version \"" ++ version ++
          "\" already exists") []
      else .driver error
  | _ => .driver error

/-- The insert of a store, in the session. -/
def insertOne (outside : Outside) (entry : StoredDefinition G) :
    FetchSession G (Except Thrown Unit) := do
  match outside.insertOne entry.key.1 with
  | some error => return .error (insertThrown entry.key error)
  | none =>
    .op (insertDefinition entry) fun s ↦
      .done (if s.has entry.key then .error (insertThrown entry.key ⟨false, true, ""⟩) else .ok ())

/-- What a store makes of a definition: the document, or what its check throws. -/
abbrev Check (B G : Type) := DefinitionKey → B → Except Thrown G

/-- `isStored`, then the store of the file if it is not. -/
def storeFile (check : Check B G) (outside : Outside) (key : DefinitionKey) (definition : B) :
    FetchSession G (Except Thrown Unit) := do
  match outside.isStored key.1 with
  | some error => return .error error
  | none =>
    if ← Session.read (·.has key) then return .ok ()
    else
      match check key definition with
      | .error error => return .error error
      | .ok document => insertOne outside ⟨key, document⟩

/-- `storeEach`. -/
def storeEach (check : Check B G) (outside : Outside) (args : FetchArgs) (reads : List (Read B)) :
    FetchSession G (List FileOutcome) :=
  inTurn reads fun read handled ↦
    match read with
    | .failed outcome => return outcome
    | .definition file definition => do
      let result ← storeFile check outside (file, args.grantCode, args.version) definition
      match ← Session.orThrow (settle file handled result) with
      | .ok () => return .stored file
      | .error outcome => return outcome

/-- `toAuditFile`. -/
def toAuditFile : FileOutcome → DefinitionType × Option Reason
  | .stored file => (file, none)
  | .failed file reason _ => (file, some reason)

/-- The end of a transaction with a result: with an answer, with its answer lost, or refused. -/
def commit (outside : Outside) (files : List FileOutcome) : FetchSession G FetchReply := do
  match outside.commit with
  | .answered => return .ok files
  | .unanswered error => return .error error
  | .refused error => .fail error

/-- `storeFetchedWithAudit` in a transaction, and the commit. -/
def storeFetchedWithAudit (check : Check B G) (args : FetchArgs) (reads : List (Read B)) :
    FetchSession G FetchReply := do
  let outside ← Session.outside
  let files ← storeEach check outside args reads
  match outside.writeAudit with
  | some error => .fail error
  | none =>
    Session.write [] fun s ↦ { s with audits := s.audits ++ [⟨args, files.map toAuditFile⟩] }
    commit outside files

/-! ### The use case -/

/-- `storedByType`: each store is asked once, and then which of the files are stored is known. -/
def storedByType (args : FetchArgs) (next : List DefinitionType → FetchUseCase G) :
    List DefinitionType → List DefinitionType → FetchUseCase G
  | [], stored => next stored
  | file :: files, stored =>
      .look false fun seen ↦ storedByType args next files
        (if seen.has (file, args.grantCode, args.version) then stored ++ [file] else stored)

/-- `fetchConfigDefinitionsUseCase`, from what is stored of the files that the version has. -/
def fetchMissing (check : Check B G) (args : FetchArgs) (answers : Answers B)
    (types stored : List DefinitionType) : FetchUseCase G :=
  match answers.storedVersions with
  | .error refusal => .ret (.error refusal)
  | .ok () =>
    match readEach answers (types.filter (· ∉ stored)) with
    | .error refusal => .ret (.error refusal)
    | .ok reads =>
      .withTransaction (.body () (storeFetchedWithAudit check args reads)) fun
        | .ok reply => .ret reply
        | .error error => .ret (.error error)

/-- `fetchConfigDefinitionsUseCase`. -/
def fetchConfigDefinitions (check : Check B G) (args : FetchArgs) (answers : Answers B) :
    FetchUseCase G :=
  match answers.findVersion with
  | .error refusal => .ret (.error refusal)
  | .ok none => .ret (.error configVersionNotFound)
  | .ok (some has) =>
    let types := fileTypes.filter has
    storedByType args (fetchMissing check args answers types) types []

/-- What a task is asked for: a fetch, or to store one definition outside a transaction. -/
inductive DefinitionRequest (B G : Type)
  | fetch (args : FetchArgs) (answers : Answers B)
  | insert (entry : StoredDefinition G)

/-- The use case of a request. -/
def DefinitionRequest.run (check : Check B G) : DefinitionRequest B G → FetchUseCase G
  | .fetch args answers => fetchConfigDefinitions check args answers
  | .insert entry => .act (insertDefinition entry) fun _ ↦ .ret (.ok [])

end

end FgGas.Grants.FetchDefinitions
