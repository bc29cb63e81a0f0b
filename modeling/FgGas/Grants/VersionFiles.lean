import FgGas.Grants.ConfigVersion
import FgGas.Machine.Ranking

/-!
# The definition files of the config versions

The collection `config_versions` under publishes (`upsert`,
`src/grants/repositories/config-version.repository.js`) and under what fetching a file came to
(`updateDefinitionFetchStatus`, `src/common/config-broker/config-catalog.repository.js`,
`buildFetchStateUpdate`, `src/common/config-broker/fetch-state-update.js`). A field that is missing
in a document is told from one that is null.
-/

namespace FgGas.Grants.VersionFiles

open Machine Agreements

/-- The definition files of a version. -/
inductive DefinitionType
  | grant
  | agreement
  | payment
  deriving DecidableEq, Repr

/-- `fetchStatusRank`, best first. -/
def fetchStatusRank : List FetchStatus := [.fetched, .pending, .transientError, .permanentError]

/-- The fetch state of a file. -/
structure FetchState where
  fetchStatus : Option FetchStatus := none
  fetchError : Option (Option String) := none
  fetchAttempts : Option Nat := none
  fetchedAt : Option (Option String) := none
  lastFetchAttemptAt : Option (Option String) := none
  deriving DecidableEq, Repr

/-- What is stored of a file. -/
structure DefinitionFile extends FetchState where
  s3Key : Option (Option String) := none
  deriving DecidableEq, Repr

/-- What is stored of a config version, beside its grant code and its version. -/
@[ext]
structure VersionDocument where
  major : Nat
  minor : Nat
  patch : Nat
  status : ConfigVersionStatus
  s3Bucket : Option String
  receivedAt : Option String
  definitions : DefinitionType → Option DefinitionFile
  worstFetchStatus : Option FetchStatus

/-- A config version, of which the version is one that parses. -/
structure PublishedVersion where
  grantCode : String
  version : String
  major : Nat
  minor : Nat
  patch : Nat
  parsed : parseSemver version = some (major, minor, patch)
  status : ConfigVersionStatus
  s3Key : Option String
  s3Bucket : Option String
  receivedAt : String
  fetchStatus : FetchStatus
  fetchError : Option String
  fetchAttempts : Nat
  fetchedAt : Option String
  lastFetchAttemptAt : Option String

/-- What `upsert` is called with. -/
structure Publish extends PublishedVersion where
  agreementS3Key : Option String
  paymentS3Key : Option String

/-! ### The repository -/

/-- The files that a document has. -/
def VersionDocument.files (doc : VersionDocument) : List DefinitionFile :=
  [DefinitionType.grant, .agreement, .payment].filterMap doc.definitions

/-- `withWorstFetchStatus`. -/
def withWorstFetchStatus (doc : VersionDocument) : VersionDocument :=
  { doc with worstFetchStatus := worstOf fetchStatusRank (doc.files.map (·.fetchStatus)) }

/-- `$mergeObjects` of two: the fields of the later one stand. -/
def DefinitionFile.merge (earlier later : DefinitionFile) : DefinitionFile where
  fetchStatus := later.fetchStatus.or earlier.fetchStatus
  fetchError := later.fetchError.or earlier.fetchError
  fetchAttempts := later.fetchAttempts.or earlier.fetchAttempts
  fetchedAt := later.fetchedAt.or earlier.fetchedAt
  lastFetchAttemptAt := later.lastFetchAttemptAt.or earlier.lastFetchAttemptAt
  s3Key := later.s3Key.or earlier.s3Key

/-- What `upsert` makes of a file, with the fetch state that one not stored yet starts in. -/
def mergeFile (fetchState : FetchState) (stored : Option DefinitionFile)
    (s3Key : Option String) : DefinitionFile :=
  ((⟨fetchState, none⟩ : DefinitionFile).merge (stored.getD {})).merge { s3Key := some s3Key }

/-- The state that `definitionLocationUpdate` starts a file in. -/
def pendingState : FetchState :=
  ⟨some .pending, some none, some 0, some none, some none⟩

/-- The state that `upsert` starts the grant's file in. -/
def PublishedVersion.fetchState (v : PublishedVersion) : FetchState :=
  ⟨some v.fetchStatus, some v.fetchError, some v.fetchAttempts, some v.fetchedAt,
    some v.lastFetchAttemptAt⟩

/-- `definitionLocationUpdate`, for a location that is given. -/
def definitionLocationUpdate (s3Key : Option String) (stored : Option DefinitionFile) :
    Option DefinitionFile :=
  match s3Key.filter (· ≠ "") with
  | some s3Key => some (mergeFile pendingState stored (some s3Key))
  | none => stored

/-- The pipeline of `upsert`, on the document stored, if one is. -/
def upsertDocument (p : Publish) (stored : Option VersionDocument) : VersionDocument :=
  let file (type : DefinitionType) := stored.bind (·.definitions type)
  withWorstFetchStatus
    { major := p.major
      minor := p.minor
      patch := p.patch
      status := p.status
      s3Bucket := p.s3Bucket
      receivedAt := (stored.bind (·.receivedAt)).or (some p.receivedAt)
      definitions := fun
        | .grant => some (mergeFile p.fetchState (file .grant) p.s3Key)
        | .agreement => definitionLocationUpdate p.agreementS3Key (file .agreement)
        | .payment => definitionLocationUpdate p.paymentS3Key (file .payment)
      worstFetchStatus := stored.bind (·.worstFetchStatus) }

/-- `buildFetchStateUpdate`. Consecutive failures are counted. -/
def buildFetchStateUpdate (fetchStatus : FetchStatus) (fetchError : Option String)
    (attemptedAt : String) (file : DefinitionFile) : DefinitionFile :=
  let set : DefinitionFile :=
    { file with
      fetchStatus := some fetchStatus
      fetchError := some fetchError
      lastFetchAttemptAt := some (some attemptedAt) }
  if fetchStatus ≠ .fetched then
    { set with fetchAttempts := some (file.fetchAttempts.getD 0 + 1) }
  else { set with fetchedAt := some (some attemptedAt), fetchAttempts := some 0 }

/-- The pipeline of `updateDefinitionFetchStatus`; a file that is missing comes to be. -/
def fetchStatusDocument (type : DefinitionType) (fetchStatus : FetchStatus)
    (fetchError : Option String) (attemptedAt : String) (doc : VersionDocument) :
    VersionDocument :=
  let file :=
    buildFetchStateUpdate fetchStatus fetchError attemptedAt ((doc.definitions type).getD {})
  withWorstFetchStatus
    { doc with definitions := Function.update doc.definitions type (some file) }

/-- The collection; a document's key is its grant code and its version. -/
abbrev Catalogue := String × String → Option VersionDocument

/-- The key of what is published. -/
def PublishedVersion.key (v : PublishedVersion) : String × String := (v.grantCode, v.version)

/-- A write of the repository. -/
inductive CatalogueUpdate
  | upsert (p : Publish)
  | updateDefinitionFetchStatus (grantCode version : String) (type : DefinitionType)
      (fetchStatus : FetchStatus) (fetchError : Option String) (attemptedAt : String)

/-- One write. -/
def Catalogue.apply (c : Catalogue) : CatalogueUpdate → Catalogue
  | .upsert p => Function.update c p.key (some (upsertDocument p (c p.key)))
  | .updateDefinitionFetchStatus grantCode version type fetchStatus fetchError attemptedAt =>
      Function.update c (grantCode, version)
        ((c (grantCode, version)).map
          (fetchStatusDocument type fetchStatus fetchError attemptedAt))

/-- Writes in a row. -/
def Catalogue.run (c : Catalogue) (updates : List CatalogueUpdate) : Catalogue :=
  updates.foldl Catalogue.apply c

/-- The key of the document that is written. -/
def CatalogueUpdate.key : CatalogueUpdate → String × String
  | .upsert p => p.key
  | .updateDefinitionFetchStatus grantCode version _ _ _ _ => (grantCode, version)

/-- The document that is written, from the one stored. -/
def CatalogueUpdate.document : CatalogueUpdate → Option VersionDocument → Option VersionDocument
  | .upsert p, stored => some (upsertDocument p stored)
  | .updateDefinitionFetchStatus _ _ type fetchStatus fetchError attemptedAt, stored =>
      stored.map (fetchStatusDocument type fetchStatus fetchError attemptedAt)

/-! ### What a write does -/

variable {c : Catalogue} {update : CatalogueUpdate} {key : String × String} {p q : Publish}
  {stored : Option VersionDocument} {doc : VersionDocument} {type : DefinitionType}

theorem apply_eq (c : Catalogue) (update : CatalogueUpdate) :
    c.apply update = Function.update c update.key (update.document (c update.key)) := by
  cases update <;> rfl

@[simp] theorem apply_self : c.apply update update.key = update.document (c update.key) := by
  rw [apply_eq, Function.update_self]

theorem apply_of_ne (h : key ≠ update.key) : c.apply update key = c key := by
  rw [apply_eq, Function.update_of_ne h]

/-- Where a publish says that a file is. -/
def Publish.locates (p : Publish) : DefinitionType → Option (Option String)
  | .grant => some p.s3Key
  | .agreement => (p.agreementS3Key.filter (· ≠ "")).map some
  | .payment => (p.paymentS3Key.filter (· ≠ "")).map some

/-- The state that a publish starts a file in. -/
def Publish.startState (p : Publish) : DefinitionType → FetchState
  | .grant => p.fetchState
  | .agreement | .payment => pendingState

theorem upsertDocument_definitions :
    (upsertDocument p stored).definitions type =
      match p.locates type with
      | some s3Key =>
          some (mergeFile (p.startState type) (stored.bind (·.definitions type)) s3Key)
      | none => stored.bind (·.definitions type) := by
  cases type with
  | grant => rfl
  | agreement =>
    change definitionLocationUpdate _ _ = _
    rw [definitionLocationUpdate, Publish.locates]
    cases p.agreementS3Key.filter (· ≠ "") <;> rfl
  | payment =>
    change definitionLocationUpdate _ _ = _
    rw [definitionLocationUpdate, Publish.locates]
    cases p.paymentS3Key.filter (· ≠ "") <;> rfl

theorem fetchStatusDocument_definitions {other : DefinitionType} {fetchStatus : FetchStatus}
    {fetchError : Option String} {attemptedAt : String} :
    (fetchStatusDocument type fetchStatus fetchError attemptedAt doc).definitions other =
      if other = type then
        some (buildFetchStateUpdate fetchStatus fetchError attemptedAt
          ((doc.definitions type).getD {}))
      else doc.definitions other := by
  by_cases h : other = type
  · subst h
    rw [if_pos rfl]
    exact Function.update_self ..
  · rw [if_neg h]
    exact Function.update_of_ne h ..

end FgGas.Grants.VersionFiles
