import FgGas.Agreements.Definition
import FgGas.Machine.Run

/-!
# Config versions

The config versions of one grant code, the grants stored of them and an application of it, with
any number of publishes, fetches of a grant and resolutions of the application in flight
(`src/grants/use-cases/resolve-current-grant.use-case.js`,
`src/grants/services/resolve-config-version.service.js`,
`src/grants/services/definition-defect.js`,
`src/grants/repositories/config-version.repository.js`,
`src/common/config-broker/config-catalog.repository.js`,
`src/common/config-broker/fetch-state-update.js`). Reads are not bound to the primary, so each
sees some state so far. What S3 answers is any file or error, and any operation on the database
may throw.
-/

namespace FgGas.Grants

open Machine Agreements

/-- `ConfigVersionStatus`. -/
inductive ConfigVersionStatus
  | active
  | draft
  deriving DecidableEq, Repr

/-- What is stored of a config version; its version is one that parses. -/
structure ConfigVersion where
  version : String
  major : Nat
  minor : Nat
  patch : Nat
  parsed : parseSemver version = some (major, minor, patch)
  status : ConfigVersionStatus
  fetchStatus : FetchStatus
  fetchAttempts : Nat
  fetchError : Option String
  deriving DecidableEq

/-- The versions an application carries. -/
structure PinnedApplication where
  originalConfigVersion : Option String
  currentConfigVersion : Option String
  deriving DecidableEq, Repr

/-- The config versions of a grant code, the grants stored of them, and an application. -/
structure VersionStore (G : Type) where
  versions : List ConfigVersion
  grants : List (String × G)
  application : PinnedApplication
  deriving DecidableEq

/-- What an operation may throw. -/
inductive Thrown
  | boom (statusCode : Nat) (message : String)
  | s3Fetch (statusCode : Nat) (isParseError : Bool) (message : String)
  | typeError (message : String)
  | other (message : String)
  deriving DecidableEq, Repr

/-- `err.message`. -/
def Thrown.message : Thrown → String
  | .boom _ message | .s3Fetch _ _ message | .typeError message | .other message => message

/-- `isDefinitionDefect`. -/
def isDefinitionDefect : Thrown → Bool
  | .boom statusCode _ => statusCode = 500
  | .typeError _ => true
  | _ => false

/-! ### The repository -/

/-- The filter of `findLatestForMajor`. -/
def ConfigVersion.selectable (major : Nat) (v : ConfigVersion) : Bool :=
  v.major = major && v.status = .active && v.fetchStatus ≠ .permanentError

/-- `findLatestForMajor`. -/
def findLatestForMajor (versions : List ConfigVersion) (major : Nat) : Option ConfigVersion :=
  (versions.filter (·.selectable major)).argmax fun v ↦ toLex (v.minor, v.patch)

/-- `findLatestActive`. -/
def findLatestActive (versions : List ConfigVersion) : Option ConfigVersion :=
  (versions.filter (·.status = .active)).argmax fun v ↦ toLex (v.major, toLex (v.minor, v.patch))

/-- `buildFetchStateUpdate`. Consecutive failures are counted. -/
def buildFetchStateUpdate (fetchStatus : FetchStatus) (fetchError : Option String)
    (v : ConfigVersion) : ConfigVersion :=
  { v with
    fetchStatus := fetchStatus
    fetchError := fetchError
    fetchAttempts := if fetchStatus = .fetched then 0 else v.fetchAttempts + 1 }

/-- `updateFetchStatus`. The version is unique. -/
def updateFetchStatus (version : String) (fetchStatus : FetchStatus)
    (fetchError : Option String) (versions : List ConfigVersion) : List ConfigVersion :=
  versions.map fun v ↦
    if v.version = version then buildFetchStateUpdate fetchStatus fetchError v else v

/-- A config version as it is published. -/
structure PublishedVersion where
  version : String
  major : Nat
  minor : Nat
  patch : Nat
  parsed : parseSemver version = some (major, minor, patch)
  status : ConfigVersionStatus
  deriving DecidableEq

/-- `upsert`. A version published again keeps its fetch state. -/
def upsert (published : PublishedVersion) (versions : List ConfigVersion) : List ConfigVersion :=
  if versions.any (·.version = published.version) then
    versions.map fun v ↦
      if v.version = published.version then { v with status := published.status } else v
  else versions ++ [⟨published.version, published.major, published.minor, published.patch,
    published.parsed, published.status, .pending, 0, none⟩]

/-! ### Fetching a grant -/

section
variable {G : Type}

/-- Where a call of `resolveAndFetchGrant` stands: the operation it is about to take, or how it
has ended. After `recordFetched` it returns the grant it inserted, or loads the one there is. -/
inductive FetchStage (G : Type)
  | find (requestedVersion : Option String)
  | findStored (version : String)
  | fetch (version : String)
  | save (version : String) (grant : G)
  | recordFailure (version : String) (isPermanent : Bool) (fetchError : String)
      (failure : Thrown)
  | recordFetched (version : String) (inserted : Option G)
  | load (version : String)
  | returned (grant : Option G)
  | threw (error : Thrown)

/-- `MAX_FETCH_ATTEMPTS`. -/
def maxFetchAttempts : Nat := 5

/-- `guardFetchStatus`, of a version found, and what follows it. -/
def guardFetchStatus (code : String) (v : ConfigVersion) : FetchStage G :=
  if v.fetchStatus = .fetched then .findStored v.version
  else if v.fetchStatus = .permanentError then
    .threw (.boom 502 ("Permanent error for " ++ code ++ "@" ++ v.version ++ ": " ++
      v.fetchError.getD "null"))
  else if v.fetchAttempts ≥ maxFetchAttempts then
    .recordFailure v.version true
      ("Exceeded " ++ toString maxFetchAttempts ++ " fetch attempts")
      (.boom 502 ("Max fetch attempts exceeded for " ++ code ++ "@" ++ v.version))
  else .fetch v.version

/-- `resolveConfigVersion`, or `findLatestActive` without a version requested. -/
def findConfigVersion (code : String) (requestedVersion : Option String)
    (versions : List ConfigVersion) : Except Thrown ConfigVersion :=
  match requestedVersion with
  | none => (findLatestActive versions).elim
      (.error (.boom 404 ("No active config version found for " ++ code))) .ok
  | some version =>
    match parseSemver version with
    | none => .error (.boom 400 ("Invalid semver version: " ++ version))
    | some (major, _) => (findLatestForMajor versions major).elim
        (.error (.boom 404 ("No active config version found for " ++ code ++ "@" ++
          toString major ++ ".x"))) .ok

/-- `handleS3Error`. -/
def handleS3Error (code version : String) (statusCode : Nat) (isParseError : Bool)
    (message : String) : FetchStage G :=
  if statusCode = 404 ∨ statusCode = 403 ∨ isParseError = true then
    .recordFailure version true message
      (.boom 502 ("Permanent S3 error for " ++ code ++ "@" ++ version ++ ": " ++ message))
  else
    .recordFailure version false message
      (.boom 503 ("Transient S3 error for " ++ code ++ "@" ++ version ++ ": " ++ message))

/-- What `saveOrFallback` does with an error: a conflict is a grant there is already, and a
defect of the definition is latched. -/
def catchSaveError (version : String) (error : Thrown) : FetchStage G :=
  match error with
  | .boom 409 _ => .recordFetched version none
  | error =>
      if isDefinitionDefect error then
        .recordFailure version true error.message error
      else .threw error

/-- What S3 answers: an error, or a file and what `new Grant` makes of it. -/
abbrev S3Answer (G : Type) := Except Thrown (Except Thrown G)

/-- `fetchFromS3`, up to the insert of `saveFromDefinition`. -/
def fetchFromS3 (code version : String) : S3Answer G → FetchStage G
  | .error (.s3Fetch statusCode isParseError message) =>
      handleS3Error code version statusCode isParseError message
  | .error error => .threw error
  | .ok (.ok grant) => .save version grant
  | .ok (.error error) => catchSaveError version error

/-- What a task does next: read the `i`-th latest state, find a definition cached, take S3's
answer, write, or have its operation throw. -/
inductive VersionMove (G : Type)
  | look (i : Nat)
  | cached
  | s3 (answer : S3Answer G)
  | go
  | throws (error : Thrown)

/-- A read of a call. -/
def FetchStage.read (code : String) (seen : VersionStore G) : FetchStage G → Option (FetchStage G)
  | .find requestedVersion =>
      match findConfigVersion code requestedVersion seen.versions with
      | .error error => some (.threw error)
      | .ok v => some (guardFetchStatus code v)
  | .findStored version =>
      match seen.grants.lookup version with
      | some grant => some (.returned (some grant))
      | none => some (.fetch version)
  | .load version => some (.returned (seen.grants.lookup version))
  | _ => none

/-- A write of a call. -/
def FetchStage.write (code : String) (db : VersionStore G) :
    FetchStage G → Option (VersionStore G × FetchStage G)
  | .save version grant =>
      if (db.grants.lookup version).isSome then
        some (db, catchSaveError version (.boom 409 ("Grant with code \"" ++ code ++
          "\" version \"" ++ version ++ "\" already exists")))
      else
        some ({ db with grants := db.grants ++ [(version, grant)] },
          .recordFetched version (some grant))
  | .recordFailure version isPermanent fetchError failure =>
      let fetchStatus := if isPermanent then .permanentError else .transientError
      some ({ db with
        versions := updateFetchStatus version fetchStatus (some fetchError) db.versions },
        .threw failure)
  | .recordFetched version inserted =>
      some ({ db with versions := updateFetchStatus version .fetched none db.versions },
        match inserted with
        | some grant => .returned (some grant)
        | none => .load version)
  | _ => none

/-- An operation of a call throws. -/
def FetchStage.throw (error : Thrown) : FetchStage G → Option (FetchStage G)
  | .save version _ | .recordFetched version (some _) => some (catchSaveError version error)
  | .returned _ | .threw _ => none
  | _ => some (.threw error)

/-- One step of a call: the state it leaves and where it then stands. -/
def FetchStage.step (code : String) (db : VersionStore G) (visible : Nat → Option (VersionStore G))
    (stage : FetchStage G) : VersionMove G → Option (VersionStore G × FetchStage G)
  | .look i => (visible i).bind fun seen ↦ (stage.read code seen).map fun next ↦ (db, next)
  | .s3 answer =>
      match stage with
      | .fetch version => some (db, fetchFromS3 code version answer)
      | _ => none
  | .go => stage.write code db
  | .throws error => (stage.throw error).map fun next ↦ (db, next)
  | .cached => none

/-- A step of a call leaves the store as it is, or is its write. -/
theorem stage_step_cases {code : String} {db db' : VersionStore G} {stage next : FetchStage G}
    {visible : Nat → Option (VersionStore G)} {move : VersionMove G}
    (h : stage.step code db visible move = some (db', next)) :
    db' = db ∨ stage.write code db = some (db', next) := by
  cases move with
  | look i =>
    obtain ⟨seen, _, hread⟩ := Option.bind_eq_some_iff.mp h
    obtain ⟨x, _, heq⟩ := Option.map_eq_some_iff.mp hread
    cases heq
    exact .inl rfl
  | s3 answer =>
    simp only [FetchStage.step] at h
    split at h
    · cases h
      exact .inl rfl
    · cases h
  | go => exact .inr h
  | throws error =>
    obtain ⟨x, _, heq⟩ := Option.map_eq_some_iff.mp h
    cases heq
    exact .inl rfl
  | cached => cases h

/-! ### Resolving the grant of an application -/

/-- `pinnedVersionOf`. -/
def PinnedApplication.pinnedVersion (a : PinnedApplication) : Option String :=
  a.currentConfigVersion.or a.originalConfigVersion

/-- Where a task on the config versions stands: a publish, a call of `resolveAndFetchGrant`, or
a resolution of the application (`resolveGrantForApplication`, then `persistResolvedVersion`). -/
inductive VersionTask (G : Type)
  | publish (published : PublishedVersion)
  | call (stage : FetchStage G)
  | readApplication
  | resolve (application : PinnedApplication)
  | loadDefinition (application : PinnedApplication) (resolvedVersion : String)
      (stage : FetchStage G)
  | persist (resolvedVersion : String)
  | ended (result : Except Thrown Unit)

/-- `persistResolvedVersion`, up to its write. -/
def persistResolved (a : PinnedApplication) (resolvedVersion : String) : VersionTask G :=
  if resolvedVersion ≠ "" ∧ some resolvedVersion ≠ a.currentConfigVersion then
    .persist resolvedVersion
  else .ended (.ok ())

/-- `Boom.notFound`, of the grant of a code. -/
def grantNotFound (code : String) : Thrown :=
  .boom 404 ("Grant with code \"" ++ code ++ "\" not found")

/-- What follows a read of `resolveCurrentGrantUseCase`: an application without a version is on
the grant stored as `0.0.0`, and keeps none. -/
def resolveCurrentGrant (code : String) (a : PinnedApplication) (seen : VersionStore G) :
    VersionTask G :=
  match a.pinnedVersion.filter (· ≠ "") with
  | none => .ended (if (seen.grants.lookup "0.0.0").isSome then .ok ()
      else .error (grantNotFound code))
  | some pinnedVersion =>
    match parseSemver pinnedVersion with
    | none => .ended (.error (.boom 400 ("Invalid semver version: " ++ pinnedVersion)))
    | some (major, _) =>
      match findLatestForMajor seen.versions major with
      | none => .ended (.error (.boom 404 ("No active config version found for " ++ code ++ "@" ++
          toString major ++ ".x")))
      | some v => .loadDefinition a v.version (.find (some v.version))

/-- A resolution goes on with its call, and from its end. -/
def afterLoad (code : String) (a : PinnedApplication) (resolvedVersion : String) :
    FetchStage G → VersionTask G
  | .returned (some _) => persistResolved a resolvedVersion
  | .returned none => .ended (.error (grantNotFound code))
  | .threw error => .ended (.error error)
  | stage => .loadDefinition a resolvedVersion stage

end

/-! ### The system -/

/-- The store, its earlier states, the definitions each process has cached, of which any may be
gone again, and the tasks. -/
structure VersionSystem (G P T : Type) where
  db : VersionStore G
  past : List (VersionStore G)
  definitionCache : P → List String
  tasks : T → VersionTask G

/-- What a task is asked for. -/
inductive VersionRequest
  | publish (published : PublishedVersion)
  | resolveAndFetchGrant (requestedVersion : Option String)
  | resolveGrantForApplication
  deriving DecidableEq

/-- A task before its first operation. -/
def VersionRequest.task {G : Type} : VersionRequest → VersionTask G
  | .publish published => .publish published
  | .resolveAndFetchGrant requestedVersion => .call (.find requestedVersion)
  | .resolveGrantForApplication => .readApplication

section
variable {G P T : Type}

/-- The tasks about to start. -/
def VersionSystem.start (db : VersionStore G) (requests : T → VersionRequest) :
    VersionSystem G P T where
  db := db
  past := []
  definitionCache := fun _ ↦ []
  tasks := fun t ↦ (requests t).task

/-- The states a read may see, the latest first. -/
def VersionSystem.visible (s : VersionSystem G P T) (i : Nat) : Option (VersionStore G) :=
  (s.db :: s.past)[i]?

section
variable [DecidableEq T] [DecidableEq P]

/-- The task moves on, and the store may change. -/
def VersionSystem.advance (s : VersionSystem G P T) (t : T) (db : VersionStore G)
    (task : VersionTask G) : VersionSystem G P T :=
  { s with db := db, past := s.db :: s.past, tasks := Function.update s.tasks t task }

/-- `setCachedDefinition`. -/
def VersionSystem.setCachedDefinition (s : VersionSystem G P T) (process : P) (version : String) :
    VersionSystem G P T :=
  if version = "" then s
  else
    let cached := version :: s.definitionCache process
    { s with definitionCache := Function.update s.definitionCache process cached }

/-- A resolution goes on with a step of its call. -/
def VersionSystem.continueLoad (s : VersionSystem G P T) (code : String) (process : P) (t : T)
    (a : PinnedApplication) (resolvedVersion : String) (db : VersionStore G)
    (stage : FetchStage G) : VersionSystem G P T :=
  let next := s.advance t db (afterLoad code a resolvedVersion stage)
  match stage with
  | .returned (some _) => next.setCachedDefinition process resolvedVersion
  | _ => next

/-- One step of the system; each task runs in one process. -/
def VersionSystem.step (code : String) (process : T → P) (s : VersionSystem G P T) :
    T × VersionMove G → Option (VersionSystem G P T)
  | (t, move) =>
    match s.tasks t, move with
    | .publish published, .go =>
        some (s.advance t { s.db with versions := upsert published s.db.versions }
          (.ended (.ok ())))
    | .call stage, move =>
        (stage.step code s.db s.visible move).map fun next ↦ s.advance t next.1 (.call next.2)
    | .readApplication, .look i =>
        (s.visible i).map fun seen ↦ s.advance t s.db (.resolve seen.application)
    | .resolve a, .look i =>
        (s.visible i).map fun seen ↦ s.advance t s.db (resolveCurrentGrant code a seen)
    | .loadDefinition a resolvedVersion (.find _), .cached =>
        if resolvedVersion ∈ s.definitionCache (process t) then
          some (s.advance t s.db (persistResolved a resolvedVersion))
        else none
    | .loadDefinition a resolvedVersion stage, move =>
        (stage.step code s.db s.visible move).map fun next ↦
          s.continueLoad code (process t) t a resolvedVersion next.1 next.2
    | .persist resolvedVersion, .go =>
        some (s.advance t
          { s.db with application :=
            { s.db.application with currentConfigVersion := some resolvedVersion } }
          (.ended (.ok ())))
    | .ended _, _ => none
    | _, .throws error => some (s.advance t s.db (.ended (.error error)))
    | _, _ => none

/-- What a step of a task does: how the task stood, its move, the store it leaves, and how it
then stands. -/
inductive TaskStep (code : String) (s : VersionSystem G P T) :
    VersionTask G → VersionMove G → VersionStore G → VersionTask G → Prop
  | publish {published : PublishedVersion} : TaskStep code s (.publish published) .go
      { s.db with versions := upsert published s.db.versions } (.ended (.ok ()))
  | call {stage next : FetchStage G} {move : VersionMove G} {db : VersionStore G}
      (h : stage.step code s.db s.visible move = some (db, next)) :
      TaskStep code s (.call stage) move db (.call next)
  | readApplication {i : Nat} {seen : VersionStore G} (h : s.visible i = some seen) :
      TaskStep code s .readApplication (.look i) s.db (.resolve seen.application)
  | resolve {a : PinnedApplication} {i : Nat} {seen : VersionStore G}
      (h : s.visible i = some seen) :
      TaskStep code s (.resolve a) (.look i) s.db (resolveCurrentGrant code a seen)
  | cached {a : PinnedApplication} {resolvedVersion : String} {requested : Option String} :
      TaskStep code s (.loadDefinition a resolvedVersion (.find requested)) .cached s.db
        (persistResolved a resolvedVersion)
  | load {a : PinnedApplication} {resolvedVersion : String} {stage next : FetchStage G}
      {move : VersionMove G} {db : VersionStore G}
      (h : stage.step code s.db s.visible move = some (db, next)) :
      TaskStep code s (.loadDefinition a resolvedVersion stage) move db
        (afterLoad code a resolvedVersion next)
  | persist {resolvedVersion : String} : TaskStep code s (.persist resolvedVersion) .go
      { s.db with application :=
        { s.db.application with currentConfigVersion := some resolvedVersion } } (.ended (.ok ()))
  | throws {task : VersionTask G} {error : Thrown} :
      TaskStep code s task (.throws error) s.db (.ended (.error error))

variable {code : String} {process : T → P} {s s' : VersionSystem G P T} {t : T}
  {move : VersionMove G}

/-- A definition cached is all that goes on beside the store and the task. -/
theorem continueLoad_eq {p : P} {a : PinnedApplication} {resolvedVersion : String}
    {db : VersionStore G} {stage : FetchStage G} :
    ∃ cache, s.continueLoad code p t a resolvedVersion db stage =
      { s.advance t db (afterLoad code a resolvedVersion stage) with
        definitionCache := cache } := by
  unfold VersionSystem.continueLoad
  dsimp only
  split
  · unfold VersionSystem.setCachedDefinition
    split
    · exact ⟨_, rfl⟩
    · exact ⟨_, rfl⟩
  · exact ⟨_, rfl⟩

/-- A step is one of a task; the others stand as they did. -/
theorem step_cases (h : VersionSystem.step code process s (t, move) = some s') :
    TaskStep code s (s.tasks t) move s'.db (s'.tasks t) ∧
      (∀ u, u ≠ t → s'.tasks u = s.tasks u) ∧ s'.past = s.db :: s.past := by
  have hadvance : ∀ db task cache, s' = { s.advance t db task with definitionCache := cache } →
      TaskStep code s (s.tasks t) move db task →
      TaskStep code s (s.tasks t) move s'.db (s'.tasks t) ∧
        (∀ u, u ≠ t → s'.tasks u = s.tasks u) ∧ s'.past = s.db :: s.past := by
    rintro db task cache rfl htask
    refine ⟨?_, fun u hu ↦ Function.update_of_ne hu _ _, rfl⟩
    change TaskStep code s (s.tasks t) move db (Function.update s.tasks t task t)
    rw [Function.update_self]
    exact htask
  unfold VersionSystem.step at h
  dsimp only at h
  split at h
  · next htask =>
    obtain rfl := Option.some.inj h
    exact hadvance _ _ _ rfl (htask ▸ .publish)
  · next htask =>
    obtain ⟨⟨db, next⟩, hnext, rfl⟩ := Option.map_eq_some_iff.mp h
    exact hadvance _ _ _ rfl (htask ▸ .call hnext)
  · next htask =>
    obtain ⟨seen, hseen, rfl⟩ := Option.map_eq_some_iff.mp h
    exact hadvance _ _ _ rfl (htask ▸ .readApplication hseen)
  · next htask =>
    obtain ⟨seen, hseen, rfl⟩ := Option.map_eq_some_iff.mp h
    exact hadvance _ _ _ rfl (htask ▸ .resolve hseen)
  · next htask =>
    split at h
    · obtain rfl := Option.some.inj h
      exact hadvance _ _ _ rfl (htask ▸ .cached)
    · cases h
  · next htask _ =>
    obtain ⟨⟨db, next⟩, hnext, rfl⟩ := Option.map_eq_some_iff.mp h
    obtain ⟨cache, hcache⟩ := @continueLoad_eq G P T _ _ code s t (process t) _ _ db next
    exact hadvance _ _ cache hcache (htask ▸ .load hnext)
  · next htask =>
    obtain rfl := Option.some.inj h
    exact hadvance _ _ _ rfl (htask ▸ .persist)
  · cases h
  · next htask =>
    obtain rfl := Option.some.inj h
    exact hadvance _ _ _ rfl .throws
  · cases h

end

end

end FgGas.Grants
