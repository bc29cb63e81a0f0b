import FgGas.Grants.ApplyStatus
import FgGas.Grants.Lifecycle
import FgGas.Store.Focus

/-!
# Application series

Submitting an application, and replacing one that stands at an amendable position
(`src/grants/use-cases/submit-application.use-case.js`,
`src/grants/use-cases/replace-application.use-case.js`,
`src/grants/use-cases/create-application.use-case.js`,
`src/grants/models/application-series.js`,
`src/grants/repositories/application-series.repository.js`), beside the status changes of the
applications, over the applications of one grant code and their series. What a submission
publishes, its answers and its audit event are left out but for the errors that storing them may
throw. `persistResolvedVersion` of a replacement writes outside the session that is open, so it is
a use case of its own.
-/

namespace FgGas.Grants

open Store

/-- `ApplicationSeries`. -/
structure ApplicationSeries where
  id : String
  clientRefs : List String
  latestClientRef : String
  latestClientId : String
  createdAt : String
  updatedAt : String
  deriving DecidableEq, Repr

/-- `ApplicationSeries.new`. -/
def ApplicationSeries.new (id latestClientId latestClientRef now : String) : ApplicationSeries where
  id := id
  clientRefs := [latestClientRef]
  latestClientRef := latestClientRef
  latestClientId := latestClientId
  createdAt := now
  updatedAt := now

/-- `addClientRef`, of a reference and an id that are there. -/
def ApplicationSeries.addClientRef (x : ApplicationSeries) (clientRef clientId now : String) :
    ApplicationSeries :=
  { x with
    clientRefs := if clientRef ∈ x.clientRefs then x.clientRefs else x.clientRefs ++ [clientRef]
    latestClientId := clientId
    latestClientRef := clientRef
    updatedAt := now }

/-- `isReplaced`. -/
def ApplicationSeries.isReplaced (x : ApplicationSeries) (clientRef : String) : Bool :=
  x.clientRefs.contains clientRef && x.latestClientRef ≠ clientRef

/-- `toRef`, of a value that is not blank and has nothing to trim. -/
def toRef (kind value : String) : String := kind ++ ":" ++ value.toLower

/-- `seriesRefs`. -/
def seriesRefs (clientRefs : List String) : List String := (clientRefs.map (toRef "ref")).eraseDups

/-- The identifiers of an application, which never change. -/
structure Identifiers where
  sbi : String
  frn : String
  crn : String
  deriving DecidableEq, Repr

/-- `applicationRefs`. -/
def applicationRefs (clientRef : String) (identifiers : Identifiers)
    (agreements : List ApplicationAgreement) : List String :=
  ([toRef "ref" clientRef, toRef "sbi" identifiers.sbi, toRef "frn" identifiers.frn,
      toRef "crn" identifiers.crn] ++
    agreements.map fun agreement ↦ toRef "agreement" agreement.agreementRef).eraseDups

/-- `$addToSet` with `$each`. -/
def addToSet (refs each : List String) : List String := refs ++ each.filter fun ref ↦ ref ∉ refs

/-- What is stored of an application of a client reference, with its identifiers and refs. -/
structure ApplicationRow where
  clientRef : String
  stored : GrantStore
  identifiers : Identifiers
  refs : List String
  deriving DecidableEq, Repr

/-- The applications of a grant code, and their series. -/
structure SeriesStore where
  applications : List ApplicationRow
  series : List ApplicationSeries
  deriving DecidableEq, Repr

/-- The application of a client reference. -/
def SeriesStore.row (s : SeriesStore) (clientRef : String) : Option ApplicationRow :=
  s.applications.find? (·.clientRef = clientRef)

/-- The series of an `_id`. -/
def SeriesStore.ofId (s : SeriesStore) (id : String) : Option ApplicationSeries :=
  s.series.find? (·.id = id)

/-- The documents: those stored of an application, the entry of its unique index, and a
series. -/
inductive SeriesKey
  | stored (clientRef : String) (key : GrantKey)
  | clientRef (clientRef : String)
  | series (id : String)
  deriving DecidableEq, Repr

/-- An answer of the world: those of a status change, and what `resolveGrantForSubmission`
comes to. -/
structure SeriesOutside where
  grant : GrantOutside
  submission : Except GrantFailure (Grant × String)

/-- The configuration catalogue at one moment: beside the grant an application on a pinned
version currently uses, the amendable positions of that grant. -/
structure SeriesCatalogue extends Catalogue where
  amendablePositions : Option String → List String

/-- The sessions on the applications of a grant code. -/
abbrev SeriesSession := Session SeriesKey SeriesStore SeriesOutside GrantFailure

/-- The use cases on the applications of a grant code, whose results nothing reads. -/
abbrev SeriesUseCase := UseCase SeriesKey SeriesStore SeriesOutside GrantFailure
  (Option Application) GrantOutcome (Except GrantFailure GrantOutcome)

/-! ### Writes -/

/-- The refs of the application itself. -/
def ApplicationRow.own (r : ApplicationRow) : List String :=
  applicationRefs r.clientRef r.identifiers r.stored.application.application.agreements

/-- A row with what is stored of the application changed. With its document its refs are added
(`update`); where another document is written, the row has them already. -/
def ApplicationRow.write (f : GrantStore → GrantStore) (r : ApplicationRow) : ApplicationRow :=
  let changed := { r with stored := f r.stored }
  { changed with refs := addToSet r.refs changed.own }

/-- What is stored of one application. -/
def applicationPart (clientRef : String) : Part GrantKey GrantStore SeriesKey SeriesStore where
  get s := (s.row clientRef).map ApplicationRow.stored
  modify f s := { s with applications := s.applications.map fun r ↦
    if r.clientRef = clientRef then r.write f else r }
  key := .stored clientRef

/-- An application inserted. -/
def SeriesStore.insertApplication (s : SeriesStore) (r : ApplicationRow) : SeriesStore :=
  { s with applications := s.applications ++ [r] }

/-- A series inserted. -/
def SeriesStore.insertSeries (s : SeriesStore) (x : ApplicationSeries) : SeriesStore :=
  { s with series := s.series ++ [x] }

/-- A series in place of the one with its `_id`. -/
def SeriesStore.replaceSeries (s : SeriesStore) (x : ApplicationSeries) : SeriesStore :=
  { s with series := s.series.map fun y ↦ if y.id = x.id then x else y }

/-- A row with refs added. -/
def ApplicationRow.link (refs : List String) (r : ApplicationRow) : ApplicationRow :=
  { r with refs := addToSet r.refs refs }

/-- The applications of the references with the refs of all of them. -/
def SeriesStore.link (s : SeriesStore) (clientRefs : List String) : SeriesStore :=
  { s with applications := s.applications.map fun r ↦
      if r.clientRef ∈ clientRefs then r.link (seriesRefs clientRefs) else r }

/-- The applications `linkSeries` changes. -/
def SeriesStore.linked (s : SeriesStore) (clientRefs : List String) : List String :=
  (s.applications.filter fun r ↦
    r.clientRef ∈ clientRefs ∧ r.link (seriesRefs clientRefs) ≠ r).map ApplicationRow.clientRef

/-! ### Submitting and replacing -/

/-- The pattern `^[a-z0-9-]+$` of a client reference. -/
def validClientRef (clientRef : String) : Bool :=
  clientRef ≠ "" && clientRef.toList.all fun c ↦
    ('a' ≤ c && c ≤ 'z') || ('0' ≤ c && c ≤ '9') || c = '-'

/-- What the route's schema lets through of an application that is submitted. -/
structure SubmittedApplication where
  clientRef : String
  identifiers : Identifiers
  valid : validClientRef clientRef = true
  deriving DecidableEq, Repr

/-- What storing a submission's publications, its answers or its audit event may throw. -/
def mayThrow : SeriesSession Unit := do
  let outside ← Session.outside
  Session.orThrow outside.grant.check

/-- The document of an application that is new. -/
def newApplication (code clientRef resolvedVersion now : String) (position : Position) :
    Application where
  clientRef := clientRef
  code := code
  position := position
  originalConfigVersion := some resolvedVersion
  currentConfigVersion := some resolvedVersion
  updatedAt := now
  agreements := []

/-- The row of an application that is new. -/
def newRow (submitted : SubmittedApplication) (a : Application) : ApplicationRow where
  clientRef := submitted.clientRef
  stored := ⟨⟨a, 0⟩, [], [], [], []⟩
  identifiers := submitted.identifiers
  refs := applicationRefs submitted.clientRef submitted.identifiers a.agreements

/-- `save`; the reference is unique. -/
def saveApplication (r : ApplicationRow) : SeriesSession Unit :=
  .insert (fun s ↦ if (s.row r.clientRef).isSome then
      some (.conflict ("Application with clientRef \"" ++ r.clientRef ++ "\" exists"))
    else none)
    [.clientRef r.clientRef, .stored r.clientRef .application] (·.insertApplication r)

/-- `createApplicationUseCase`, for the id of the application. -/
def createApplication (code : String) (submitted : SubmittedApplication) :
    SeriesSession String := do
  let outside ← Session.outside
  let (grant, resolvedVersion) ← Session.orThrow outside.submission
  let position ← Session.orThrow (grant.getInitialState.elim
    (.error (.error "Cannot read properties of undefined")) .ok)
  mayThrow
  saveApplication (newRow submitted
    (newApplication code submitted.clientRef resolvedVersion outside.grant.now position))
  mayThrow
  pure outside.grant.id

/-- `save`, of a series; its `_id` is unique. -/
def saveSeries (x : ApplicationSeries) : SeriesSession Unit :=
  .insert (fun s ↦ if (s.ofId x.id).isSome then some (.error "E11000 duplicate key error")
    else none) [.series x.id] (·.insertSeries x)

/-- `findByClientRefAndCode`, of the series. -/
def findSeries (clientRef code : String) (s : SeriesStore) :
    Except GrantFailure ApplicationSeries :=
  (s.series.find? (·.latestClientRef = clientRef)).elim
    (.error (.notFound ("Application_series with currentClientRef \"" ++ clientRef ++
      "\" and code \"" ++ code ++ "\" not found."))) .ok

/-- `update`, of a series. -/
def updateSeries (x : ApplicationSeries) : SeriesSession Unit :=
  .insert (fun s ↦ if s.ofId x.id = none ∨ s.ofId x.id = some x then
      some (.notFound ("Failed to update application_series with _id \"" ++ x.id ++ "\""))
    else none) [.series x.id] (·.replaceSeries x)

/-- `linkSeries`. -/
def linkSeries (clientRefs : List String) : SeriesSession Unit :=
  .op (fun s ↦ ⟨(s.linked clientRefs).map fun clientRef ↦ .stored clientRef .application,
    (·.link clientRefs)⟩) fun _ ↦ .done ()

/-- `submitApplication`. -/
def submitApplication (code : String) (submitted : SubmittedApplication) :
    SeriesSession GrantOutcome := do
  let applicationId ← createApplication code submitted
  let outside ← Session.outside
  saveSeries (.new outside.grant.id applicationId submitted.clientRef outside.grant.now)
  mayThrow
  pure .applied

/-- `submitApplicationUseCase`. -/
def submitApplicationUseCase (code : String) (submitted : SubmittedApplication) : SeriesUseCase :=
  .withTransaction (.body none (submitApplication code submitted)) .ret

/-- `findApplicationByClientRefAndCodeUseCase` in a session. -/
def findApplication (clientRef code : String) : SeriesSession Application := do
  let row ← Session.read (·.row clientRef)
  Session.orThrow ((row.bind fun r ↦ findByClientRefAndCode clientRef code r.stored).elim
    (.error (.notFound ("Application with clientRef \"" ++ clientRef ++ "\" and code \"" ++ code ++
      "\" not found"))) .ok)

/-- What `resolveGrantForApplication` comes to: the amendable positions of the grant. -/
def SeriesCatalogue.resolvePositions (catalogue : SeriesCatalogue) (a : Application) :
    Except GrantFailure (List String) :=
  match catalogue.currentGrant a.pinnedVersion with
  | .error failure => .error failure
  | .ok (none, _) => .error (.notFound ("Grant with code \"" ++ a.code ++ "\" not found"))
  | .ok (some _, _) => .ok (catalogue.amendablePositions a.pinnedVersion)

/-- `isReplacementAllowed`. -/
def Application.isReplacementAllowed (a : Application) (positions : List String) : Bool :=
  positions.contains a.fullyQualifiedStatus

/-- `replaceApplication`. -/
def replaceApplication (catalogue : Nat → SeriesCatalogue) (code previousClientRef : String)
    (submitted : SubmittedApplication) : SeriesSession GrantOutcome := do
  let previous ← findApplication previousClientRef code
  let outside ← Session.outside
  let positions ← Session.orThrow ((catalogue outside.grant.moment).resolvePositions previous)
  if previous.isReplacementAllowed positions then do
    let applicationId ← createApplication code submitted
    let found ← Session.read (findSeries previousClientRef code)
    let series ← Session.orThrow found
    let outside ← Session.outside
    let replaced := series.addClientRef submitted.clientRef applicationId outside.grant.now
    updateSeries replaced
    linkSeries replaced.clientRefs
    mayThrow
    pure .applied
  else
    Session.orThrow (.error (.conflict ("Can not replace existing Application with clientRef: " ++
      previousClientRef ++ " with new clientRef: " ++ submitted.clientRef ++
      " - replacement is not allowed")))

/-- `replaceApplicationUseCase`. -/
def replaceApplicationUseCase (catalogue : Nat → SeriesCatalogue) (code previousClientRef : String)
    (submitted : SubmittedApplication) : SeriesUseCase :=
  .withTransaction (.body none (replaceApplication catalogue code previousClientRef submitted)) .ret

/-! ### Requests -/

/-- A request on the applications of the grant code, and the write of a version resolved. -/
inductive SeriesRequest
  | submit (submitted : SubmittedApplication)
  | replace (previousClientRef : String) (submitted : SubmittedApplication)
  | apply (command : StatusCommand)
  | persistResolvedVersion (clientRef version : String)

/-- What a request runs. -/
def SeriesRequest.run (catalogue : Nat → SeriesCatalogue) (code : String) :
    SeriesRequest → SeriesUseCase
  | .submit submitted => submitApplicationUseCase code submitted
  | .replace previousClientRef submitted =>
      replaceApplicationUseCase catalogue code previousClientRef submitted
  | .apply command =>
      .withTransaction ((applyCallback (fun n ↦ (catalogue n).toCatalogue) command).within
        (applicationPart command.clientRef) SeriesOutside.grant
        (.notFound ("Application with clientRef \"" ++ command.clientRef ++ "\" not found"))) .ret
  | .persistResolvedVersion clientRef version =>
      .act (Act.within (applicationPart clientRef)
        (updateCurrentConfigVersion clientRef code version)) fun _ ↦ .ret (.ok .applied)

end FgGas.Grants
