import FgGas.Grants.Transition

/-!
# Applying an external status change

`applyExternalStateChange` (`src/grants/services/apply-event-status-change.service.js`): the
callback of its transaction reads the application and pins its configuration version outside
the session, and works on what it has read once the session begins.
-/

namespace FgGas.Grants

open Store

/-- A status message. -/
structure StatusCommand where
  sourceSystem : String
  clientRef : String
  code : String
  externalRequestedState : String
  eventData : Option EventData
  deriving DecidableEq, Repr

/-- `processStateTransition`: whether the change was applied. -/
def processStateTransition (application : Application) (grant : Grant) (command : StatusCommand) :
    GrantSession Bool :=
  match grant.mapExternalStateToInternalState application.position
      command.externalRequestedState command.sourceSystem with
  | none => pure false
  | some targetPosition =>
    let transition : Transition := ⟨application, grant, targetPosition,
      ⟨command.clientRef, command.code, command.eventData⟩, false⟩
    if application.fullyQualifiedStatus = targetPosition.fullyQualified then do
      transitionApplication transition
      pure true
    else if (grant.isValidTransition targetPosition application.fullyQualifiedStatus).isNone then
      pure false
    else do
      transitionApplication transition
      pure true

/-- The part of the callback in the session. -/
def applyInSession (application : Application) (grant : Grant) (command : StatusCommand) :
    GrantSession GrantOutcome :=
  if (grant.findExternalStatusMapping application.position command.externalRequestedState
      command.sourceSystem).isNone then
    pure .applied
  else do
    let applied ← processStateTransition application grant command
    if applied then pure .applied
    else Session.orThrow (.error (.error ("Unable to process state change from " ++
      application.fullyQualifiedStatus ++ " to " ++ command.externalRequestedState)))

/-- `updateCurrentConfigVersion`. -/
def updateCurrentConfigVersion (clientRef code version : String) (s : GrantStore) :
    Act GrantKey GrantStore :=
  if (findByClientRefAndCode clientRef code s).isSome then
    ⟨[.application], fun s ↦
      { s with application.application.currentConfigVersion := some version }⟩
  else .none

/-- `persistResolvedVersion`, going on with `k`. -/
def persistResolvedVersion (application : Application) (resolvedVersion : Option String)
    (k : Application → GrantCallback) : GrantCallback :=
  match resolvedVersion with
  | none => k application
  | some version =>
    if version = "" ∨ some version = application.currentConfigVersion then k application
    else .act (updateCurrentConfigVersion application.clientRef application.code version) fun _ ↦
      k { application with currentConfigVersion := some version }

/-- The callback of `applyExternalStateChange`. -/
def applyCallback (catalogue : Nat → Catalogue) (command : StatusCommand) : GrantCallback :=
  .look false fun s ↦
    match findByClientRefAndCode command.clientRef command.code s with
    | none => .fail (.notFound ("Application with clientRef \"" ++ command.clientRef ++
        "\" not found"))
    | some application => .ask fun outside ↦
      match (catalogue outside.moment).currentGrant application.pinnedVersion with
      | .error failure => .fail failure
      | .ok (none, _) =>
          .fail (.notFound ("Grant with code \"" ++ application.code ++ "\" not found"))
      | .ok (some grant, resolvedVersion) =>
        persistResolvedVersion application resolvedVersion fun application ↦
          .body (some application) (applyInSession application grant command)

/-- `applyExternalStateChange`. -/
def applyExternalStateChange (catalogue : Nat → Catalogue) (command : StatusCommand) :
    GrantUseCase :=
  .withTransaction (applyCallback catalogue command) .ret

end FgGas.Grants
