import FgGas.Grants.ApplyStatus
import FgGas.Grants.ClaimRegistry

/-!
# What applying a status change stores

The session saves the whole document of the application it was given, moved, and stores no
claim and nothing of one; a version pinned before the session is a change of its own.
-/

namespace FgGas.Grants

open Store

/-- The target of a status message at the application's position, and what the move there
comes to. -/
def MovedBy (grant : Grant) (command : StatusCommand) (a b : Application) : Prop :=
  ∃ target, grant.mapExternalStateToInternalState a.position command.externalRequestedState
      command.sourceSystem = some target ∧
    Transitioned grant target ⟨command.clientRef, command.code, command.eventData⟩ a b

/-- The grant the application is on: looked up for its pinned version, which from then on is
the version found, if there is one. -/
def UsesGrant (catalogue : Nat → Catalogue) (a : Application) (grant : Grant) : Prop :=
  ∃ n pinnedVersion resolvedVersion, (catalogue n).currentGrant pinnedVersion =
      .ok (some grant, resolvedVersion) ∧
    a.pinnedVersion = (resolvedVersion.filter (· ≠ "")).or pinnedVersion

/-- A change by a status message: the version pinned, nothing, or the document saved as the
move leaves the application that was read. That is the stored one in `fresh` runs. -/
inductive Applied (catalogue : Nat → Catalogue) (command : StatusCommand) (fresh : Prop)
    (before after : GrantStore) : Prop
  | pinned {n : Nat} {pinnedVersion : Option String} {grant : Grant} {version : String}
      (h : (catalogue n).currentGrant pinnedVersion = .ok (some grant, some version))
      (hafter : after = { before with
        application.application.currentConfigVersion := some version })
  | unchanged (h : after = before)
  | moved {a : Application} {grant : Grant} (hread : fresh → a = before.application.application)
      (hgrant : UsesGrant catalogue a grant)
      (hmoved : MovedBy grant command a after.application.application)
      (hadds : Adds [] before after) (hentitlements : after.entitlements = before.entitlements)

/-- What is published beside the claims adds none. -/
theorem Delta.Extends.adds {δ : Delta} (h : Delta.empty.Extends δ) (s : GrantStore) :
    Adds [] s (δ.apply s) := by
  obtain ⟨rows, hrows, houtbox⟩ := h.outbox
  obtain ⟨audits, hquiet, haudits⟩ := h.audits
  refine ⟨by rw [Delta.apply, h.claims]; rfl, ⟨rows, by rw [Delta.apply, houtbox]; rfl, ?_, ?_⟩,
    ⟨audits, by rw [Delta.apply, haudits]; rfl, ?_⟩⟩
  · intro q hq id hid
    cases (hrows q hq).1.symm.trans hid
  · intro q hq key hkey
    cases (hrows q hq).2.symm.trans hkey
  · intro a ha id hid
    cases (hquiet a ha).symm.trans hid

/-- What the session of a status message leaves: nothing, or the application it was given
moved. -/
def LeftByStatus (grant : Grant) (command : StatusCommand) (a : Application)
    (held : List GrantKey) (δ : Delta) : Prop :=
  δ = .empty ∨ .application ∈ held ∧ Delta.empty.Extends δ ∧
    ∃ b, δ.application = some b ∧ MovedBy grant command a b

theorem applyInSession_writes {base : GrantStore} (a : Application) (grant : Grant)
    (command : StatusCommand) :
    Writes base (applyInSession a grant command) [] .empty fun _ held δ ↦
      LeftByStatus grant command a held δ := by
  unfold applyInSession
  split
  · exact .pure (.inl rfl)
  · have happly : Writes base (processStateTransition a grant command) [] .empty
        fun _ held δ ↦ LeftByStatus grant command a held δ := by
      unfold processStateTransition
      split
      · exact .pure (.inl rfl)
      · next target htarget =>
        have hmove : Writes base (transitionApplication ⟨a, grant, target,
            ⟨command.clientRef, command.code, command.eventData⟩, false⟩) [] .empty
              fun _ held δ ↦ LeftByStatus grant command a held δ := by
          refine (transitionApplication_writes _).mono ?_
          rintro _ held δ ⟨_, hδ, hmoved⟩
          rcases hmoved with ⟨_, rfl⟩ | ⟨b, hb, hheld, htransitioned⟩
          · exact .inl rfl
          · exact .inr ⟨hheld, hδ, b, hb, target, htarget, htransitioned⟩
        dsimp only
        split
        · exact .bind (hmove.mono fun _ _ _ h ↦ .pure h)
        · split
          · exact .pure (.inl rfl)
          · exact .bind (hmove.mono fun _ _ _ h ↦ .pure h)
    refine .bind (happly.mono fun applied held δ h ↦ ?_)
    split
    · exact .pure h
    · exact .orThrow fun _ hfailure ↦ by cases hfailure

end FgGas.Grants
