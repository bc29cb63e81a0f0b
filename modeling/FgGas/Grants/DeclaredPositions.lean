import Mathlib.Logic.Relation
import FgGas.Grants.ApplySerial
import FgGas.Grants.Published

/-!
# Where an application of a published grant can stand

An application starts at the initial state of its grant and is moved by status messages and
by claim approvals, and each move runs processes. What a move leads to was checked when the
grant was published; the status a withdrawal sets by itself was not.
-/

namespace FgGas.Grants

open Machine Store

/-- An external status, or the approval of the last claim, leads to the target. -/
inductive Grant.LeadsTo (g : Grant) (position target : Position) : Prop
  | external {status source : String}
      (h : g.mapExternalStateToInternalState position status source = some target)
  | claimApproval (h : g.claimApprovalTransitionFor position = some target)

/-- An accepted move of an application, with processes of its transition run on it, in any
order and number. -/
inductive ApplicationStep (g : Grant) (a b : Application) : Prop
  | moved {target : Position} {now : String} {moved : Application} {processes : List String}
      {c : SideEffectContext} {ran : List GrantProcess}
      (hleads : g.LeadsTo a.position target)
      (hmove : a.moveTo target g now = .changed moved processes)
      (hran : ∀ p ∈ ran, p ∈ processes.filterMap GrantProcess.named)
      (heffects : Effects c ran moved b)

/-- The position a withdrawal leaves an application at, which a transition that requests it
has moved from its status into a declared position. -/
def Grant.WithdrawnFrom (g : Grant) (current : String) (position : Position) : Prop :=
  ∃ target ∈ g.positions, ∃ processes, g.isValidTransition target current = some processes ∧
    "REQUEST_APPLICATION_WITHDRAWAL" ∈ processes ∧
    position = { target with status := "APPLICATION_WITHDRAWN" }

/-- The position a withdrawal leaves an application at, whatever its status was. -/
def Grant.WithdrawnAt (g : Grant) (position : Position) : Prop :=
  ∃ current, g.WithdrawnFrom current position

theorem named_eq_requestApplicationWithdrawal {name : String} :
    GrantProcess.named name = some .requestApplicationWithdrawal ↔
      name = "REQUEST_APPLICATION_WITHDRAWAL" := by
  constructor
  · intro h
    unfold GrantProcess.named at h
    split at h <;> first | rfl | cases h
  · rintro rfl
    rfl

/-- A move accepted into a position leaves the application there, or withdrawn there. -/
theorem AcceptedMove.declared {g : Grant} {target : Position} {a b : Application}
    (h : AcceptedMove g target a b) :
    b.position ∈ g.positions ∨ g.WithdrawnFrom a.fullyQualifiedStatus b.position := by
  obtain ⟨processes, hvalid, hposition⟩ := h
  have htarget : target ∈ g.positions := mem_positions_of_isValidTransition hvalid
  rcases hposition with hthere | ⟨hran, hwithdrawn⟩
  · rw [hthere]
    exact .inl htarget
  · obtain ⟨name, hname, hnamed⟩ := List.mem_filterMap.mp hran
    obtain rfl := named_eq_requestApplicationWithdrawal.mp hnamed
    exact .inr ⟨target, htarget, _, hvalid, hname, hwithdrawn⟩

theorem ApplicationStep.accepted {g : Grant} {a b : Application} (h : ApplicationStep g a b) :
    ∃ target, AcceptedMove g target a b := by
  obtain @⟨target, now, moved, processes, c, ran, _, hmove, hran, heffects⟩ := h
  obtain ⟨_, hvalid, rfl⟩ := moveTo_eq_changed hmove
  obtain ⟨_, hposition⟩ := heffects.keeps
  refine ⟨target, processes, hvalid, hposition.imp_right fun h ↦ ⟨hran _ h.1, h.2⟩⟩

/-- The initial state is declared. -/
theorem mem_positions_of_getInitialState {g : Grant} {p : Position}
    (h : g.getInitialState = some p) : p ∈ g.positions := by
  obtain ⟨phase, hphase, h⟩ := Option.bind_eq_some_iff.mp h
  obtain ⟨stage, hstage, h⟩ := Option.bind_eq_some_iff.mp h
  obtain ⟨status, hstatus, h⟩ := Option.bind_eq_some_iff.mp h
  cases h
  exact mem_positions_iff.mpr ⟨phase, List.mem_of_head? hphase, stage, List.mem_of_head? hstage,
    status, List.mem_of_head? hstatus, rfl⟩

/-- A published grant has an initial state. -/
theorem Published.exists_getInitialState {Q : Type} {deps : Dependencies Q}
    {d : GrantDefinition Q} (h : Published deps d) : ∃ p, d.grant.getInitialState = some p := by
  have hstored : d.grant.storedLifecycle = true := h.stored
  obtain ⟨hphases, hfull⟩ := storedLifecycle_nonempty hstored
  obtain ⟨phase, phases, hp⟩ := List.exists_cons_of_ne_nil hphases
  obtain ⟨hstages, hstatuses⟩ := hfull phase (hp ▸ List.mem_cons_self)
  obtain ⟨stage, stages, hs⟩ := List.exists_cons_of_ne_nil hstages
  obtain ⟨status, statuses, hc⟩ := List.exists_cons_of_ne_nil (hstatuses stage
    (hs ▸ List.mem_cons_self))
  refine ⟨⟨phase.code, stage.code, status.code⟩, ?_⟩
  simp [Grant.getInitialState, hp, hs, hc]

/-- An application of a published grant, which has an initial state to start from, stands at a
declared position after any accepted moves and whatever of their processes; unless the last
move requested its withdrawal, which leaves it in the phase and stage moved to. -/
theorem position_declared {Q : Type} {deps : Dependencies Q} {d : GrantDefinition Q} {g : Grant}
    (h : fromDefinition deps d = .ok g) :
    ∃ initial, g.getInitialState = some initial ∧
      ∀ a b : Application, a.position = initial → Relation.ReflTransGen (ApplicationStep g) a b →
        b.position ∈ g.positions ∨ ∃ last, Relation.ReflTransGen (ApplicationStep g) a last ∧
          ApplicationStep g last b ∧ g.WithdrawnFrom last.fullyQualifiedStatus b.position := by
  obtain ⟨rfl, hpublished⟩ := fromDefinition_eq_ok h
  obtain ⟨initial, hinitial⟩ := hpublished.exists_getInitialState
  refine ⟨initial, hinitial, ?_⟩
  rintro a b rfl hrun
  induction hrun with
  | refl => exact .inl (mem_positions_of_getInitialState hinitial)
  | tail hbefore hstep _ =>
    obtain ⟨target, haccepted⟩ := hstep.accepted
    exact haccepted.declared.imp_right fun hwithdrawn ↦ ⟨_, hbefore, hstep, hwithdrawn⟩

/-- A grant of one stage, where an application can be stopped, which withdraws it. -/
def stoppable : GrantDefinition Unit where
  code := "woodland"
  phases := [⟨"PRE_AWARD", [⟨"ASSESSMENT", [⟨"RECEIVED", [], []⟩,
    ⟨"STOPPED", [⟨"RECEIVED", ["REQUEST_APPLICATION_WITHDRAWAL"]⟩], []⟩]⟩], some ()⟩]
  externalStatusMap := [⟨"PRE_AWARD", [⟨"ASSESSMENT", [⟨"stopped", "CW", "::STOPPED"⟩]⟩]⟩]
  amendablePositions := []
  entitlementTemplates := []
  onClaimApproval := none

/-- What it is checked with: the processes there are, and questions that compile. -/
def grantDependencies : Dependencies Unit where
  isKnownProcess name := (GrantProcess.named name).isSome
  compileQuestions _ := .ok ()

/-- An application of it at the position. -/
def stoppableAt (status : String) : Application :=
  ⟨"app-1", "woodland", ⟨"PRE_AWARD", "ASSESSMENT", status⟩, none, none, "t", []⟩

/-- Case working stops an application that was received. -/
theorem stoppable_leadsTo : stoppable.grant.LeadsTo (stoppableAt "RECEIVED").position
    (stoppableAt "STOPPED").position := by
  have hmap : stoppable.grant.mapExternalStateToInternalState (stoppableAt "RECEIVED").position
      "stopped" "CW" = some (stoppableAt "STOPPED").position := rfl
  exact .external hmap

theorem stoppable_moveTo : (stoppableAt "RECEIVED").moveTo (stoppableAt "STOPPED").position
    stoppable.grant "t" = .changed (stoppableAt "STOPPED") ["REQUEST_APPLICATION_WITHDRAWAL"] :=
  rfl

/-- An application is stopped, and no process has been run on it yet. -/
theorem position_declared_stopped :
    (stoppableAt "STOPPED").position ∈ stoppable.grant.positions ∨
      stoppable.grant.WithdrawnAt (stoppableAt "STOPPED").position := by
  have h : fromDefinition grantDependencies stoppable = .ok stoppable.grant := rfl
  obtain ⟨initial, hinitial, hdeclared⟩ := position_declared h
  cases hinitial
  refine (hdeclared (stoppableAt "RECEIVED") _ rfl (.single ?_)).imp_right
    fun ⟨_, _, _, hwithdrawn⟩ ↦ ⟨_, hwithdrawn⟩
  have heffects : Effects ⟨"app-1", "woodland", none⟩ [] (stoppableAt "STOPPED")
      (stoppableAt "STOPPED") := .nil
  exact .moved stoppable_leadsTo stoppable_moveTo (by simp) heffects

/-- Stopping an application leaves it at a position that its published grant does not
declare. -/
theorem stopped_undeclared : ∃ (deps : Dependencies Unit) (d : GrantDefinition Unit) (g : Grant)
    (a b : Application), fromDefinition deps d = .ok g ∧ g.getInitialState = some a.position ∧
    Relation.ReflTransGen (ApplicationStep g) a b ∧ b.position ∉ g.positions := by
  refine ⟨grantDependencies, stoppable, stoppable.grant, stoppableAt "RECEIVED",
    stoppableAt "APPLICATION_WITHDRAWN", rfl, rfl, .single ?_, by decide⟩
  have hwithdrawn : ProcessEffect ⟨"app-1", "woodland", none⟩ .requestApplicationWithdrawal
      (stoppableAt "STOPPED") ((stoppableAt "STOPPED").withdraw "t") := .withdrawn rfl
  exact .moved stoppable_leadsTo stoppable_moveTo (by decide) (.cons hwithdrawn .nil)

/-! ### The positions that are committed -/

section
variable {catalogue : Nat → Catalogue} {g : Grant}

/-- Where the catalogue has one grant only, each change of the series leaves the position of
the application, or is an accepted move of it with its processes. -/
theorem GrantRequest.Changes.applicationStep
    (honly : ∀ n pinnedVersion grant version,
      (catalogue n).currentGrant pinnedVersion = .ok (some grant, version) → grant = g)
    {request : GrantRequest} {before after : GrantStore}
    (h : request.Changes catalogue True before after) :
    after.application.application.position = before.application.application.position ∨
      ApplicationStep g before.application.application after.application.application := by
  have hstep : ∀ {target : Position} {c : SideEffectContext} {a b : Application},
      g.LeadsTo a.position target → Transitioned g target c a b →
      b.position = a.position ∨ ApplicationStep g a b := by
    rintro target c a b hleads (⟨_, rfl⟩ | ⟨processes, now, hne, hvalid, heffects⟩)
    · exact .inl rfl
    · have hmove : a.moveTo target g now = .changed (a.at target now) processes := by
        unfold Application.moveTo
        rw [if_neg hne, hvalid]
      exact .inr (.moved hleads hmove (fun _ hp ↦ hp) heffects)
  cases request with
  | submit command =>
    rcases h with ⟨⟨submission⟩⟩ | ⟨_, rfl⟩
    · obtain ⟨n, hresolved⟩ := submission.resolved
      obtain ⟨_, version, hgrant⟩ := @resolvesGrant_of_resolveGrant (fun _ ↦ catalogue n) 0 _ _ _
        hresolved
      have hg : submission.grant = g := honly n _ _ _ hgrant
      by_cases hfinal : ∃ target, FinalClaim submission.grant submission.template
          before.application.application after target
      · obtain ⟨target, hfinal⟩ := hfinal
        have hmoved := submission.moved target hfinal
        have honClaim := claimApprovalTransitionFor_eq_some.mpr hfinal.onClaimApproval
        rw [hg] at hmoved honClaim
        exact hstep (.claimApproval honClaim) hmoved
      · exact .inl (by rw [submission.stays (not_exists.mp hfinal)])
    · exact .inl rfl
  | create command =>
    obtain ⟨creation⟩ := h
    exact .inl (by rw [creation.application])
  | update command =>
    obtain ⟨update⟩ := h
    exact .inl (by rw [update.application])
  | apply command =>
    cases h with
    | pinned _ hafter =>
      rw [hafter]
      exact .inl rfl
    | unchanged h =>
      rw [h]
      exact .inl rfl
    | moved hread hgrant hmoved _ _ =>
      obtain rfl := hread trivial
      obtain ⟨n, pinnedVersion, version, hfound, _⟩ := hgrant
      obtain rfl := honly n _ _ _ hfound
      obtain ⟨target, hmap, htransitioned⟩ := hmoved
      exact hstep (.external hmap) htransitioned

/-- Any number of requests on an application of a grant, in any interleaving in which each
status change starts its transaction on the application it has read: every position committed
is declared, or that of a withdrawal. -/
theorem committed_positions {T : Type} [DecidableEq T]
    (honly : ∀ n pinnedVersion grant version,
      (catalogue n).currentGrant pinnedVersion = .ok (some grant, version) → grant = g)
    {s₀ : GrantStore} (hs₀ : ClaimRegistry s₀)
    (hinitial : g.getInitialState = some s₀.application.application.position)
    {requests : T → GrantRequest} {ls : List (T × Store.Move GrantOutside)}
    {s : System GrantKey GrantStore GrantOutside GrantFailure (Option Application) GrantOutcome
      (Except GrantFailure GrantOutcome) T}
    (h : Run System.step (fun s l ↦
        admitted (fun note s ↦ ∀ a ∈ note, a = s.application.application) s l)
      (System.start s₀ fun t ↦ (requests t).run catalogue) ls s) :
    ∀ c ∈ s.log, c.after.application.application.position ∈ g.positions ∨
      g.WithdrawnAt c.after.application.application.position := by
  have hsound : Sound grantRely (fun t ↦ grantPromise catalogue True (requests t)) s₀ s :=
    grants_sound hs₀ (h.mono fun s l hok ↦ hok.mono fun note s hread _ ↦ hread)
  have hchained : Chained s₀ s.log s.db := hsound.chain
  intro c hc
  refine (hchained.every (P := fun s ↦ s.application.application.position ∈ g.positions ∨
    g.WithdrawnAt s.application.application.position) ?_ ?_ c hc).2
  · intro c hc hbefore
    have hchange : (requests c.thread).Changes catalogue True c.before c.after := hsound.log c hc
    rcases hchange.applicationStep honly with hstays | hstep
    · rw [hstays]
      exact hbefore
    · obtain ⟨target, haccepted⟩ := hstep.accepted
      exact haccepted.declared.imp_right fun hwithdrawn ↦ ⟨_, hwithdrawn⟩
  · exact .inl (mem_positions_of_getInitialState hinitial)

end

end FgGas.Grants
