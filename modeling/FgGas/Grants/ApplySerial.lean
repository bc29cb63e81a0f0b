import FgGas.Grants.ClaimsOnce

/-!
# Status changes and claims in series

Where each status change starts its transaction on the application it has read, the changes
of an application follow one another: each is made from the state committed before it, none
loses an agreement, and every move starts from the position committed before it. A status
change that starts on a later state saves the document it has read over it.
-/

namespace FgGas.Grants

open Machine Store

/-- A move the grant accepts from where the application stands: to the target, or to the
status a withdrawal sets there. -/
def AcceptedMove (grant : Grant) (target : Position) (a b : Application) : Prop :=
  ∃ processes, grant.isValidTransition target a.fullyQualifiedStatus = some processes ∧
    (b.position = target ∨
      .requestApplicationWithdrawal ∈ processes.filterMap GrantProcess.named ∧
        b.position = { target with status := "APPLICATION_WITHDRAWN" })

/-- A transition leaves the application as it is, or is a move the grant accepts that keeps
its agreements and versions. -/
theorem Transitioned.accepted {grant : Grant} {target : Position} {c : SideEffectContext}
    {a b : Application} (h : Transitioned grant target c a b) :
    b = a ∨ a.Keeps b ∧ AcceptedMove grant target a b := by
  rcases h with ⟨_, rfl⟩ | ⟨processes, now, _, hvalid, heffects⟩
  · exact .inl rfl
  · obtain ⟨hkeeps, hposition⟩ := heffects.keeps
    exact .inr ⟨(Application.Keeps.at a target now).trans hkeeps, processes, hvalid, hposition⟩

/-- What a change of the series does to the application: nothing, the version pinned, or a
move from its position accepted by the grant it is on. -/
inductive SerialChange (catalogue : Nat → Catalogue) (a b : Application) : Prop
  | unchanged (h : b = a)
  | pinned {n : Nat} {pinnedVersion : Option String} {grant : Grant} {version : String}
      (hgrant : (catalogue n).currentGrant pinnedVersion = .ok (some grant, some version))
      (h : b = { a with currentConfigVersion := some version })
  | moved {grant : Grant} {target : Position}
      (hgrant : UsesGrant catalogue a grant ∨ ResolvesGrant catalogue a.pinnedVersion grant)
      (hkeeps : a.Keeps b) (haccepted : AcceptedMove grant target a b)

theorem SerialChange.of_transitioned {catalogue : Nat → Catalogue} {grant : Grant}
    {target : Position} {c : SideEffectContext} {a b : Application}
    (hgrant : UsesGrant catalogue a grant ∨ ResolvesGrant catalogue a.pinnedVersion grant)
    (h : Transitioned grant target c a b) : SerialChange catalogue a b := by
  rcases h.accepted with hsame | ⟨hkeeps, haccepted⟩
  · exact .unchanged hsame
  · exact .moved hgrant hkeeps haccepted

/-- What was resolved was the grant of some version. -/
theorem resolvesGrant_of_resolveGrant {catalogue : Nat → Catalogue} {n : Nat} {code : String}
    {pinnedVersion : Option String} {grant : Grant}
    (h : resolveGrant (catalogue n) code pinnedVersion = .ok grant) :
    ResolvesGrant catalogue pinnedVersion grant := by
  unfold resolveGrant at h
  split at h
  · cases h
  · cases h
  · next version hgrant =>
    obtain rfl := Except.ok.inj h
    exact ⟨n, version, hgrant⟩

/-- Where transactions start on what was read, each change is one of the series. -/
theorem GrantRequest.Changes.serial {catalogue : Nat → Catalogue} {request : GrantRequest}
    {before after : GrantStore} (h : request.Changes catalogue True before after) :
    SerialChange catalogue before.application.application after.application.application := by
  cases request with
  | submit command =>
    rcases h with hsubmission | ⟨_, rfl⟩
    · obtain ⟨submission⟩ := hsubmission
      obtain ⟨n, hresolved⟩ := submission.resolved
      by_cases hfinal : ∃ target, FinalClaim submission.grant submission.template
          before.application.application after target
      · obtain ⟨target, hfinal⟩ := hfinal
        exact .of_transitioned (.inr (resolvesGrant_of_resolveGrant hresolved))
          (submission.moved target hfinal)
      · exact .unchanged (submission.stays (not_exists.mp hfinal))
    · exact .unchanged rfl
  | create command =>
    obtain ⟨creation⟩ := h
    exact .unchanged creation.application
  | update command =>
    obtain ⟨update⟩ := h
    exact .unchanged update.application
  | apply command =>
    cases h with
    | pinned hgrant hafter =>
      rw [hafter]
      exact .pinned hgrant rfl
    | unchanged h => exact .unchanged (by rw [h])
    | moved hread hgrant hmoved _ _ =>
      obtain rfl := hread trivial
      obtain ⟨target, _, htransitioned⟩ := hmoved
      exact .of_transitioned (.inl hgrant) htransitioned

/-- Any number of status changes, submissions, and entitlement creations and updates on an
application, in any interleaving in which each status change starts its transaction on the
application it has read, with the version it has pinned: the changes lead from one committed
state to the next, each is what its request makes of the state committed before it, and to
the application it does nothing, pins its version, or moves it from the position committed
before, as the grant it is on accepts, with all its agreements kept. -/
theorem changes_serial {T : Type} [DecidableEq T] {catalogue : Nat → Catalogue}
    {s₀ : GrantStore} (hs₀ : ClaimRegistry s₀) (requests : T → GrantRequest)
    {ls : List (T × Store.Move GrantOutside)}
    {s : System GrantKey GrantStore GrantOutside GrantFailure (Option Application) GrantOutcome
      (Except GrantFailure GrantOutcome) T}
    (h : Run System.step (fun s l ↦
        admitted (fun note s ↦ ∀ a ∈ note, a = s.application.application) s l)
      (System.start s₀ fun t ↦ (requests t).run catalogue) ls s) :
    s.log.map Change.before ++ [s.db] = s₀ :: s.log.map Change.after ∧
    (∀ c ∈ s.log, (requests c.thread).Changes catalogue True c.before c.after) ∧
    ∀ c ∈ s.log, SerialChange catalogue c.before.application.application
      c.after.application.application := by
  have hsound : Sound grantRely (fun t ↦ grantPromise catalogue True (requests t)) s₀ s :=
    grants_sound hs₀ (h.mono fun s l hok ↦ hok.mono fun note s hread _ ↦ hread)
  exact ⟨hsound.chain, hsound.log, fun c hc ↦ (hsound.log c hc).serial⟩

/-! ### Three runs -/

/-- A position of one stage. -/
def assessment (status : String) : Position := ⟨"PRE_AWARD", "ASSESSMENT", status⟩

/-- A grant of one stage: an application received is agreed, which stores an agreement,
closed, or stopped, which withdraws it. -/
def assessed : Grant where
  code := "woodland"
  phases := [⟨"PRE_AWARD", [⟨"ASSESSMENT", [⟨"RECEIVED", [], []⟩,
    ⟨"AGREED", [⟨"RECEIVED", ["STORE_AGREEMENT_CASE"]⟩], []⟩,
    ⟨"CLOSED", [⟨"RECEIVED", []⟩], []⟩,
    ⟨"STOPPED", [], ["REQUEST_APPLICATION_WITHDRAWAL"]⟩]⟩]⟩]
  externalStatusMap := [⟨"PRE_AWARD", [⟨"ASSESSMENT", [⟨"agreed", "AS", "AGREED"⟩,
    ⟨"closed", "CW", "CLOSED"⟩, ⟨"stopped", "CW", "STOPPED"⟩]⟩]⟩]
  entitlementTemplates := []
  onClaimApproval := none

/-- The catalogue with that grant in one version. -/
def assessedCatalogue : Nat → Catalogue :=
  fun _ ↦ ⟨fun _ ↦ .ok (some assessed, some "1.0.0"), fun _ ↦ false⟩

/-- An application received. -/
def received : GrantStore where
  application :=
    ⟨⟨"app-1", "woodland", assessment "RECEIVED", some "1.0.0", some "1.0.0", "t0", []⟩, 0⟩
  entitlements := []
  claims := []
  outbox := []
  audits := []

theorem registry_received : ClaimRegistry received :=
  ⟨by decide, by decide, by decide, by decide, by simp [received], by simp [received],
    by simp [received]⟩

/-- A status message of case working. -/
def statusOf (externalRequestedState : String) : GrantRequest :=
  .apply ⟨"CW", "app-1", "woodland", externalRequestedState, none⟩

/-- A status message of the agreement service for an agreement made. -/
def agreed : GrantRequest :=
  .apply ⟨"AS", "app-1", "woodland", "agreed", some ⟨"WMP1", "t1", none, none⟩⟩

/-- An application is agreed and closed at once. -/
def agreedAndClosed (t : Bool) : GrantRequest := if t then statusOf "closed" else agreed

/-- What a status change reads before its session. -/
def statusReads {T : Type} (t : T) : List (T × Store.Move GrantOutside) :=
  [(t, .go), (t, .look 0), (t, .ask (answers ""))]

/-- The session of a move, with the steps of its processes. -/
def statusSteps {T : Type} (t : T) (processes : List Bool) : List (T × Store.Move GrantOutside) :=
  turns t "" ([false, true, false, true, false, true, false] ++ processes ++ [false])

/-- Both read the application received; it is agreed, and then closed. -/
def closeOverAgreed : List (Bool × Store.Move GrantOutside) :=
  statusReads false ++ (statusReads true ++ (statusSteps false [false, true, false, true, false,
    true, false] ++ statusSteps true []))

/-- It is agreed, and whoever closes it reads it then. -/
def closeAfterAgreed : List (Bool × Store.Move GrantOutside) :=
  statusReads false ++ (statusSteps false [false, true, false, true, false, true, false] ++
    statusReads true)

/-- Who closes an application that was agreed is refused by the position committed before. -/
theorem changes_serial_refused :
    ∃ s, exec (guarded System.step fun s l ↦ admitted
        (fun (note : Option Application) (s : GrantStore) ↦
          ∀ a ∈ note, a = s.application.application) s l)
        (System.start received fun t ↦ (agreedAndClosed t).run assessedCatalogue)
        (closeAfterAgreed ++ [(true, .go), (true, .go)]) = some s ∧
      s.db.application.application.agreements.length = 1 ∧
      s.log.map Change.before ++ [s.db] = received :: s.log.map Change.after := by
  have hexec : (exec (guarded System.step fun s l ↦ admitted
      (fun (note : Option Application) (s : GrantStore) ↦
        ∀ a ∈ note, a = s.application.application) s l)
      (System.start received fun t ↦ (agreedAndClosed t).run assessedCatalogue)
      (closeAfterAgreed ++ [(true, .go), (true, .go)])).map (fun s ↦
        s.db.application.application.agreements.length) = some 1 := by rfl
  obtain ⟨s, hs, hlength⟩ := Option.map_eq_some_iff.mp hexec
  exact ⟨s, hs, hlength,
    (changes_serial registry_received agreedAndClosed (Run.of_exec_guarded hs)).1⟩

/-- A status change saves the document it has read over the agreement another has stored
since, by a move the grant does not accept from there; and a single one that stops an
application leaves it at a position the grant does not accept. -/
theorem status_change_overwrites :
    (∃ s, exec System.step (System.start received fun t ↦
        (agreedAndClosed t).run assessedCatalogue) closeOverAgreed = some s ∧
      s.log.map (fun c ↦ (c.before.application.application.position,
          c.after.application.application.position,
          c.after.application.application.agreements.length)) =
        [(assessment "RECEIVED", assessment "AGREED", 1),
          (assessment "AGREED", assessment "CLOSED", 0)] ∧
      assessed.isValidTransition (assessment "CLOSED") (assessment "AGREED").fullyQualified =
        none) ∧
    ∃ s, exec System.step (System.start received fun _ : Unit ↦
        (statusOf "stopped").run assessedCatalogue)
        (statusReads () ++ statusSteps () [false, true, false, true, false, true, false]) = some s ∧
      s.log.map (fun c ↦ (c.before.application.application.position,
          c.after.application.application.position)) =
        [(assessment "RECEIVED", assessment "APPLICATION_WITHDRAWN")] ∧
      assessed.isValidTransition (assessment "APPLICATION_WITHDRAWN")
        (assessment "RECEIVED").fullyQualified = none := by
  have hlost : (exec System.step (System.start received fun t ↦
      (agreedAndClosed t).run assessedCatalogue) closeOverAgreed).map (fun s ↦
        s.log.map fun c ↦ (c.before.application.application.position,
          c.after.application.application.position,
          c.after.application.application.agreements.length)) =
      some [(assessment "RECEIVED", assessment "AGREED", 1),
        (assessment "AGREED", assessment "CLOSED", 0)] := by rfl
  have hstopped : (exec System.step (System.start received fun _ : Unit ↦
      (statusOf "stopped").run assessedCatalogue)
      (statusReads () ++ statusSteps () [false, true, false, true, false, true, false])).map
      (fun s ↦ s.log.map fun c ↦ (c.before.application.application.position,
        c.after.application.application.position)) =
      some [(assessment "RECEIVED", assessment "APPLICATION_WITHDRAWN")] := by rfl
  obtain ⟨s, hs, hlog⟩ := Option.map_eq_some_iff.mp hlost
  obtain ⟨s', hs', hlog'⟩ := Option.map_eq_some_iff.mp hstopped
  exact ⟨⟨s, hs, hlog, by decide⟩, s', hs', hlog', by decide⟩

end FgGas.Grants
