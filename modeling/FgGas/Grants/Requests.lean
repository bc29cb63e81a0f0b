import Mathlib.Data.List.Infix
import FgGas.Grants.ApplyEffect
import FgGas.Grants.EntitlementEffect
import FgGas.Grants.SubmissionEffect

/-!
# The requests on one application

Claims are submitted, entitlements created and updated, and status changes applied on one
application, all at once. Every transaction that writes has taken the application's document,
so whoever holds it holds all that is stored of the application: each change starts on the
state committed before it.
-/

namespace FgGas.Grants

open Machine Store

/-- A request on the application. -/
inductive GrantRequest
  | submit (command : SubmitCommand)
  | create (command : CreateCommand)
  | update (command : UpdateCommand)
  | apply (command : StatusCommand)

/-- What a request runs. -/
def GrantRequest.run (catalogue : Nat → Catalogue) : GrantRequest → GrantUseCase
  | .submit command => submitClaim catalogue command
  | .create command => createEntitlement catalogue command
  | .update command => updateEntitlement catalogue command
  | .apply command => applyExternalStateChange catalogue command

/-- The lock counted up. -/
def GrantStore.locked (s : GrantStore) : GrantStore :=
  { s with application.claimSubmissionLockVersion :=
      s.application.claimSubmissionLockVersion + 1 }

/-- A change a request may make; one by a status message is made on the stored application in
`fresh` runs. -/
def GrantRequest.Changes (catalogue : Nat → Catalogue) (fresh : Prop) :
    GrantRequest → GrantStore → GrantStore → Prop
  | .submit command, before, after => Nonempty (Submission catalogue command before after) ∨
      command.key ∈ before.claimKeys ∧ after = before.locked
  | .create command, before, after => Nonempty (EntitlementCreation catalogue command before after)
  | .update command, before, after => Nonempty (EntitlementUpdate catalogue command before after)
  | .apply command, before, after => Applied catalogue command fresh before after

/-- How a request may end: a claim created with the one change that stores it, a claim found
stored with nothing but locks, or refused with nothing. -/
def GrantRequest.EndsWell (catalogue : Nat → Catalogue) : GrantRequest →
    Except GrantFailure GrantOutcome → List (GrantStore × GrantStore) → GrantStore → Prop
  | .submit command, .ok (.claim ⟨true, claimId⟩), own, _ =>
      ∃ before after, ∃ submission : Submission catalogue command before after,
        own = [(before, after)] ∧ claimId = some submission.claim.id
  | .submit command, .ok _, own, db => command.key ∈ db.claimKeys ∧
      ∀ change ∈ own, change.2 = change.1.locked
  | _, .error _, own, _ => own = []
  | _, .ok _, _, _ => True

/-- What the requests rely on: the registry, that claims and entitlements stay, and that
nothing changes while the application's document is taken. -/
def grantRely : Rely GrantKey GrantStore where
  inv := ClaimRegistry
  le s s' := s.claims <+: s'.claims ∧ s.named <+: s'.named
  agree key s s' := key = .application → s = s'
  le_refl _ := ⟨List.prefix_rfl, List.prefix_rfl⟩
  le_trans h h' := ⟨h.1.trans h'.1, h.2.trans h'.2⟩
  agree_refl _ _ _ := rfl
  agree_trans h h' hkey := (h hkey).trans (h' hkey)

/-- What a request promises. In `fresh` runs a transaction given an application starts on a
state that stores it as it was given. -/
def grantPromise (catalogue : Nat → Catalogue) (fresh : Prop) (request : GrantRequest) :
    Promise GrantStore (Option Application) (Except GrantFailure GrantOutcome) where
  guar := request.Changes catalogue fresh
  post := request.EndsWell catalogue
  allow note s := fresh → ∀ a ∈ note, a = s.application.application

/-- Every change keeps the registry, the claims and the entitlements. -/
theorem GrantRequest.Changes.keeps {catalogue : Nat → Catalogue} {fresh : Prop}
    {request : GrantRequest} {before after : GrantStore}
    (h : request.Changes catalogue fresh before after) (hbefore : ClaimRegistry before) :
    ClaimRegistry after ∧ grantRely.le before after := by
  cases request with
  | submit command =>
    rcases h with hsubmission | ⟨_, rfl⟩
    · obtain ⟨submission⟩ := hsubmission
      refine ⟨submission.registry hbefore, ?_, ?_⟩
      · rw [submission.adds.claims]
        exact List.prefix_append _ _
      · rw [GrantStore.named, GrantStore.named, submission.entitlements]
    · exact ⟨⟨hbefore.ids, hbefore.keys, hbefore.entitlements, hbefore.slots, hbefore.commands,
        hbefore.payments, hbefore.audits⟩, grantRely.le_refl before⟩
  | create command =>
    obtain ⟨creation⟩ := h
    refine ⟨creation.registry hbefore, ?_, creation.named_prefix⟩
    rw [creation.adds.nil_claims]
  | update command =>
    obtain ⟨update⟩ := h
    refine ⟨update.registry hbefore, ?_, ?_⟩
    · rw [update.adds.nil_claims]
    · rw [update.named_eq]
  | apply command =>
    cases h with
    | pinned _ hafter =>
      rw [hafter]
      exact ⟨⟨hbefore.ids, hbefore.keys, hbefore.entitlements, hbefore.slots, hbefore.commands,
        hbefore.payments, hbefore.audits⟩, grantRely.le_refl before⟩
    | unchanged h =>
      rw [h]
      exact ⟨hbefore, grantRely.le_refl before⟩
    | moved _ _ _ hadds hentitlements =>
      refine ⟨hbefore.adds_nil hadds ?_ ?_, ?_, ?_⟩
      · rw [GrantStore.entitlementIds, hentitlements]
        exact hbefore.entitlements
      · rw [GrantStore.slots, hentitlements]
        exact hbefore.slots
      · rw [hadds.nil_claims]
      · rw [GrantStore.named, GrantStore.named, hentitlements]

/-- A change by one who has taken the application's document, or no change, is in order. -/
theorem GrantRequest.Changes.fine {catalogue : Nat → Catalogue} {fresh : Prop}
    {request : GrantRequest} {before after : GrantStore} {held : List GrantKey}
    (h : request.Changes catalogue fresh before after) (hbefore : ClaimRegistry before)
    (hheld : .application ∈ held ∨ after = before) :
    Fine grantRely (request.Changes catalogue fresh) before after held := by
  obtain ⟨hregistry, hle⟩ := h.keeps hbefore
  refine ⟨hregistry, hle, ?_, h⟩
  intro key hkey happlication
  rcases hheld with hheld | hsame
  · exact absurd (happlication ▸ hheld) hkey
  · exact hsame.symm

section
variable {catalogue : Nat → Catalogue} {fresh : Prop} {request : GrantRequest}

/-- What a use case on the application satisfies from a state on. -/
abbrev GrantOk (catalogue : Nat → Catalogue) (fresh : Prop) (request : GrantRequest)
    (program : GrantUseCase) (own : List (GrantStore × GrantStore)) (s : GrantStore) : Prop :=
  program.Ok grantRely (grantPromise catalogue fresh request) own s

/-- A refusal ends well if nothing was committed. -/
theorem ret_refused (failure : GrantFailure) (s : GrantStore) :
    GrantOk catalogue fresh request (.ret (.error failure)) [] s := by
  intro db _ _
  cases request <;> rfl

/-- A session is in order if what it leaves, having taken the application, is a change of the
request, and what follows its end is. -/
theorem session_ok {base : GrantStore} {x : GrantSession GrantOutcome}
    {next : Except GrantFailure GrantOutcome → GrantUseCase}
    {P : GrantOutcome → List GrantKey → Delta → Prop} (hx : Writes base x [] .empty P)
    (hchange : ∀ outcome held δ, P outcome held δ → ∀ db, (.application ∈ held → db = base) →
      (.application ∈ held ∨ δ.apply db = db) ∧
      request.Changes catalogue fresh db (δ.apply db) ∧
      GrantOk catalogue fresh request (next (.ok outcome)) [(db, δ.apply db)] (δ.apply db))
    (herror : ∀ failure db, grantRely.le base db →
      GrantOk catalogue fresh request (next (.error failure)) [] db) :
    x.Leads base [] id (Ends grantRely (grantPromise catalogue fresh request).guar
      (fun result own s ↦ (next result).Ok grantRely (grantPromise catalogue fresh request) own s)
      [] base) := by
  refine hx.ends ?_ fun failure _ _ db _ hle ↦ herror failure db hle
  intro outcome held δ h db hdb _ hagree
  obtain ⟨hheld, hchanges, hnext⟩ := hchange outcome held δ h db fun hheld ↦
    (hagree _ hheld rfl).symm
  exact ⟨hchanges.fine hdb hheld, hnext⟩

end

/-! ### Submitting a claim -/

section
variable {catalogue : Nat → Catalogue} {fresh : Prop} {command : SubmitCommand}

/-- A claim found stored, in a state so far, is stored. -/
theorem ret_replayed {own : List (GrantStore × GrantStore)} {s : GrantStore}
    (hown : ∀ change ∈ own, change.2 = change.1.locked) (hkey : command.key ∈ s.claimKeys) :
    GrantOk catalogue fresh (.submit command) (.ret (.ok (.claim ⟨false, none⟩))) own s :=
  fun _ _ hle ↦ ⟨(hle.1.map Claim.key).subset hkey, hown⟩

theorem lock_apply (s : GrantStore) : Delta.empty.lock.apply s = s.locked := by
  simp [Delta.apply, Delta.lock, Delta.empty, GrantStore.locked]

/-- The transaction of a submission is in order if what follows its failure is. -/
theorem submitTransaction_ok {grant : Grant} {pinnedVersion payment : Option String}
    {k : GrantFailure → GrantUseCase} {s : GrantStore}
    (hresolved : ∃ n, resolveGrant (catalogue n) command.code pinnedVersion = .ok grant)
    (hpayment : ∀ base, ClaimRegistry base → grantRely.le s base →
      PaymentFound catalogue command grant pinnedVersion payment base)
    (hk : ∀ failure s, GrantOk catalogue fresh (.submit command) (k failure) [] s) :
    GrantOk catalogue fresh (.submit command)
      (.withTransaction (.body none (submitInTransaction command grant pinnedVersion payment)) fun
        | .ok outcome => .ret (.ok outcome)
        | .error failure => k failure) [] s := by
  intro base hbase hle _
  refine session_ok (submitInTransaction_writes hbase hresolved (hpayment base hbase hle)) ?_ ?_
  case refine_2 => exact fun failure db _ ↦ hk failure db
  rintro outcome held δ ⟨hheld, hends⟩ db hdb
  obtain rfl := hdb hheld
  rcases hends with ⟨rfl, hkey, rfl⟩ | ⟨submission, rfl⟩
  · rw [lock_apply]
    refine ⟨.inl hheld, .inr ⟨hkey, rfl⟩, ret_replayed ?_ hkey⟩
    intro change hchange
    rw [List.mem_singleton.mp hchange]
  · exact ⟨.inl hheld, .inl ⟨submission⟩, fun _ _ _ ↦ ⟨_, _, submission, rfl, rfl⟩⟩

/-- The entitlement a request names has the claim code it had when it was looked up. -/
theorem claimCode_of_le {s base : GrantStore} (hbase : ClaimRegistry base)
    (hle : grantRely.le s base) {clientRef code id : String} {e₀ e : Entitlement}
    (h₀ : (findExistingEntitlements clientRef code s).find? (·.id = id) = some e₀)
    (h : (findExistingEntitlements clientRef code base).find? (·.id = id) = some e) :
    e.claimCode = e₀.claimCode := by
  have hid₀ : e₀.id = id := by simpa using List.find?_some h₀
  have hid : e.id = id := by simpa using List.find?_some h
  have hmem₀ : e₀ ∈ s.entitlements := List.mem_of_mem_filter (List.mem_of_find?_eq_some h₀)
  have hmem : e ∈ base.entitlements := List.mem_of_mem_filter (List.mem_of_find?_eq_some h)
  obtain ⟨e', hmem', hnamed⟩ := List.mem_map.mp (hle.2.subset (List.mem_map_of_mem hmem₀))
  have hsame : e' = e := by
    refine List.inj_on_of_nodup_map hbase.entitlements hmem' hmem ?_
    rw [hid, ← hid₀]
    exact congrArg Prod.fst hnamed
  rw [← hsame]
  exact congrArg (fun n : String × String × String × String ↦ n.2.2.2) hnamed

/-- A version without a payment to request under the template of the entitlement. -/
theorem claimPaymentFor_ok {grant : Grant} {pinnedVersion : Option String}
    {k : Option String → GrantUseCase} {s : GrantStore}
    (hk : ∀ payment s, (∀ base, ClaimRegistry base → grantRely.le s base →
        PaymentFound catalogue command grant pinnedVersion payment base) →
      GrantOk catalogue fresh (.submit command) (k payment) [] s) :
    GrantOk catalogue fresh (.submit command)
      (claimPaymentFor catalogue command grant pinnedVersion k) [] s := by
  intro db seen _ _ _ _ hprimary
  obtain rfl := hprimary rfl
  cases hfind : (findExistingEntitlements command.clientRef command.code seen).find?
      (·.id = command.claim.entitlementId) with
  | none =>
    simp only [hfind]
    exact ret_refused _ _
  | some entitlement =>
    simp only [hfind]
    cases hversion : pinnedVersion.filter (· ≠ "") with
    | none =>
      dsimp only
      refine hk none seen fun base _ _ ↦ ⟨0, fun _ _ _ _ _ ↦ ?_⟩
      rw [hversion]
      rfl
    | some version =>
      dsimp only
      split
      · next hpays =>
        -- the template pays nothing on submission, so a claim under it needs approval
        refine hk none seen fun base hbase hle ↦ ⟨0, fun _ e t hclaimable happroval ↦ ?_⟩
        obtain ⟨hfound, htemplate, hclaim⟩ := claimableFor_eq_ok hclaimable
        rw [claimCode_of_le hbase hle hfind hfound] at htemplate
        simp [htemplate, templatePaysOnSubmission, hclaim, happroval] at hpays
      · intro outside
        dsimp only
        split
        · exact ret_refused _ _
        · refine hk _ seen fun base _ _ ↦ ⟨outside.moment, fun _ _ _ _ _ ↦ ?_⟩
          rw [hversion]
          split <;> simp_all [Option.filter]

/-- One attempt is in order if what follows its failure is. -/
theorem submitOnce_ok {k : GrantFailure → GrantUseCase} {s : GrantStore}
    (hk : ∀ failure s, GrantOk catalogue fresh (.submit command) (k failure) [] s) :
    GrantOk catalogue fresh (.submit command) (submitOnce catalogue command k) [] s := by
  intro db seen _ _ _ _ _
  dsimp only
  split
  · exact ret_refused _ _
  · next a _ =>
    intro outside
    dsimp only
    cases hgrant : resolveGrant (catalogue outside.moment) command.code a.pinnedVersion with
    | error failure => exact ret_refused _ _
    | ok grant =>
      exact claimPaymentFor_ok fun payment s hpayment ↦
        submitTransaction_ok ⟨outside.moment, hgrant⟩ hpayment hk

theorem retryOrThrow_ok {next : Option GrantUseCase}
    (hnext : ∀ program ∈ next, ∀ s, GrantOk catalogue fresh (.submit command) program [] s)
    (failure : GrantFailure) (s : GrantStore) :
    GrantOk catalogue fresh (.submit command) (retryOrThrow command next failure) [] s := by
  have hretry : ∀ s, GrantOk catalogue fresh (.submit command)
      (throwOrRetry command next failure) [] s := by
    intro s
    unfold throwOrRetry
    split
    · exact ret_refused _ _
    · cases next with
      | none => exact ret_refused _ _
      | some program => exact hnext program rfl s
  unfold retryOrThrow
  split
  · intro db seen _ _ _ hseen _
    dsimp only
    split
    · next hexists =>
      exact ret_replayed (fun _ h ↦ absurd h List.not_mem_nil)
        ((hseen.1.map Claim.key).subset (existsByClientClaimRef_iff.mp hexists))
    · exact hretry db
  · exact hretry s

theorem submitAttempt_ok (retries : Nat) (s : GrantStore) :
    GrantOk catalogue fresh (.submit command) (submitAttempt catalogue command retries) [] s := by
  induction retries generalizing s with
  | zero => exact submitOnce_ok (retryOrThrow_ok fun _ h ↦ by cases h)
  | succ retries ih =>
    refine submitOnce_ok (retryOrThrow_ok fun program h s ↦ ?_)
    obtain rfl := Option.some.inj h
    exact ih s

/-- A submission is in order by itself. -/
theorem submitClaim_ok (command : SubmitCommand) (s : GrantStore) :
    GrantOk catalogue fresh (.submit command) (submitClaim catalogue command) [] s := by
  unfold submitClaim
  split
  · exact ret_refused _ _
  · split
    · exact ret_refused _ _
    · intro db seen _ _ _ hseen _
      dsimp only
      split
      · next hexists =>
        exact ret_replayed (fun _ h ↦ absurd h List.not_mem_nil)
          ((hseen.1.map Claim.key).subset (existsByClientClaimRef_iff.mp hexists))
      · exact submitAttempt_ok _ _

end

/-! ### Creating and updating an entitlement -/

section
variable {catalogue : Nat → Catalogue} {fresh : Prop} {request : GrantRequest}

/-- What precedes the transaction of a creation or an update is in order if what follows the
grant it resolves is. -/
theorem withGrantFor_ok {clientRef code : String} {k : Grant → Option String → GrantUseCase}
    {s : GrantStore} (hk : ∀ grant pinnedVersion, ResolvesGrant catalogue pinnedVersion grant →
      ∀ s, GrantOk catalogue fresh request (k grant pinnedVersion) [] s) :
    GrantOk catalogue fresh request (withGrantFor catalogue clientRef code k) [] s := by
  intro db seen _ _ _ _ _
  dsimp only
  split
  · exact ret_refused _ _
  · next a _ =>
    intro outside
    dsimp only
    split
    · exact ret_refused _ _
    · exact ret_refused _ _
    · next grant version hgrant =>
      split
      · exact ret_refused _ _
      · exact hk grant _ ⟨_, _, hgrant⟩ db

/-- The transaction of a creation or an update is in order if the change it commits is one of
the request and what follows its end is in order. -/
theorem changeTransaction_ok {x : GrantSession GrantOutcome}
    {next : Except GrantFailure GrantOutcome → GrantUseCase} {s : GrantStore}
    (hx : ∀ base, Writes base x [] .empty fun _ held δ ↦
      .application ∈ held ∧ request.Changes catalogue fresh base (δ.apply base))
    (hok : ∀ outcome own s, GrantOk catalogue fresh request (next (.ok outcome)) own s)
    (herror : ∀ failure s, GrantOk catalogue fresh request (next (.error failure)) [] s) :
    GrantOk catalogue fresh request (.withTransaction (.body none x) next) [] s := by
  intro base _ _ _
  refine session_ok (hx base) ?_ fun failure db _ ↦ herror failure db
  rintro outcome held δ ⟨hheld, hchanges⟩ db hdb
  obtain rfl := hdb hheld
  exact ⟨.inl hheld, hchanges, hok _ _ _⟩

/-- A creation is in order by itself. -/
theorem createEntitlement_ok (command : CreateCommand) (s : GrantStore) :
    GrantOk catalogue fresh (.create command) (createEntitlement catalogue command) [] s := by
  unfold createEntitlement
  generalize creationRetries = retries
  induction retries generalizing s with
  | zero =>
    refine withGrantFor_ok fun grant pinnedVersion hresolved s ↦ changeTransaction_ok
      (fun base ↦ createInTransaction_writes hresolved) (fun outcome own s _ _ _ ↦ trivial) ?_
    intro failure s
    cases failure <;> exact ret_refused _ _
  | succ retries ih =>
    refine withGrantFor_ok fun grant pinnedVersion hresolved s ↦ changeTransaction_ok
      (fun base ↦ createInTransaction_writes hresolved) (fun outcome own s _ _ _ ↦ trivial) ?_
    intro failure s
    cases failure with
    | retryCreation reason => exact ih s
    | _ => exact ret_refused _ _

/-- An update is in order by itself. -/
theorem updateEntitlement_ok (command : UpdateCommand) (s : GrantStore) :
    GrantOk catalogue fresh (.update command) (updateEntitlement catalogue command) [] s :=
  withGrantFor_ok fun _ _ hresolved _ ↦ changeTransaction_ok
    (fun _ ↦ updateInTransaction_writes hresolved) (fun _ _ _ _ _ _ ↦ trivial)
    fun _ _ ↦ ret_refused _ _

end

/-! ### Applying a status change -/

section
variable {catalogue : Nat → Catalogue} {fresh : Prop} {command : StatusCommand}

/-- What a callback of a status change satisfies from a state on. -/
abbrev StatusOk (catalogue : Nat → Catalogue) (fresh : Prop) (command : StatusCommand)
    (callback : GrantCallback) (s : GrantStore) : Prop :=
  callback.Ok grantRely (grantPromise catalogue fresh (.apply command)).guar
    (grantPromise catalogue fresh (.apply command)).allow
    (fun result own s ↦ GrantOk catalogue fresh (.apply command) (.ret result) own s) [] s

/-- The session on the application of the note is in order. -/
theorem statusBody_ok {a : Application} {grant : Grant} (hgrant : UsesGrant catalogue a grant)
    (s : GrantStore) :
    StatusOk catalogue fresh command (.body (some a) (applyInSession a grant command)) s := by
  intro base _ _ hallow
  refine session_ok (applyInSession_writes a grant command) ?_ fun failure db _ ↦ ret_refused _ db
  rintro outcome held δ hleft db hdb
  rcases hleft with rfl | ⟨hheld, hδ, b, hb, hmoved⟩
  · rw [apply_empty]
    exact ⟨.inr rfl, .unchanged rfl, fun _ _ _ ↦ trivial⟩
  · obtain rfl := hdb hheld
    have happlication : (δ.apply db).application.application = b := by
      rw [Delta.apply, hb, Option.getD_some]
    have hentitlements : (δ.apply db).entitlements = db.entitlements := by
      rw [Delta.apply, hδ.entitlements]
      rfl
    refine ⟨.inl hheld, .moved (fun hfresh ↦ hallow hfresh a rfl) hgrant ?_ (hδ.adds db)
      hentitlements, fun _ _ _ ↦ trivial⟩
    rw [happlication]
    exact hmoved

/-- Pinning the version the grant resolved to, where it differs, is in order, and leaves the
application on the grant. -/
theorem persistResolvedVersion_ok {n : Nat} {a : Application} {grant : Grant}
    {resolvedVersion : Option String} {k : Application → GrantCallback} {s : GrantStore}
    (hgrant : (catalogue n).currentGrant a.pinnedVersion = .ok (some grant, resolvedVersion))
    (hk : ∀ a, UsesGrant catalogue a grant → ∀ s, StatusOk catalogue fresh command (k a) s) :
    StatusOk catalogue fresh command (persistResolvedVersion a resolvedVersion k) s := by
  unfold persistResolvedVersion
  cases resolvedVersion with
  | none => exact hk a ⟨n, _, _, hgrant, rfl⟩ s
  | some version =>
    dsimp only
    split
    · next hsame =>
      refine hk a ⟨n, _, _, hgrant, ?_⟩ s
      rcases hsame with rfl | hcurrent
      · rfl
      · by_cases hempty : version = ""
        · subst hempty
          rfl
        · simp [Application.pinnedVersion, ← hcurrent, hempty, Option.filter]
    · next hdiffers =>
      obtain ⟨hempty, _⟩ := not_or.mp hdiffers
      intro db hdb _
      refine ⟨?_, hk _ ⟨n, _, _, hgrant, ?_⟩ _⟩
      · unfold updateCurrentConfigVersion
        split
        · have hpin : (GrantRequest.apply command).Changes catalogue fresh db _ :=
            .pinned hgrant rfl
          exact hpin.fine hdb (.inl (List.mem_singleton.mpr rfl))
        · have hsame : (GrantRequest.apply command).Changes catalogue fresh db db :=
            .unchanged rfl
          exact hsame.fine hdb (.inr rfl)
      · simp [Application.pinnedVersion, hempty, Option.filter]

/-- A status change is in order by itself. -/
theorem applyExternalStateChange_ok (command : StatusCommand) (s : GrantStore) :
    GrantOk catalogue fresh (.apply command) (applyExternalStateChange catalogue command) [] s := by
  intro db seen _ _ _ _ _
  dsimp only
  split
  · exact fun _ _ _ ↦ ret_refused _ _
  · intro outside
    dsimp only
    split
    · exact fun _ _ _ ↦ ret_refused _ _
    · exact fun _ _ _ ↦ ret_refused _ _
    · next grant resolvedVersion hgrant =>
      exact persistResolvedVersion_ok hgrant fun a huses s ↦ statusBody_ok huses s

/-- A request is in order by itself. -/
theorem run_ok (request : GrantRequest) (s : GrantStore) :
    GrantOk catalogue fresh request (request.run catalogue) [] s := by
  cases request with
  | submit command => exact submitClaim_ok command s
  | create command => exact createEntitlement_ok command s
  | update command => exact updateEntitlement_ok command s
  | apply command => exact applyExternalStateChange_ok command s

/-- Every run of the requests is in order. -/
theorem grants_sound {T : Type} [DecidableEq T] {s₀ : GrantStore} (hs₀ : ClaimRegistry s₀)
    {requests : T → GrantRequest} {ls : List (T × Store.Move GrantOutside)}
    {s : System GrantKey GrantStore GrantOutside GrantFailure (Option Application) GrantOutcome
      (Except GrantFailure GrantOutcome) T}
    (h : Run System.step
      (fun s l ↦ admitted (grantPromise catalogue fresh (requests l.1)).allow s l)
      (System.start s₀ fun t ↦ (requests t).run catalogue) ls s) :
    Sound grantRely (fun t ↦ grantPromise catalogue fresh (requests t)) s₀ s :=
  run_sound hs₀ (fun t ↦ run_ok (requests t) _) h

/-- Every run is in order where nothing is asked of what a transaction is given. -/
theorem grants_sound_any {T : Type} [DecidableEq T] {s₀ : GrantStore} (hs₀ : ClaimRegistry s₀)
    {requests : T → GrantRequest} {ls : List (T × Store.Move GrantOutside)}
    {s : System GrantKey GrantStore GrantOutside GrantFailure (Option Application) GrantOutcome
      (Except GrantFailure GrantOutcome) T}
    (h : Run System.step anyStep (System.start s₀ fun t ↦ (requests t).run catalogue) ls s) :
    Sound grantRely (fun t ↦ grantPromise catalogue False (requests t)) s₀ s :=
  grants_sound hs₀ (run_admitted (p := fun t ↦ grantPromise catalogue False (requests t))
    (fun _ _ _ hfresh ↦ hfresh.elim) h)

end

end FgGas.Grants
