import FgGas.Grants.VersionFiles

/-!
# Fetch states kept

After any writes of the collection the worst fetch status is that of the files, a publish keeps the
fetch state of the files there are, and a publish that is repeated changes nothing but what another
one has changed in between.
-/

namespace FgGas.Grants.VersionFiles

open Machine Agreements

variable {c : Catalogue} {update : CatalogueUpdate} {key : String × String} {p q : Publish}
  {stored : Option VersionDocument} {doc : VersionDocument} {type : DefinitionType}
  {file : DefinitionFile} {s3Key : Option String} {start : FetchState}

/-! ### The worst fetch status -/

/-- The worst fetch status stored is that of the files. -/
def VersionDocument.Stamped (doc : VersionDocument) : Prop :=
  IsWorst fetchStatusRank (doc.files.map (·.fetchStatus)) doc.worstFetchStatus

theorem withWorstFetchStatus_stamped (doc : VersionDocument) :
    (withWorstFetchStatus doc).Stamped := isWorst_worstOf _ _

theorem document_stamped (h : update.document stored = some doc) : doc.Stamped := by
  cases update with
  | upsert p =>
    obtain rfl := Option.some.inj h
    exact withWorstFetchStatus_stamped _
  | updateDefinitionFetchStatus =>
    obtain ⟨doc', -, rfl⟩ := Option.map_eq_some_iff.mp h
    exact withWorstFetchStatus_stamped _

/-- A document is stamped, or was stored before the writes. -/
theorem run_stamped (c : Catalogue) (updates : List CatalogueUpdate)
    (h : c.run updates key = some doc) : c key = some doc ∨ doc.Stamped := by
  induction updates generalizing c with
  | nil => exact .inl h
  | cons update updates ih =>
    rcases ih (c.apply update) h with h | h
    · by_cases hkey : key = update.key
      · subst hkey
        rw [apply_self] at h
        exact .inr (document_stamped h)
      · rw [apply_of_ne hkey] at h
        exact .inl h
    · exact .inr h

/-! ### Fetch states -/

/-- The fields of a fetch state are in another one too. -/
structure FetchState.Kept (before after : FetchState) : Prop where
  fetchStatus : ∀ x, before.fetchStatus = some x → after.fetchStatus = some x
  fetchError : ∀ x, before.fetchError = some x → after.fetchError = some x
  fetchAttempts : ∀ x, before.fetchAttempts = some x → after.fetchAttempts = some x
  fetchedAt : ∀ x, before.fetchedAt = some x → after.fetchedAt = some x
  lastFetchAttemptAt : ∀ x, before.lastFetchAttemptAt = some x → after.lastFetchAttemptAt = some x

theorem FetchState.Kept.refl (state : FetchState) : state.Kept state :=
  ⟨fun _ ↦ id, fun _ ↦ id, fun _ ↦ id, fun _ ↦ id, fun _ ↦ id⟩

theorem mergeFile_kept : file.Kept (mergeFile start (some file) s3Key).toFetchState := by
  constructor <;> intro x hx <;> simp [mergeFile, DefinitionFile.merge, hx]

/-- A publish keeps the files there are, and their fetch states. -/
theorem upsertDocument_kept (hfile : doc.definitions type = some file) :
    ∃ file', (upsertDocument p (some doc)).definitions type = some file' ∧
      file.Kept file'.toFetchState := by
  have hstored : (some doc).bind (·.definitions type) = some file := hfile
  rw [upsertDocument_definitions, hstored]
  cases p.locates type with
  | none => exact ⟨file, rfl, .refl _⟩
  | some s3Key => exact ⟨_, rfl, mergeFile_kept⟩

/-! ### A publish repeated -/

/-- No field of the fetch state is missing. -/
structure FetchState.Complete (state : FetchState) : Prop where
  fetchStatus : state.fetchStatus.isSome
  fetchError : state.fetchError.isSome
  fetchAttempts : state.fetchAttempts.isSome
  fetchedAt : state.fetchedAt.isSome
  lastFetchAttemptAt : state.lastFetchAttemptAt.isSome

theorem mergeFile_complete (h : start.Complete) {stored : Option DefinitionFile} :
    (mergeFile start stored s3Key).Complete := by
  obtain ⟨h₁, h₂, h₃, h₄, h₅⟩ := h
  constructor <;> simp [mergeFile, DefinitionFile.merge, *]

theorem buildFetchStateUpdate_complete (h : file.Complete) {fetchStatus : FetchStatus}
    {fetchError : Option String} {attemptedAt : String} :
    (buildFetchStateUpdate fetchStatus fetchError attemptedAt file).Complete := by
  obtain ⟨h₁, h₂, h₃, h₄, h₅⟩ := h
  unfold buildFetchStateUpdate
  dsimp only
  split
  · exact ⟨rfl, rfl, rfl, h₄, rfl⟩
  · exact ⟨rfl, rfl, rfl, rfl, rfl⟩

theorem startState_complete : (p.startState type).Complete := by
  cases type <;> exact ⟨rfl, rfl, rfl, rfl, rfl⟩

/-- A complete file is changed in its location alone. -/
theorem mergeFile_of_complete (h : file.Complete) :
    mergeFile start (some file) s3Key = { file with s3Key := some s3Key } := by
  obtain ⟨h₁, h₂, h₃, h₄, h₅⟩ := h
  obtain ⟨x₁, h₁⟩ := Option.isSome_iff_exists.mp h₁
  obtain ⟨x₂, h₂⟩ := Option.isSome_iff_exists.mp h₂
  obtain ⟨x₃, h₃⟩ := Option.isSome_iff_exists.mp h₃
  obtain ⟨x₄, h₄⟩ := Option.isSome_iff_exists.mp h₄
  obtain ⟨x₅, h₅⟩ := Option.isSome_iff_exists.mp h₅
  cases file with
  | mk state s3Key =>
    cases state with
    | mk => simp_all [mergeFile, DefinitionFile.merge]

/-- What a publish leaves that no later write takes back. -/
structure Recorded (p : Publish) (doc : VersionDocument) : Prop where
  stamped : doc.worstFetchStatus = worstOf fetchStatusRank (doc.files.map (·.fetchStatus))
  version : (doc.major, doc.minor, doc.patch) = (p.major, p.minor, p.patch)
  receivedAt : doc.receivedAt.isSome
  located : ∀ type s3Key, p.locates type = some s3Key →
    ∃ file, doc.definitions type = some file ∧ file.Complete

/-- What a publish has said of its version is what is stored. -/
structure Current (p : Publish) (doc : VersionDocument) : Prop where
  status : doc.status = p.status
  s3Bucket : doc.s3Bucket = p.s3Bucket
  located : ∀ type s3Key, p.locates type = some s3Key →
    ∃ file, doc.definitions type = some file ∧ file.s3Key = some s3Key

/-- Two publishes say the same where both say something. -/
structure Agree (p q : Publish) : Prop where
  status : q.status = p.status
  s3Bucket : q.s3Bucket = p.s3Bucket
  located : ∀ type s3Key s3Key', p.locates type = some s3Key → q.locates type = some s3Key' →
    s3Key' = s3Key

/-- The publish, received at another time. -/
def Publish.receivedAgain (p : Publish) (receivedAt : String) : Publish :=
  { p with receivedAt := receivedAt }

theorem key_eq_version (h : q.key = p.key) :
    (q.major, q.minor, q.patch) = (p.major, p.minor, p.patch) := by
  have hversion : q.version = p.version := (Prod.mk.inj h).2
  have hparsed := q.parsed
  rw [hversion, p.parsed] at hparsed
  exact (Option.some.inj hparsed).symm

theorem recorded_upsert : Recorded p (upsertDocument p stored) where
  stamped := rfl
  version := rfl
  receivedAt := by simp [upsertDocument, withWorstFetchStatus]
  located type s3Key h := by
    rw [upsertDocument_definitions, h]
    exact ⟨_, rfl, mergeFile_complete startState_complete⟩

theorem current_upsert : Current p (upsertDocument p stored) where
  status := rfl
  s3Bucket := rfl
  located type s3Key h := by
    rw [upsertDocument_definitions, h]
    exact ⟨_, rfl, rfl⟩

/-- A later write of the document keeps what a publish left. -/
theorem Recorded.document (h : Recorded p doc) (hkey : update.key = p.key) :
    ∃ doc', update.document (some doc) = some doc' ∧ Recorded p doc' := by
  cases update with
  | upsert q =>
    refine ⟨_, rfl, rfl, key_eq_version hkey, ?_, fun type s3Key hlocates ↦ ?_⟩
    · simp [upsertDocument, withWorstFetchStatus]
    · obtain ⟨file, hfile, hcomplete⟩ := h.located type s3Key hlocates
      have hstored : (some doc).bind (·.definitions type) = some file := hfile
      rw [upsertDocument_definitions, hstored]
      cases q.locates type with
      | none => exact ⟨file, rfl, hcomplete⟩
      | some s3Key' =>
        exact ⟨_, rfl, mergeFile_complete startState_complete⟩
  | updateDefinitionFetchStatus _ _ other fetchStatus fetchError attemptedAt =>
    refine ⟨_, rfl, rfl, h.version, h.receivedAt, fun type s3Key hlocates ↦ ?_⟩
    obtain ⟨file, hfile, hcomplete⟩ := h.located type s3Key hlocates
    rw [fetchStatusDocument_definitions]
    split
    · next heq =>
      subst heq
      rw [hfile]
      exact ⟨_, rfl, buildFetchStateUpdate_complete hcomplete⟩
    · exact ⟨file, hfile, hcomplete⟩

/-- A publish that agrees, or a fetch, keeps what is stored. -/
theorem Current.document (h : Current p doc) (hagree : ∀ q, update = .upsert q → Agree p q) :
    ∃ doc', update.document (some doc) = some doc' ∧ Current p doc' := by
  cases update with
  | upsert q =>
    obtain ⟨hstatus, hbucket, hlocated⟩ := hagree q rfl
    refine ⟨_, rfl, hstatus, hbucket, fun type s3Key hlocates ↦ ?_⟩
    obtain ⟨file, hfile, hkey⟩ := h.located type s3Key hlocates
    have hstored : (some doc).bind (·.definitions type) = some file := hfile
    rw [upsertDocument_definitions, hstored]
    cases hq : q.locates type with
    | none => exact ⟨file, rfl, hkey⟩
    | some s3Key' =>
      rw [hlocated type s3Key s3Key' hlocates hq]
      exact ⟨_, rfl, rfl⟩
  | updateDefinitionFetchStatus _ _ other fetchStatus fetchError attemptedAt =>
    refine ⟨_, rfl, h.status, h.s3Bucket, fun type s3Key hlocates ↦ ?_⟩
    obtain ⟨file, hfile, hkey⟩ := h.located type s3Key hlocates
    rw [fetchStatusDocument_definitions]
    split
    · next heq =>
      subst heq
      rw [hfile]
      refine ⟨_, rfl, ?_⟩
      unfold buildFetchStateUpdate
      dsimp only [Option.getD_some]
      split <;> exact hkey
    · exact ⟨file, hfile, hkey⟩

/-- A publish repeated leaves a document as it was exactly where what it says is what is stored. -/
theorem Recorded.upsert_eq_iff (h : Recorded p doc) (receivedAt : String) :
    upsertDocument (p.receivedAgain receivedAt) (some doc) = doc ↔ Current p doc := by
  constructor
  · intro heq
    have hcurrent : Current (p.receivedAgain receivedAt) doc := heq ▸ current_upsert
    exact ⟨hcurrent.status, hcurrent.s3Bucket, hcurrent.located⟩
  · intro hcurrent
    obtain ⟨time, htime⟩ := Option.isSome_iff_exists.mp h.receivedAt
    have hversion := h.version
    rw [Prod.mk.injEq, Prod.mk.injEq] at hversion
    have hdefinitions : (upsertDocument (p.receivedAgain receivedAt) (some doc)).definitions =
        doc.definitions := by
      funext type
      rw [upsertDocument_definitions]
      cases hlocates : p.locates type with
      | none =>
        rw [show (p.receivedAgain receivedAt).locates type = none from hlocates]
        rfl
      | some s3Key =>
        obtain ⟨file, hfile, hcomplete⟩ := h.located type s3Key hlocates
        obtain ⟨file', hfile', hkey⟩ := hcurrent.located type s3Key hlocates
        obtain rfl : file = file' := Option.some.inj (hfile.symm.trans hfile')
        rw [show (p.receivedAgain receivedAt).locates type = some s3Key from hlocates,
          show (some doc).bind (·.definitions type) = some file from hfile]
        dsimp only
        rw [mergeFile_of_complete hcomplete, ← hkey, hfile]
    have hworst : (upsertDocument (p.receivedAgain receivedAt) (some doc)).worstFetchStatus =
        doc.worstFetchStatus := by
      rw [h.stamped]
      exact congrArg (fun definitions ↦ worstOf fetchStatusRank
        (([DefinitionType.grant, .agreement, .payment].filterMap definitions).map
          (·.fetchStatus))) hdefinitions
    have hreceived : (upsertDocument (p.receivedAgain receivedAt) (some doc)).receivedAt =
        doc.receivedAt := by
      change doc.receivedAt.or _ = _
      rw [htime, Option.some_or]
    cases doc with
    | mk major minor patch status s3Bucket received definitions worst =>
      rw [VersionDocument.ext_iff]
      exact ⟨hversion.1.symm, hversion.2.1.symm, hversion.2.2.symm, hcurrent.status.symm,
        hcurrent.s3Bucket.symm, hreceived, hdefinitions, hworst⟩

/-! ### Runs -/

theorem apply_upsert (c : Catalogue) (p : Publish) :
    c.apply (.upsert p) p.key = some (upsertDocument p (c p.key)) := Function.update_self ..

/-- What the writes of a document keep, they keep in a row. -/
theorem run_keeps {P : VersionDocument → Prop} {Q : CatalogueUpdate → Prop}
    (hkeeps : ∀ update doc, update.key = key → Q update → P doc →
      ∃ doc', update.document (some doc) = some doc' ∧ P doc')
    {updates : List CatalogueUpdate} (hok : ∀ update ∈ updates, Q update)
    (h : ∃ doc, c key = some doc ∧ P doc) : ∃ doc, c.run updates key = some doc ∧ P doc := by
  induction updates generalizing c with
  | nil => exact h
  | cons update updates ih =>
    obtain ⟨hupdate, hok⟩ := List.forall_mem_cons.mp hok
    refine ih hok ?_
    obtain ⟨doc, hdoc, hP⟩ := h
    by_cases hkey : update.key = key
    · subst hkey
      rw [apply_self, hdoc]
      exact hkeeps update doc rfl hupdate hP
    · rw [apply_of_ne (Ne.symm hkey)]
      exact ⟨doc, hdoc, hP⟩

theorem run_append (c : Catalogue) (earlier later : List CatalogueUpdate) :
    c.run (earlier ++ later) = (c.run earlier).run later := List.foldl_append

/-- After a publish and any later writes its document has what it recorded. -/
theorem run_recorded (c : Catalogue) (earlier later : List CatalogueUpdate) (p : Publish) :
    ∃ doc, c.run (earlier ++ .upsert p :: later) p.key = some doc ∧ Recorded p doc := by
  rw [run_append]
  refine run_keeps (Q := fun _ ↦ True) (c := (c.run earlier).apply (.upsert p))
    (fun update doc hkey _ h ↦ h.document hkey) (fun _ _ ↦ trivial) ?_
  exact ⟨_, apply_upsert _ p, recorded_upsert⟩

/-- Where the publishes in between agree, it is still what is stored. -/
theorem run_current (c : Catalogue) (earlier later : List CatalogueUpdate) (p : Publish)
    (hagree : ∀ q, .upsert q ∈ later → q.key = p.key → Agree p q) :
    ∃ doc, c.run (earlier ++ .upsert p :: later) p.key = some doc ∧ Current p doc := by
  rw [run_append]
  refine run_keeps (c := (c.run earlier).apply (.upsert p))
    (Q := fun update ↦ ∀ q, update = .upsert q → q.key = p.key → Agree p q)
    (fun update doc hkey hok h ↦ h.document fun q hq ↦ hok q hq (by rw [← hkey, hq]; rfl)) ?_ ?_
  · rintro update hupdate q rfl
    exact hagree q hupdate
  · exact ⟨_, apply_upsert _ p, current_upsert⟩

/-- A publish repeated after a run changes nothing exactly where what it says is what is stored. -/
theorem run_upsert_eq_iff {updates : List CatalogueUpdate} (hmem : .upsert p ∈ updates)
    (receivedAt : String) :
    (c.run updates).apply (.upsert (p.receivedAgain receivedAt)) = c.run updates ↔
      ∀ doc, c.run updates p.key = some doc → Current p doc := by
  obtain ⟨earlier, later, rfl⟩ := List.append_of_mem hmem
  obtain ⟨doc, hdoc, hrecorded⟩ := run_recorded c earlier later p
  have hself : (c.run (earlier ++ .upsert p :: later)).apply
      (.upsert (p.receivedAgain receivedAt)) p.key =
        some (upsertDocument (p.receivedAgain receivedAt) (some doc)) := by
    rw [← hdoc]
    exact apply_upsert _ _
  rw [hdoc]
  constructor
  · intro h doc' hdoc'
    obtain rfl := Option.some.inj hdoc'
    rw [h, hdoc] at hself
    exact (hrecorded.upsert_eq_iff receivedAt).mp (Option.some.inj hself).symm
  · intro h
    funext key
    by_cases hkey : key = p.key
    · subst hkey
      rw [hself, hdoc, (hrecorded.upsert_eq_iff receivedAt).mpr (h doc rfl)]
    · exact apply_of_ne hkey

/-- After any publishes and any records of fetches, of any versions and in any order, the worst
fetch status of each document written is that of its files, and a publish keeps the fetch state of
every file there is. A publish delivered again changes nothing exactly where the document has the
status, the bucket and the locations that it says, and so wherever no publish in between has said
others. -/
theorem fetch_states_kept (c : Catalogue) (updates : List CatalogueUpdate) :
    (∀ key doc, c.run updates key = some doc → c key = some doc ∨
      IsWorst fetchStatusRank (doc.files.map (·.fetchStatus)) doc.worstFetchStatus) ∧
    (∀ p doc type file, c.run updates (p : Publish).key = some doc →
      doc.definitions type = some file →
      ∃ doc' file', (c.run updates).apply (.upsert p) p.key = some doc' ∧
        doc'.definitions type = some file' ∧ file.Kept file'.toFetchState) ∧
    (∀ p receivedAt, .upsert p ∈ updates →
      ((c.run updates).apply (.upsert (p.receivedAgain receivedAt)) = c.run updates ↔
        ∀ doc, c.run updates p.key = some doc → Current p doc)) ∧
    ∀ earlier p later receivedAt, updates = earlier ++ .upsert p :: later →
      (∀ q, .upsert q ∈ later → q.key = p.key → Agree p q) →
      (c.run updates).apply (.upsert (p.receivedAgain receivedAt)) = c.run updates := by
  refine ⟨fun key doc h ↦ run_stamped c updates h, fun p doc type file hdoc hfile ↦ ?_,
    fun p receivedAt hmem ↦ run_upsert_eq_iff hmem receivedAt, ?_⟩
  · obtain ⟨file', hfile', hkept⟩ := upsertDocument_kept (p := p) hfile
    refine ⟨_, file', apply_upsert _ p, ?_, hkept⟩
    rw [hdoc, hfile']
  · rintro earlier p later receivedAt rfl hagree
    rw [run_upsert_eq_iff (by simp)]
    intro doc hdoc
    obtain ⟨doc', hdoc', hcurrent⟩ := run_current c earlier later p hagree
    obtain rfl := Option.some.inj (hdoc.symm.trans hdoc')
    exact hcurrent

/-- A publish as a draft that is delivered again after the version went active takes it back to a
draft. -/
theorem draft_redelivered :
    ¬ ∀ (updates : List CatalogueUpdate) (p : Publish), .upsert p ∈ updates →
      Catalogue.apply (Catalogue.run (fun _ ↦ none) updates) (.upsert p) =
        Catalogue.run (fun _ ↦ none) updates := by
  intro h
  let draft : Publish :=
    { grantCode := "woodland", version := "1.0.0", major := 1, minor := 0, patch := 0
      parsed := by decide
      status := .draft, s3Key := some "woodland/1.0.0/gas/gas.json", s3Bucket := some "bucket"
      receivedAt := "2026-10-14T10:00:00.000Z", fetchStatus := .pending, fetchError := none
      fetchAttempts := 0, fetchedAt := none, lastFetchAttemptAt := none
      agreementS3Key := none, paymentS3Key := none }
  have hsame := h [.upsert draft, .upsert { draft with status := .active }] draft
    List.mem_cons_self
  have hstatus := congrArg (fun c : Catalogue ↦ (c ("woodland", "1.0.0")).map (·.status)) hsame
  exact absurd hstatus (by decide)

end FgGas.Grants.VersionFiles
