import FgGas.Grants.ConfigVersion
import Mathlib.Data.Fintype.Basic

/-!
# Versions fetched

A call of `resolveAndFetchGrant` decides from the config version it found and the answer it got,
and writes a failure without looking again. Where no call comes to a failure of a version whose
grant is stored and fetched, and none stores it or records it fetched while another has a failure
of it still to record, the version stays fetched.
-/

namespace FgGas.Grants

open Machine Agreements

section
variable {G : Type}

/-- The fetch status of a version. -/
def VersionStore.fetchStatus (db : VersionStore G) (version : String) : Option FetchStatus :=
  (db.versions.find? (·.version = version)).map ConfigVersion.fetchStatus

/-- The grant of the version is stored, and the version fetched. -/
def VersionStore.Settled (db : VersionStore G) (version : String) : Prop :=
  (db.grants.lookup version).isSome = true ∧ db.fetchStatus version = some .fetched

instance (db : VersionStore G) (version : String) : Decidable (db.Settled version) :=
  inferInstanceAs (Decidable (_ ∧ _))

/-- The version whose failure a call is about to record. -/
def FetchStage.failed : FetchStage G → Option String
  | .recordFailure version _ _ _ => some version
  | _ => none

/-- The version whose grant a call is about to store or to record fetched. -/
def FetchStage.succeeded : FetchStage G → Option String
  | .save version _ | .recordFetched version _ => some version
  | _ => none

/-- The call of a task. -/
def VersionTask.stage : VersionTask G → Option (FetchStage G)
  | .call stage | .loadDefinition _ _ stage => some stage
  | _ => none

/-- The version whose failure a task is about to record. -/
def VersionTask.failed (task : VersionTask G) : Option String := task.stage.bind FetchStage.failed

/-- The version whose grant a task is about to store or to record fetched. -/
def VersionTask.succeeded (task : VersionTask G) : Option String :=
  task.stage.bind FetchStage.succeeded

end

section
variable {G P T : Type} [DecidableEq T] [DecidableEq P]

/-- Calls of the version fail before it is settled: none comes to a failure once it is, and none
stores its grant or records it fetched while another has a failure still to record. -/
def FailsFirst (code : String) (process : T → P) (version : String) (s : VersionSystem G P T)
    (l : T × VersionMove G) : Prop :=
  (∀ s' ∈ VersionSystem.step code process s l, (s'.tasks l.1).failed = some version →
    ¬ s.db.Settled version) ∧
  ((s.tasks l.1).succeeded = some version → ∀ u, u ≠ l.1 → (s.tasks u).failed ≠ some version)

instance [Fintype T] (code : String) (process : T → P) (version : String)
    (s : VersionSystem G P T) (l : T × VersionMove G) :
    Decidable (FailsFirst code process version s l) :=
  inferInstanceAs (Decidable (_ ∧ _))

end

/-! ### What a write does to a version -/

section
variable {G : Type} {code version : String} {db db' : VersionStore G} {stage next : FetchStage G}

theorem find?_map_version {f : ConfigVersion → ConfigVersion} (hf : ∀ v, (f v).version = v.version)
    (versions : List ConfigVersion) :
    (versions.map f).find? (·.version = version) =
      (versions.find? (·.version = version)).map f := by
  rw [List.find?_map]
  congr 2
  funext v
  simp [hf]

/-- The fetch status of a version after `updateFetchStatus`, of it or of another. -/
theorem fetchStatus_update {updated : String} {fetchStatus : FetchStatus}
    {fetchError : Option String} :
    VersionStore.fetchStatus
        { db with versions := updateFetchStatus updated fetchStatus fetchError db.versions }
        version =
      (db.fetchStatus version).map fun status ↦
        if version = updated then fetchStatus else status := by
  have hf : ∀ v : ConfigVersion, (if v.version = updated then
      buildFetchStateUpdate fetchStatus fetchError v else v).version = v.version := by
    intro v
    split <;> rfl
  unfold VersionStore.fetchStatus updateFetchStatus
  dsimp only
  rw [find?_map_version hf, Option.map_map, Option.map_map]
  cases hfind : db.versions.find? (·.version = version) with
  | none => rfl
  | some v =>
    have hversion : v.version = version := by simpa using List.find?_some hfind
    simp only [Option.map_some, Function.comp_apply, hversion]
    by_cases h : version = updated
    · rw [if_pos h, if_pos h]
      rfl
    · rw [if_neg h, if_neg h]

/-- Publishing leaves the fetch status of a version there is, and a new one is pending. -/
theorem fetchStatus_upsert {published : PublishedVersion} :
    VersionStore.fetchStatus { db with versions := upsert published db.versions } version =
      (db.fetchStatus version).or
        (if published.version = version then some .pending else none) := by
  unfold VersionStore.fetchStatus upsert
  dsimp only
  split
  · next hany =>
    have hf : ∀ v : ConfigVersion, (if v.version = published.version then
        { v with status := published.status } else v).version = v.version := by
      intro v
      split <;> rfl
    have hstatus : (fun v : ConfigVersion ↦ (if v.version = published.version then
        { v with status := published.status } else v).fetchStatus) = ConfigVersion.fetchStatus := by
      funext v
      split <;> rfl
    rw [find?_map_version hf, Option.map_map]
    change Option.map (fun v : ConfigVersion ↦ (if v.version = published.version then
        { v with status := published.status } else v).fetchStatus) _ = _
    rw [hstatus]
    cases hfind : db.versions.find? (·.version = version) with
    | some v => rfl
    | none =>
      have hne : published.version ≠ version := by
        rintro rfl
        obtain ⟨v, hv, hversion⟩ := List.any_eq_true.mp hany
        exact absurd hversion (by simpa using List.find?_eq_none.mp hfind v hv)
      rw [if_neg hne]
      rfl
  · rw [List.find?_append, Option.map_or, List.find?_cons, List.find?_nil]
    by_cases h : published.version = version <;> simp [h]

/-- What a call's write keeps: a settled version, unless it is a failure of it. -/
theorem write_settled (h : stage.write code db = some (db', next))
    (hfailed : stage.failed ≠ some version) (hsettled : db.Settled version) :
    db'.Settled version := by
  obtain ⟨hgrant, hstatus⟩ := hsettled
  cases stage with
  | save saved grant =>
    simp only [FetchStage.write] at h
    split at h
    · cases h
      exact ⟨hgrant, hstatus⟩
    · cases h
      refine ⟨?_, hstatus⟩
      rw [List.lookup_append]
      simp [hgrant]
  | recordFailure failed isPermanent fetchError failure =>
    cases h
    have hne : version ≠ failed := fun heq ↦ hfailed (congrArg some heq.symm)
    refine ⟨hgrant, ?_⟩
    rw [fetchStatus_update, hstatus, Option.map_some, if_neg hne]
  | recordFetched fetched inserted =>
    cases h
    refine ⟨hgrant, ?_⟩
    rw [fetchStatus_update, hstatus, Option.map_some, ite_self]
  | find _ | findStored _ | fetch _ | load _ | returned _ | threw _ => cases h

/-- What brings a version to be settled: a call that stores its grant or records it fetched. -/
theorem write_settles (h : stage.write code db = some (db', next))
    (hbefore : ¬ db.Settled version) (hafter : db'.Settled version) :
    stage.succeeded = some version := by
  obtain ⟨hgrant, hstatus⟩ := hafter
  cases stage with
  | save saved grant =>
    simp only [FetchStage.write] at h
    split at h
    · cases h
      exact absurd ⟨hgrant, hstatus⟩ hbefore
    · cases h
      rw [List.lookup_append, Option.isSome_or, Bool.or_eq_true] at hgrant
      rcases hgrant with hgrant | hgrant
      · exact absurd ⟨hgrant, hstatus⟩ hbefore
      · have heq : version = saved := by
          by_contra hne
          rw [List.lookup_cons, beq_eq_false_iff_ne.mpr hne] at hgrant
          cases hgrant
        exact congrArg some heq.symm
  | recordFailure failed isPermanent fetchError failure =>
    cases h
    refine absurd ⟨hgrant, ?_⟩ hbefore
    rw [fetchStatus_update] at hstatus
    obtain ⟨status, hstatus, heq⟩ := Option.map_eq_some_iff.mp hstatus
    rw [hstatus, ← heq]
    by_cases hsame : version = failed
    · rw [if_pos hsame] at heq
      cases isPermanent <;> cases heq
    · rw [if_neg hsame]
  | recordFetched fetched inserted =>
    cases h
    by_contra hne
    have hother : version ≠ fetched := fun heq ↦ hne (congrArg some heq.symm)
    refine hbefore ⟨hgrant, ?_⟩
    rw [fetchStatus_update] at hstatus
    simpa [hother] using hstatus
  | find _ | findStored _ | fetch _ | load _ | returned _ | threw _ => cases h

/-- A write of a call leaves no failure to record. -/
theorem write_failed (h : stage.write code db = some (db', next)) : next.failed = none := by
  cases stage with
  | save saved grant =>
    simp only [FetchStage.write] at h
    split at h <;> cases h <;> rfl
  | recordFailure failed isPermanent fetchError failure =>
    cases h
    rfl
  | recordFetched fetched inserted =>
    cases h
    cases inserted <;> rfl
  | find _ | findStored _ | fetch _ | load _ | returned _ | threw _ => cases h

theorem failed_afterLoad {a : PinnedApplication} {resolvedVersion : String} :
    (afterLoad code a resolvedVersion next).failed = next.failed := by
  have hpersist : (persistResolved a resolvedVersion : VersionTask G).failed = none := by
    unfold persistResolved
    split <;> rfl
  cases next with
  | returned grant => cases grant with
    | none => rfl
    | some grant => exact hpersist
  | find _ | findStored _ | fetch _ | save _ _ | recordFailure _ _ _ _ | recordFetched _ _
  | load _ | threw _ => rfl

end

/-! ### Every run -/

section
variable {G P T : Type} [DecidableEq T] [DecidableEq P] {code version : String}
  {process : T → P} {s s' : VersionSystem G P T} {l : T × VersionMove G}

/-- No failure of the version is still to record once it is settled. -/
def NoLateFailure (version : String) (s : VersionSystem G P T) : Prop :=
  s.db.Settled version → ∀ t, (s.tasks t).failed ≠ some version

omit [DecidableEq T] [DecidableEq P] in
/-- What a step of a task does to a version: it stays settled unless a failure of it is
recorded, it comes to be settled by a call that succeeds, which then has no failure to record. -/
theorem taskStep_settled {task task' : VersionTask G} {move : VersionMove G}
    {db : VersionStore G} (h : TaskStep code s task move db task') :
    (task.failed ≠ some version → s.db.Settled version → db.Settled version) ∧
      (¬ s.db.Settled version → db.Settled version →
        task.succeeded = some version ∧ task'.failed = none) := by
  have hsame : (task.failed ≠ some version → s.db.Settled version → s.db.Settled version) ∧
      (¬ s.db.Settled version → s.db.Settled version →
        task.succeeded = some version ∧ task'.failed = none) :=
    ⟨fun _ h ↦ h, fun hnot h ↦ absurd h hnot⟩
  have hstage : ∀ {stage next : FetchStage G}, task.stage = some stage →
      task'.failed = next.failed → stage.step code s.db s.visible move = some (db, next) →
      (task.failed ≠ some version → s.db.Settled version → db.Settled version) ∧
        (¬ s.db.Settled version → db.Settled version →
          task.succeeded = some version ∧ task'.failed = none) := by
    intro stage next htask hnext hstep
    rcases stage_step_cases hstep with rfl | hwrite
    · exact hsame
    · rw [VersionTask.failed, VersionTask.succeeded, htask, hnext, write_failed hwrite]
      exact ⟨write_settled hwrite, fun hbefore hafter ↦ ⟨write_settles hwrite hbefore hafter, rfl⟩⟩
  cases h with
  | publish =>
    refine ⟨fun _ ⟨hgrant, hstatus⟩ ↦ ⟨hgrant, ?_⟩, fun hbefore ⟨hgrant, hstatus⟩ ↦
      absurd ⟨hgrant, ?_⟩ hbefore⟩
    · rw [fetchStatus_upsert, hstatus, Option.some_or]
    · rw [fetchStatus_upsert, Option.or_eq_some_iff] at hstatus
      rcases hstatus with hstatus | ⟨_, hpending⟩
      · exact hstatus
      · split at hpending <;> cases hpending
  | call hstep => exact hstage rfl rfl hstep
  | load hstep => exact hstage rfl failed_afterLoad hstep
  | persist => exact hsame
  | readApplication _ | resolve _ | cached | throws => exact hsame

/-- One step keeps a version settled, and that no failure of it is to come. -/
theorem step_settled (hok : FailsFirst code process version s l) (hlate : NoLateFailure version s)
    (h : VersionSystem.step code process s l = some s') :
    (s.db.Settled version → s'.db.Settled version) ∧ NoLateFailure version s' := by
  obtain ⟨t, move⟩ := l
  obtain ⟨htask, hothers, _⟩ := step_cases h
  obtain ⟨hkeeps, hbrings⟩ := @taskStep_settled G P T code version s _ _ _ _ htask
  have hstays : s.db.Settled version → s'.db.Settled version := fun hsettled ↦
    hkeeps (hlate hsettled t) hsettled
  refine ⟨hstays, fun hsettled u ↦ ?_⟩
  by_cases hbefore : s.db.Settled version
  · by_cases hu : u = t
    · exact fun hfailed ↦ hok.1 s' h (hu ▸ hfailed) hbefore
    · rw [hothers u hu]
      exact hlate hbefore u
  · obtain ⟨hsucceeded, hfailed⟩ := hbrings hbefore hsettled
    by_cases hu : u = t
    · rw [hu, hfailed]
      simp
    · rw [hothers u hu]
      exact hok.2 hsucceeded u hu

/-- In every run of publishes, fetches and resolutions whose calls of a version fail before it
is settled: once its grant is stored and it is fetched, it stays so, and its status is never an
error again. -/
theorem fetched_kept (code version : String) (process : T → P) (requests : T → VersionRequest)
    {db : VersionStore G} {ls ls' : List (T × VersionMove G)}
    (h : Run (VersionSystem.step code process) (FailsFirst code process version)
      (VersionSystem.start db requests) ls s)
    (hsettled : s.db.Settled version)
    (h' : Run (VersionSystem.step code process) (FailsFirst code process version) s ls' s') :
    s'.db.Settled version ∧ s'.db.fetchStatus version ≠ some .transientError ∧
      s'.db.fetchStatus version ≠ some .permanentError := by
  have hlate : NoLateFailure version s := by
    apply h.invariant (NoLateFailure version)
    · intro _ t
      cases hrequest : requests t <;>
        simp [VersionSystem.start, hrequest, VersionRequest.task, VersionTask.failed,
          VersionTask.stage, FetchStage.failed]
    · exact fun s l s' hs hok hstep ↦ (step_settled hok hs hstep).2
  have hkept : s'.db.Settled version ∧ NoLateFailure version s' := by
    apply h'.invariant fun s' ↦ s'.db.Settled version ∧ NoLateFailure version s'
    · exact ⟨hsettled, hlate⟩
    · rintro s l s' ⟨hsettled, hlate⟩ hok hstep
      have hnext := step_settled hok hlate hstep
      exact ⟨hnext.1 hsettled, hnext.2⟩
  refine ⟨hkept.1, ?_, ?_⟩ <;> rw [hkept.1.2] <;> simp

end

/-- A version published and not fetched yet. -/
def pendingStore : VersionStore String where
  versions := [⟨"1.0.0", 1, 0, 0, by decide, .active, .pending, 0, none⟩]
  grants := []
  application := ⟨some "1.0.0", some "1.0.0"⟩

/-- Two calls for the version. -/
def twoFetches (_ : Bool) : VersionRequest := .resolveAndFetchGrant (some "1.0.0")

/-- Both calls find the version pending, and the first stores its grant and records it fetched. -/
def firstFetches : List (Bool × VersionMove String) :=
  [(false, .look 0), (true, .look 0), (false, .s3 (.ok (.ok "grant"))), (false, .go), (false, .go)]

/-- The second call loads the grant the first has stored. -/
theorem fetched_kept_conflict :
    ∃ s s', exec (guarded (VersionSystem.step "woodland" fun _ ↦ ())
          (FailsFirst "woodland" (fun _ ↦ ()) "1.0.0"))
        (VersionSystem.start pendingStore twoFetches) firstFetches = some s ∧
      exec (guarded (VersionSystem.step "woodland" fun _ ↦ ())
          (FailsFirst "woodland" (fun _ ↦ ()) "1.0.0"))
        s [(true, .s3 (.ok (.ok "grant"))), (true, .go), (true, .go), (true, .look 0)] = some s' ∧
      s'.db.Settled "1.0.0" := by
  have hexec : ((exec (guarded (VersionSystem.step "woodland" fun _ ↦ ())
      (FailsFirst "woodland" (fun _ ↦ ()) "1.0.0"))
      (VersionSystem.start pendingStore twoFetches) firstFetches).any fun s ↦
        decide (s.db.Settled "1.0.0") && (exec (guarded (VersionSystem.step "woodland" fun _ ↦ ())
          (FailsFirst "woodland" (fun _ ↦ ()) "1.0.0"))
          s [(true, .s3 (.ok (.ok "grant"))), (true, .go), (true, .go),
            (true, .look 0)]).isSome) = true := by
    decide +kernel
  obtain ⟨s, hs, hrest⟩ := (Option.any_eq_true ..).mp hexec
  obtain ⟨hsettled, hsome⟩ := Bool.and_eq_true_iff.mp hrest
  obtain ⟨s', hs'⟩ := Option.isSome_iff_exists.mp hsome
  exact ⟨s, s', hs, hs', (fetched_kept "woodland" "1.0.0" (fun _ ↦ ()) twoFetches
    (Run.of_exec_guarded hs) (of_decide_eq_true hsettled) (Run.of_exec_guarded hs')).1⟩

/-- The second call gets an error from S3 once the first has recorded the version fetched, and
records it over that. -/
theorem fetched_lost :
    ∃ (ls ls' : List (Bool × VersionMove String)) (s s' : VersionSystem String Unit Bool),
      Run (VersionSystem.step "woodland" fun _ ↦ ()) anyStep
        (VersionSystem.start pendingStore twoFetches) ls s ∧
      s.db.Settled "1.0.0" ∧
      Run (VersionSystem.step "woodland" fun _ ↦ ()) anyStep s ls' s' ∧
      s'.db.fetchStatus "1.0.0" = some .transientError := by
  have hexec : ((exec (VersionSystem.step "woodland" fun _ ↦ ())
      (VersionSystem.start pendingStore twoFetches) firstFetches).any fun s ↦
        decide (s.db.Settled "1.0.0") && (exec (VersionSystem.step "woodland" fun _ ↦ ()) s
          [(true, .s3 (.error (.s3Fetch 500 false "slow down"))), (true, .go)]).any fun s' ↦
            s'.db.fetchStatus "1.0.0" = some .transientError) = true := by
    decide +kernel
  obtain ⟨s, hs, hrest⟩ := (Option.any_eq_true ..).mp hexec
  obtain ⟨hsettled, hsome⟩ := Bool.and_eq_true_iff.mp hrest
  obtain ⟨s', hs', hstatus⟩ := (Option.any_eq_true ..).mp hsome
  exact ⟨_, _, s, s', Run.of_exec hs, of_decide_eq_true hsettled, Run.of_exec hs',
    of_decide_eq_true hstatus⟩

end FgGas.Grants
