import FgGas.Grants.ConfigVersion
import Mathlib.Data.Fintype.Basic

/-!
# Applications rolled forward

A resolution writes the version it found, whatever the application is on by then, and what it
finds is the latest version that is selectable just then. The application moves forward within
its major where each lookup finds a version not before the one it is on, and no resolution writes
a version later than what another in flight is still to write.
-/

namespace FgGas.Grants

open Machine Agreements

/-- A version is of the major of another, and not before it. -/
def NotBefore (version later : String) : Prop :=
  match parseSemver version, parseSemver later with
  | some (major, minor, patch), some (major', minor', patch') =>
      major = major' ∧ toLex (minor, patch) ≤ toLex (minor', patch')
  | _, _ => version = later

instance (version later : String) : Decidable (NotBefore version later) := by
  unfold NotBefore
  split <;> infer_instance

theorem NotBefore.refl (version : String) : NotBefore version version := by
  unfold NotBefore
  cases parseSemver version with
  | none => rfl
  | some parsed => exact ⟨rfl, le_rfl⟩

theorem NotBefore.trans {a b c : String} (hab : NotBefore a b) (hbc : NotBefore b c) :
    NotBefore a c := by
  unfold NotBefore at *
  cases ha : parseSemver a with
  | none =>
    rw [ha] at hab
    obtain rfl : a = b := hab
    rw [ha] at hbc
    exact hbc
  | some pa =>
    cases hb : parseSemver b with
    | none =>
      rw [ha, hb] at hab
      obtain rfl : a = b := hab
      rw [ha] at hb
      cases hb
    | some pb =>
      cases hc : parseSemver c with
      | none =>
        rw [hb, hc] at hbc
        obtain rfl : b = c := hbc
        rw [hb] at hc
        cases hc
      | some pc =>
        rw [ha, hb] at hab
        rw [hb, hc] at hbc
        exact ⟨hab.1.trans hbc.1, hab.2.trans hbc.2⟩

/-- The major of the version an application is pinned to. -/
def PinnedApplication.major (a : PinnedApplication) : Option Nat :=
  (a.pinnedVersion.bind parseSemver).map Prod.fst

section
variable {G : Type}

/-- The version a resolution has found and is to write, if its call comes to a grant. -/
def VersionTask.toPersist : VersionTask G → Option String
  | .loadDefinition a resolvedVersion _ =>
      if resolvedVersion ≠ "" ∧ some resolvedVersion ≠ a.currentConfigVersion then
        some resolvedVersion
      else none
  | .persist resolvedVersion => some resolvedVersion
  | _ => none

end

section
variable {G P T : Type}

/-- Resolutions keep step with the application: a lookup sees the version it is on selectable, or
a later one of the major, and a version is written that no other resolution has found an earlier
one than. -/
def KeepsStep (s : VersionSystem G P T) : T × VersionMove G → Prop
  | (t, .look i) =>
      match s.tasks t with
      | .resolve _ => ∀ seen ∈ s.visible i,
          ∀ current ∈ s.db.application.currentConfigVersion,
            ∃ v ∈ seen.versions, v.selectable v.major = true ∧ NotBefore current v.version
      | _ => True
  | (t, .go) =>
      match s.tasks t with
      | .persist version => ∀ u, u ≠ t → ∀ found ∈ (s.tasks u).toPersist, NotBefore version found
      | _ => True
  | _ => True

instance [Fintype T] [DecidableEq T] (s : VersionSystem G P T) (l : T × VersionMove G) :
    Decidable (KeepsStep s l) := by
  unfold KeepsStep
  split
  · split <;> infer_instance
  · split <;> infer_instance
  · infer_instance

end

/-! ### What a resolution finds -/

section
variable {versions : List ConfigVersion} {major : Nat} {v w : ConfigVersion}

theorem selectable_eq_true : v.selectable major = true ↔
    v.major = major ∧ v.status = .active ∧ v.fetchStatus ≠ .permanentError := by
  simp [ConfigVersion.selectable, and_assoc]

/-- The version found is of the major, and not before any other that is selectable. -/
theorem findLatestForMajor_notBefore (h : findLatestForMajor versions major = some v) :
    v.major = major ∧
      ∀ w ∈ versions, w.selectable major = true → NotBefore w.version v.version := by
  have hmax : v ∈ List.argmax (fun v : ConfigVersion ↦ toLex (v.minor, v.patch))
      (versions.filter (·.selectable major)) := h
  have hmem := List.argmax_mem hmax
  have hmajor := (selectable_eq_true.mp (List.mem_filter.mp hmem).2).1
  refine ⟨hmajor, fun w hw hselectable ↦ ?_⟩
  have hle := List.le_of_mem_argmax (List.mem_filter.mpr ⟨hw, hselectable⟩) hmax
  unfold NotBefore
  rw [w.parsed, v.parsed]
  exact ⟨(selectable_eq_true.mp hselectable).1.trans hmajor.symm, hle⟩

end

section
variable {G : Type} {code version : String} {a : PinnedApplication} {seen : VersionStore G}

/-- A resolution that goes on has found the latest version of the major it is pinned to. -/
theorem resolveCurrentGrant_toPersist
    (h : (resolveCurrentGrant code a seen).toPersist = some version) :
    ∃ major v, a.major = some major ∧ findLatestForMajor seen.versions major = some v ∧
      version = v.version := by
  unfold resolveCurrentGrant at h
  split at h
  · cases h
  · next pinnedVersion hpinned =>
    split at h
    · cases h
    · next major rest hparsed =>
      split at h
      · cases h
      · next v hv =>
        refine ⟨major, v, ?_, hv, ?_⟩
        · have hsome := (Option.filter_eq_some_iff.mp hpinned).1
          rw [PinnedApplication.major, hsome, Option.bind_some, hparsed]
          rfl
        · simp only [VersionTask.toPersist] at h
          split at h
          · exact (Option.some.inj h).symm
          · cases h

theorem persistResolved_toPersist {stage : FetchStage G} :
    (persistResolved a version : VersionTask G).toPersist =
      (VersionTask.loadDefinition a version stage).toPersist := by
  unfold persistResolved
  conv_rhs => rw [VersionTask.toPersist]
  by_cases h : version ≠ "" ∧ some version ≠ a.currentConfigVersion
  · rw [if_pos h, if_pos h]
    rfl
  · rw [if_neg h, if_neg h]
    rfl

/-- A resolution whose call goes on is still to write what it was, if anything. -/
theorem afterLoad_toPersist {stage next : FetchStage G} {found : String}
    (h : (afterLoad code a version next).toPersist = some found) :
    (VersionTask.loadDefinition a version stage).toPersist = some found := by
  cases next with
  | returned grant => cases grant with
    | none => cases h
    | some grant => exact persistResolved_toPersist.symm.trans h
  | threw error => cases h
  | find _ | findStored _ | fetch _ | save _ _ | recordFailure _ _ _ _ | recordFetched _ _
  | load _ => exact h

variable {db db' : VersionStore G} {stage next : FetchStage G}
  {visible : Nat → Option (VersionStore G)} {move : VersionMove G}

/-- A call leaves the application as it is. -/
theorem stage_step_application (h : stage.step code db visible move = some (db', next)) :
    db'.application = db.application := by
  rcases stage_step_cases h with rfl | hwrite
  · rfl
  · cases stage with
    | save saved grant =>
      simp only [FetchStage.write] at hwrite
      split at hwrite <;> cases hwrite <;> rfl
    | recordFailure _ _ _ _ | recordFetched _ _ =>
      cases hwrite
      rfl
    | find _ | findStored _ | fetch _ | load _ | returned _ | threw _ => cases hwrite

end

/-! ### Every run -/

section
variable {G P T : Type} {code : String} {s : VersionSystem G P T}

theorem mem_of_visible {i : Nat} {seen : VersionStore G} (h : s.visible i = some seen) :
    seen ∈ s.db :: s.past := List.mem_of_getElem? h

/-- Every state so far and every resolution is of the same major, and no version is still to be
written that the application has moved past. -/
structure InStep (major : Option Nat) (s : VersionSystem G P T) : Prop where
  seen : ∀ seen ∈ s.db :: s.past, seen.application.major = major
  pinned : ∀ t a, s.tasks t = .resolve a → a.major = major
  found : ∀ t version, (s.tasks t).toPersist = some version →
    (parseSemver version).map Prod.fst = major ∧
      ∀ current ∈ s.db.application.currentConfigVersion, NotBefore current version

/-- A step leaves the application as it is, or is the write of a resolution. -/
theorem taskStep_application {move : VersionMove G} {db : VersionStore G}
    {task task' : VersionTask G} (h : TaskStep code s task move db task') :
    db.application = s.db.application ∨ ∃ version, task = .persist version ∧ move = .go ∧
      db.application = { s.db.application with currentConfigVersion := some version } ∧
      task'.toPersist = none := by
  cases h with
  | publish | throws | cached | readApplication _ | resolve _ => exact .inl rfl
  | call hstep | load hstep => exact .inl (stage_step_application hstep)
  | @persist version => exact .inr ⟨version, rfl, rfl, rfl, rfl⟩

/-- A resolution is pinned to what it has read of the application. -/
theorem taskStep_pinned {move : VersionMove G} {db : VersionStore G} {task : VersionTask G}
    {a : PinnedApplication} (h : TaskStep code s task move db (.resolve a)) :
    ∃ seen ∈ s.db :: s.past, a = seen.application := by
  generalize hafter : VersionTask.resolve a = after at h
  cases h with
  | publish | persist | throws | call _ => cases hafter
  | @readApplication i seen hseen =>
    cases hafter
    exact ⟨seen, mem_of_visible hseen, rfl⟩
  | resolve _ =>
    unfold resolveCurrentGrant at hafter
    repeat' split at hafter
    all_goals cases hafter
  | cached =>
    unfold persistResolved at hafter
    split at hafter <;> cases hafter
  | @load _ _ _ next =>
    unfold afterLoad persistResolved at hafter
    repeat' split at hafter
    all_goals cases hafter

/-- What a step of a task leaves to write: what it had, or what its lookup has found. -/
theorem taskStep_found {major : Option Nat} {t : T} {move : VersionMove G} {db : VersionStore G}
    {task : VersionTask G} {version : String} (hs : InStep major s) (hok : KeepsStep s (t, move))
    (h : TaskStep code s (s.tasks t) move db task) (hfound : task.toPersist = some version) :
    db.application = s.db.application ∧ (parseSemver version).map Prod.fst = major ∧
      ∀ current ∈ s.db.application.currentConfigVersion, NotBefore current version := by
  generalize htask : s.tasks t = before at h
  have hkept : before.toPersist = some version →
      (parseSemver version).map Prod.fst = major ∧
        ∀ current ∈ s.db.application.currentConfigVersion, NotBefore current version :=
    fun hbefore ↦ hs.found t version (htask ▸ hbefore)
  cases h with
  | publish | persist | throws | call _ | readApplication _ => cases hfound
  | cached => exact ⟨rfl, hkept (persistResolved_toPersist.symm.trans hfound)⟩
  | load hstep => exact ⟨stage_step_application hstep, hkept (afterLoad_toPersist hfound)⟩
  | @resolve a i seen hseen =>
    obtain ⟨pinnedMajor, v, hmajor, hv, rfl⟩ := resolveCurrentGrant_toPersist hfound
    obtain ⟨hvmajor, hlatest⟩ := findLatestForMajor_notBefore hv
    have hpinned : some pinnedMajor = major := hmajor.symm.trans (hs.pinned t a htask)
    refine ⟨rfl, ?_, fun current hcurrent ↦ ?_⟩
    · rw [v.parsed, Option.map_some, hvmajor, hpinned]
    · -- the lookup has seen a version not before the one the application is on
      simp only [KeepsStep, htask] at hok
      obtain ⟨w, hw, hselectable, hnotBefore⟩ := hok seen hseen current hcurrent
      have hwmajor : w.major = pinnedMajor := by
        have happlication : s.db.application.major = major := hs.seen _ List.mem_cons_self
        rw [PinnedApplication.major, PinnedApplication.pinnedVersion, hcurrent, Option.some_or,
          Option.bind_some, ← hpinned] at happlication
        obtain ⟨parsed, hparsed, hfst⟩ := Option.map_eq_some_iff.mp happlication
        unfold NotBefore at hnotBefore
        rw [hparsed, w.parsed] at hnotBefore
        exact hnotBefore.1.symm.trans hfst
      exact hnotBefore.trans (hlatest w hw (hwmajor ▸ hselectable))

end

section
variable {G P T : Type} [DecidableEq T] [DecidableEq P] {code : String} {process : T → P}
  {s s' : VersionSystem G P T} {l : T × VersionMove G} {major : Option Nat}

/-- The application has moved forward within its major, if at all. -/
def Forward (before after : VersionStore G) : Prop :=
  ∀ version ∈ before.application.currentConfigVersion,
    ∃ later ∈ after.application.currentConfigVersion, NotBefore version later

theorem Forward.refl (db : VersionStore G) : Forward db db := fun version h ↦
  ⟨version, h, .refl version⟩

theorem Forward.trans {a b c : VersionStore G} (hab : Forward a b) (hbc : Forward b c) :
    Forward a c := by
  intro version hversion
  obtain ⟨later, hlater, hle⟩ := hab version hversion
  obtain ⟨last, hlast, hle'⟩ := hbc later hlater
  exact ⟨last, hlast, hle.trans hle'⟩

theorem forward_of_eq {before after : VersionStore G}
    (h : after.application = before.application) : Forward before after := by
  unfold Forward
  rw [h]
  exact fun version hversion ↦ ⟨version, hversion, .refl version⟩

/-- One step moves the application forward, and keeps the resolutions in step with it. -/
theorem step_inStep (hs : InStep major s) (hok : KeepsStep s l)
    (h : VersionSystem.step code process s l = some s') :
    Forward s.db s'.db ∧ InStep major s' := by
  obtain ⟨t, move⟩ := l
  obtain ⟨htask, hothers, hpast⟩ := step_cases h
  have hpinned : ∀ u a, s'.tasks u = .resolve a → a.major = major := by
    intro u a hu
    by_cases heq : u = t
    · subst heq
      rw [hu] at htask
      obtain ⟨seen, hseen, rfl⟩ := taskStep_pinned htask
      exact hs.seen seen hseen
    · exact hs.pinned u a (hothers u heq ▸ hu)
  have hseen : s'.db.application.major = major →
      ∀ seen ∈ s'.db :: s'.past, seen.application.major = major := by
    intro hdb seen hmem
    rcases List.mem_cons.mp hmem with rfl | hmem
    · exact hdb
    · exact hs.seen seen (hpast ▸ hmem)
  rcases taskStep_application htask with
    hsame | ⟨version, hpersist, rfl, happlication, hended⟩
  · refine ⟨forward_of_eq hsame, hseen (by rw [hsame]; exact hs.seen _ List.mem_cons_self),
      hpinned, fun u version hversion ↦ ?_⟩
    rw [hsame]
    by_cases heq : u = t
    · exact (taskStep_found hs hok htask (heq ▸ hversion)).2
    · exact hs.found u version (hothers u heq ▸ hversion)
  · obtain ⟨hmajor, hnotBefore⟩ := hs.found t version (by rw [hpersist]; rfl)
    have hother : ∀ u, u ≠ t → ∀ found ∈ (s.tasks u).toPersist, NotBefore version found := by
      simpa only [KeepsStep, hpersist] using hok
    refine ⟨fun current hcurrent ↦ ⟨version, ?_, hnotBefore current hcurrent⟩,
      hseen ?_, hpinned, fun u found hu ↦ ?_⟩
    · rw [happlication]
      rfl
    · rw [happlication]
      exact hmajor
    · by_cases heq : u = t
      · rw [heq, hended] at hu
        cases hu
      · rw [hothers u heq] at hu
        refine ⟨(hs.found u found hu).1, fun current hcurrent ↦ ?_⟩
        rw [happlication] at hcurrent
        obtain rfl := Option.some.inj hcurrent
        exact hother u heq found hu

end

theorem parseSemver_first : Agreements.parseSemver "1.0.0" = some (1, 0, 0) := by decide

/-- An application on the first of two versions, both fetched. -/
def twoVersions : VersionStore String where
  versions := [⟨"1.0.0", 1, 0, 0, parseSemver_first, .active, .fetched, 0, none⟩,
    ⟨"1.1.0", 1, 1, 0, by decide, .active, .fetched, 0, none⟩]
  grants := [("1.0.0", "first"), ("1.1.0", "second")]
  application := ⟨some "1.0.0", some "1.0.0"⟩

/-- Two resolutions of the application, and a publish of a third version. -/
def resolutionsAndPublish : Fin 3 → VersionRequest
  | 0 => .resolveGrantForApplication
  | 1 => .publish ⟨"1.2.0", 1, 2, 0, by decide, .active⟩
  | 2 => .resolveGrantForApplication

/-- A resolution that finds the second version stored, up to its write. -/
def resolvesSecond (t : Fin 3) : List (Fin 3 × VersionMove String) :=
  [(t, .look 0), (t, .look 0), (t, .look 0), (t, .look 0)]

/-- A resolution that fetches the third version, and its write. -/
def resolvesThird (t : Fin 3) : List (Fin 3 × VersionMove String) :=
  [(t, .look 0), (t, .look 0), (t, .look 0), (t, .s3 (.ok (.ok "third"))), (t, .go), (t, .go),
    (t, .go)]

end FgGas.Grants
