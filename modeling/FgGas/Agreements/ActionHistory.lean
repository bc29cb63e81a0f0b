import Mathlib.Data.List.Nodup
import Mathlib.Data.List.Pairwise
import FgGas.Agreements.Action

/-!
# The history of an agreement

The versions of an agreement follow one another by 1, the current agreement is the last
snapshot, and a version's idempotency key is its own. A commit on the current agreement
under a new key keeps this, and the lookup of a key tells what it was committed for.
-/

namespace FgGas.Agreements

open Machine Store

variable {V : Type}

/-- What every committed state of the agreement satisfies. -/
structure History (s : ActionStore V) : Prop where
  numbers : s.versions.map (·.version) = List.range' 1 s.current.version
  last : ∃ v, s.versions.getLast? = some v ∧ v.snapshot = s.current
  keys : (s.versions.filterMap (·.idempotencyKey)).Nodup
  owner : ∀ v ∈ s.versions, v.agreementNumber = s.current.agreementNumber
  executed : ∀ v ∈ s.versions, v.version ≠ 1 → ∃ x, v.actionExecution = some x

/-- A version committed under the key, for the action. -/
def CommittedFor (s : ActionStore V) (actionName idempotencyKey : String) : Prop :=
  ∃ v ∈ s.versions, v.actionExecution = some ⟨actionName, idempotencyKey⟩

/-- The state after the commit of an action: one version, its publications, one audit
event. -/
def ActionStore.commit (s : ActionStore V) (o : CommitOptions V) (paymentRequested : Bool) :
    ActionStore V where
  current := o.next
  versions := s.versions ++ [o.version]
  outbox := s.outbox ++ createActionPublications o.current o.next paymentRequested
  audits := s.audits ++ [buildAgreementActionAudit o.actionName o.current o.next]

/-- The change commits an action executed on the current agreement. -/
def Commits (actionName idempotencyKey : String) (before after : ActionStore V) : Prop :=
  ∃ (next : Agreement V) (commitOperations : List CommitOperation) (paymentRequested : Bool),
    next.version = before.current.version + 1 ∧
    next.agreementNumber = before.current.agreementNumber ∧
    after = before.commit ⟨actionName, before.current, idempotencyKey, next, commitOperations⟩
      paymentRequested

/-- The change records a failed attempt. -/
def RecordsFailure (before after : ActionStore V) : Prop :=
  ∃ audit : AgreementAudit, audit.status = .failure ∧
    after = { before with audits := before.audits ++ [audit] }

/-- The agreement has stood in the store, at its version. -/
def Known (a : Agreement V) (s : ActionStore V) : Prop :=
  a.agreementNumber = s.current.agreementNumber ∧
    ∃ v ∈ s.versions, v.version = a.version ∧ v.snapshot = a

/-- The actions keep the history and add to it; who leaves the current document alone
leaves the versions alone. -/
def actionRely : Rely ActionKey (ActionStore V) where
  inv := History
  le s s' := s.versions <+: s'.versions ∧ s.current.agreementNumber = s'.current.agreementNumber
  agree key s s' := key = .agreement → s.current = s'.current ∧ s.versions = s'.versions
  le_refl _ := ⟨List.prefix_rfl, rfl⟩
  le_trans h h' := ⟨h.1.trans h'.1, h.2.trans h'.2⟩
  agree_refl _ _ _ := ⟨rfl, rfl⟩
  agree_trans h h' hk := ⟨(h hk).1.trans (h' hk).1, (h hk).2.trans (h' hk).2⟩

/-! ### The history -/

theorem History.length {s : ActionStore V} (h : History s) :
    s.versions.length = s.current.version := by
  have hlen := congrArg List.length h.numbers
  simpa using hlen

/-- The last version is the current one. -/
theorem History.last_version {s : ActionStore V} (h : History s) :
    ∃ v ∈ s.versions, v.version = s.current.version ∧ v.snapshot = s.current := by
  obtain ⟨v, hv, hsnap⟩ := h.last
  refine ⟨v, List.mem_of_getLast? hv, ?_, hsnap⟩
  have hlast := congrArg List.getLast? h.numbers
  rw [List.getLast?_map, hv, Option.map_some, List.getLast?_range'] at hlast
  split at hlast
  · cases hlast
  · have := Option.some.inj hlast
    omega

/-- A version number belongs to one version. -/
theorem History.version_unique {s : ActionStore V} (h : History s) {v w : AgreementVersion V}
    (hv : v ∈ s.versions) (hw : w ∈ s.versions) (he : v.version = w.version) : v = w := by
  have hnodup : (s.versions.map (·.version)).Nodup := by
    rw [h.numbers]
    exact List.nodup_range' ..
  exact List.inj_on_of_nodup_map hnodup hv hw he

/-- A key belongs to one version. -/
theorem History.key_unique {s : ActionStore V} (h : History s) {v w : AgreementVersion V}
    {key : String} (hv : v ∈ s.versions) (hw : w ∈ s.versions) (hvk : v.idempotencyKey = some key)
    (hwk : w.idempotencyKey = some key) : v = w := by
  let same (v w : AgreementVersion V) : Prop :=
    v.idempotencyKey = some key → w.idempotencyKey = some key → v = w
  have hsymm : Std.Symm same := ⟨fun _ _ h hwk hvk ↦ (h hvk hwk).symm⟩
  have hpairwise : s.versions.Pairwise same :=
    (List.pairwise_filterMap.mp h.keys).imp fun hne hvk hwk ↦ absurd rfl (hne key hvk key hwk)
  exact hpairwise.forall_of_forall (fun _ _ _ _ ↦ rfl) hv hw hvk hwk

/-- The number of a version is between 1 and the current one. -/
theorem History.mem_range {s : ActionStore V} (h : History s) {n : Nat} :
    (∃ v ∈ s.versions, v.version = n) ↔ 1 ≤ n ∧ n ≤ s.current.version := by
  rw [← List.mem_map, h.numbers, List.mem_range'_1]
  omega

theorem History.current_known {s : ActionStore V} (h : History s) : Known s.current s := by
  obtain ⟨v, hv, hversion, hsnap⟩ := h.last_version
  exact ⟨rfl, v, hv, hversion, hsnap⟩

theorem Known.later {a : Agreement V} {s s' : ActionStore V} (h : Known a s)
    (hle : actionRely.le s s') : Known a s' := by
  obtain ⟨hnumber, v, hv, hrest⟩ := h
  exact ⟨hnumber.trans hle.2, v, hle.1.subset hv, hrest⟩

/-- Of the agreements known, only the current one has the current version. -/
theorem Known.eq_current {a : Agreement V} {s : ActionStore V} (h : Known a s) (hs : History s)
    (hversion : s.current.version = a.version) : a = s.current := by
  obtain ⟨_, v, hv, hva, hsnap⟩ := h
  obtain ⟨w, hw, hwc, hwsnap⟩ := hs.last_version
  obtain rfl := hs.version_unique hv hw (by rw [hva, hwc, hversion])
  rw [← hsnap, hwsnap]

/-- An agreement superseded by another version has a successor. -/
theorem Known.successor {a : Agreement V} {s : ActionStore V} (h : Known a s) (hs : History s)
    (hversion : s.current.version ≠ a.version) :
    ∃ w ∈ s.versions, w.version = a.version + 1 ∧ ∃ x, w.actionExecution = some x := by
  obtain ⟨_, v, hv, hva, _⟩ := h
  obtain ⟨hpos, hle⟩ := hs.mem_range.mp ⟨v, hv, hva⟩
  obtain ⟨w, hw, hwv⟩ :=
    hs.mem_range.mpr ⟨Nat.le_add_left 1 a.version, show a.version + 1 ≤ _ by omega⟩
  exact ⟨w, hw, hwv, hs.executed w hw (by omega)⟩

/-- Committing an action executed on the current agreement, under a new key, keeps the
history. -/
theorem History.commit {s : ActionStore V} (h : History s) {o : CommitOptions V}
    {paymentRequested : Bool} (hcurrent : o.current = s.current)
    (hversion : o.next.version = o.current.version + 1)
    (hnumber : o.next.agreementNumber = o.current.agreementNumber)
    (hkey : ∀ v ∈ s.versions, v.idempotencyKey ≠ some o.idempotencyKey) :
    History (s.commit o paymentRequested) := by
  refine ⟨?_, ⟨o.version, List.getLast?_concat, rfl⟩, ?_, ?_, ?_⟩
  · show (s.versions ++ [o.version]).map (·.version) = List.range' 1 o.next.version
    rw [List.map_append, h.numbers, hversion, hcurrent, List.range'_1_concat]
    simp only [CommitOptions.version, List.map_cons, List.map_nil, hversion, hcurrent,
      Nat.add_comm]
  · show ((s.versions ++ [o.version]).filterMap (·.idempotencyKey)).Nodup
    rw [List.filterMap_append]
    refine List.nodup_append.mpr ⟨h.keys, List.nodup_singleton o.idempotencyKey, ?_⟩
    intro key hmem key' hmem'
    obtain ⟨v, hv, hk⟩ := List.mem_filterMap.mp hmem
    rintro rfl
    have hkey' : key = o.idempotencyKey := by
      simpa [CommitOptions.version, AgreementVersion.idempotencyKey] using hmem'
    exact hkey v hv (hkey' ▸ hk)
  · intro v hv
    rcases List.mem_append.mp hv with hv | hv
    · exact (h.owner v hv).trans (by rw [← hcurrent, ← hnumber]; rfl)
    · rw [List.mem_singleton.mp hv]
      exact hnumber.symm
  · intro v hv hne
    rcases List.mem_append.mp hv with hv | hv
    · exact h.executed v hv hne
    · rw [List.mem_singleton.mp hv]
      exact ⟨_, rfl⟩

/-! ### The lookups -/

theorem findVersion_eq_some {agreementNumber key : String} {s : ActionStore V}
    {v : AgreementVersion V} {x : ActionExecution}
    (h : findVersionByIdempotencyKey agreementNumber key s = some (v, x)) :
    v ∈ s.versions ∧ v.actionExecution = some x ∧ x.idempotencyKey = key := by
  obtain ⟨w, hw, hf⟩ := List.exists_of_findSome?_eq_some h
  split at hf
  · obtain ⟨y, hy, he⟩ := Option.map_eq_some_iff.mp hf
    obtain ⟨rfl, rfl⟩ := Prod.mk.inj he
    obtain ⟨hx, hk⟩ := Option.filter_eq_some_iff.mp hy
    exact ⟨hw, hx, of_decide_eq_true hk⟩
  · cases hf

theorem findVersion_eq_none {key : String} {s : ActionStore V} (hs : History s)
    (h : findVersionByIdempotencyKey s.current.agreementNumber key s = none) :
    ∀ v ∈ s.versions, v.idempotencyKey ≠ some key := by
  intro v hv he
  have hf := List.findSome?_eq_none_iff.mp h v hv
  obtain ⟨x, hx, hk⟩ := Option.map_eq_some_iff.mp he
  simp [hs.owner v hv, hx, Option.filter, hk] at hf

/-- What `findCompleted` says of the key. -/
theorem findCompleted_cases (actionName key : String) {s : ActionStore V} (hs : History s) :
    (findCompleted s.current.agreementNumber actionName key s = .ok true ∧
      CommittedFor s actionName key) ∨
    (findCompleted s.current.agreementNumber actionName key s = .ok false ∧
      ∀ v ∈ s.versions, v.idempotencyKey ≠ some key) ∨
    (findCompleted s.current.agreementNumber actionName key s = .error .conflict ∧
      ∃ name, name ≠ actionName ∧ CommittedFor s name key) := by
  unfold findCompleted
  cases hfind : findVersionByIdempotencyKey s.current.agreementNumber key s with
  | none => exact .inr (.inl ⟨rfl, findVersion_eq_none hs hfind⟩)
  | some found =>
    obtain ⟨v, x⟩ := found
    obtain ⟨hv, hx, hk⟩ := findVersion_eq_some hfind
    have hcommitted : CommittedFor s x.name key := ⟨v, hv, by rw [hx, ← hk]⟩
    by_cases hname : x.name = actionName
    · exact .inl ⟨by simp [hname], hname ▸ hcommitted⟩
    · exact .inr (.inr ⟨by simp [hname], x.name, hname, hcommitted⟩)

end FgGas.Agreements
