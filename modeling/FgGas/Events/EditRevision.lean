import FgGas.Events.Copies

/-!
# Edits of a stored payload

The operators' edit of one row (`editGasEvent` of
`src/grant-admin/use-cases/edit-payload.use-case.js`, over `src/events/event-edit.js`) beside
everything else that happens to the row. The use case reads the row, decides, and writes
through the revision fence; the read and the write are separate steps here, so nothing rests
on the transaction around them. What a payload may be (`assertStorable`, `payloadChanges`) is
a parameter: it decides whether an edit is made, and nothing about the row.
-/

namespace FgGas.Events

open Machine

variable {P : Type}

/-- `EDIT_REFUSAL_REASONS`. -/
inductive RefusalReason
  | tooLarge
  | unchanged
  | notAnObject
  | dollarKey
  deriving DecidableEq, Repr

/-- What the use case asks of a payload: `assertStorable`, and the `changedPaths` of
`payloadChanges`. -/
structure PayloadChecks (P : Type) where
  assertStorable : P → Option RefusalReason
  changedPaths : P → P → List String

/-- What the operator is told: `editConflict`, `staleEdit` or `editRefusal`. -/
inductive EditRefusal
  | conflict (status : Status)
  | stale
  | refused (reason : RefusalReason)
  deriving DecidableEq, Repr

/-- An edit as the operator submits it. -/
structure EditParams (P : Type) where
  actor : Option String
  payload : P
  note : String
  revision : Nat
  deriving DecidableEq, Repr

/-- `isEditable`. -/
def isEditable (stored : Row P) (revision : Nat) : Bool :=
  redrivable stored.status && payloadRevisionOf stored = revision

/-- `refusalFor` a row that is stored. -/
def refusalFor (status : Status) : EditRefusal :=
  if redrivable status then .stale else .conflict status

/-- `findEditable`. -/
def findEditable (stored : Row P) (revision : Nat) : Except EditRefusal (Row P) :=
  if isEditable stored revision then .ok stored else .error (refusalFor stored.status)

/-- `changesTo`. -/
def changesTo (checks : PayloadChecks P) (stored : Row P) (payload : P) :
    Except EditRefusal (List String) :=
  match checks.assertStorable payload with
  | some reason => .error (.refused reason)
  | none =>
      match checks.changedPaths stored.event payload with
      | [] => .error (.refused .unchanged)
      | changedPaths => .ok changedPaths

/-- The original to keep: given while the row has no `lastEdit`. -/
def originalToKeep (stored : Row P) : Option P :=
  match stored.lastEdit with
  | none => some stored.event
  | some _ => none

/-- `editGasEvent` up to its write: what it hands to `editPayloadById`. -/
def editGasEvent (checks : PayloadChecks P) (params : EditParams P) (row : Row P) :
    Except EditRefusal (Edit P) := do
  let stored ← findEditable row params.revision
  let _ ← changesTo checks stored params.payload
  pure
    { revision := params.revision
      event := params.payload
      original := originalToKeep stored
      operator := params.actor
      note := params.note }

/-- A row, all at work on it, and the edits that have read it and not yet written. -/
structure EditedLife (P : Type) where
  life : Life P
  reads : List (Edit P)
  deriving DecidableEq, Repr

/-- A step of anyone but an editor, or an editor's read or fenced write. -/
inductive EditLabel (P : Type)
  | row (l : Label P)
  | read (params : EditParams P)
  | write (i now : Nat)
  deriving DecidableEq, Repr

/-- The edits are `read` and `write`. -/
def Label.isEdit : Label P → Bool
  | .edit .. => true
  | _ => false

/-- The token of a claim. -/
def EditLabel.token : EditLabel P → Option Token
  | .row l => l.token
  | _ => none

/-- One step; a refused edit leaves everything as it was. -/
def editStep (checks : PayloadChecks P) (box : Box) (cfg : Config) (s : EditedLife P) :
    EditLabel P → Option (EditedLife P)
  | .row l =>
      if l.isEdit then none
      else (step box cfg s.life l).map fun life ↦ { s with life := life }
  | .read params =>
      match editGasEvent checks params s.life.row with
      | .ok edit => some { s with reads := edit :: s.reads }
      | .error _ => some s
  | .write i now =>
      s.reads[i]?.map fun edit ↦
        { life := { s.life with
            row := (editPayloadById edit now s.life.row).getD s.life.row }
          reads := s.reads.eraseIdx i }

/-- The edit a step writes to the row, if it does. -/
def accepted (s : EditedLife P) : EditLabel P → Option (Edit P)
  | .write i now =>
      s.reads[i]?.filter fun edit ↦ (editPayloadById edit now s.life.row).isSome
  | _ => none

/-- A redrive or a purge. -/
def Label.resetsEdits : Label P → Bool
  | .redrive .. => true
  | .purge .. => true
  | _ => false

/-- An accepted edit, a redrive or a purge. -/
def revises (s : EditedLife P) (l : EditLabel P) : Bool :=
  match l with
  | .row l => l.resetsEdits
  | _ => (accepted s l).isSome

/-- A row just inserted. -/
def EditedLife.inserted (box : Box) (event : P) (segregationRef : Option String) :
    EditedLife P :=
  ⟨Life.inserted box event segregationRef, []⟩

/-! ### What one step does to the edit columns -/

section
variable {checks : PayloadChecks P} {box : Box} {cfg : Config}

/-- The row's event is what it was or what the handler that holds the row read; its edit
columns are what they were, the revision moved on by `moved`. -/
structure KeepsEdits (s : Life P) (row : Row P) (moved : Nat) : Prop where
  event : row.event = s.row.event ∨
    ∃ k ∈ s.handlers, s.row.claimedBy = some k.token ∧ row.event = k.entry.event
  lastEdit : row.lastEdit = s.row.lastEdit
  originalPayload : row.originalPayload = s.row.originalPayload
  payloadRevision : payloadRevisionOf row = payloadRevisionOf s.row + moved

/-- A handler saves the event it read, and none of the edit columns. -/
theorem HandlerStep.keepsEdits {s s' : Life P} {k : Handler P} {i : Nat} {entry : Entry P}
    (h : HandlerStep box s s' k i entry) (hentry : entry.event = k.entry.event) :
    KeepsEdits s s'.row 0 := by
  rcases h.row with he | he
  · rw [he]
    exact ⟨.inl rfl, rfl, rfl, rfl⟩
  · rcases afterUpdate_cases box s entry k.token with ⟨hown, ha⟩ | ⟨_, ha⟩
    · rw [he, ha]
      exact ⟨.inr ⟨k, h.mem_running, hown, hentry⟩, rfl, rfl, rfl⟩
    · rw [he, ha]
      exact ⟨.inl rfl, rfl, rfl, rfl⟩

/-- Only an edit sets the edit columns; a redrive and a purge move the revision on. -/
theorem step_keepsEdits {s s' : Life P} {l : Label P} (hl : l.isEdit = false)
    (h : step box cfg s l = some s') :
    KeepsEdits s s'.row (if l.resetsEdits then 1 else 0) := by
  cases l with
  | claim token key now =>
    obtain ⟨_, r, hr, rfl⟩ := claim_step h
    obtain ⟨_, _, _, _, rfl⟩ := claimEvents_eq_some hr
    exact ⟨.inl rfl, rfl, rfl, rfl⟩
  | complete i now reply =>
    obtain ⟨k, hk⟩ := complete_step h
    exact hk.keepsEdits rfl
  | fail i error now reply =>
    obtain ⟨k, hk⟩ := fail_step h
    exact hk.keepsEdits (by cases box <;> rfl)
  | crash i =>
    obtain ⟨k, hk⟩ := crash_step h
    exact hk.keepsEdits rfl
  | expire now =>
    obtain ⟨r, hr, rfl⟩ := Option.map_eq_some_iff.mp h
    obtain ⟨_, _, rfl⟩ := processExpiredEvents_eq_some hr
    exact ⟨.inl rfl, rfl, rfl, rfl⟩
  | dead =>
    obtain ⟨r, hr, rfl⟩ := Option.map_eq_some_iff.mp h
    obtain ⟨_, _, rfl⟩ := updateDeadEvents_eq_some hr
    exact ⟨.inl rfl, rfl, rfl, rfl⟩
  | failed =>
    obtain ⟨r, hr, rfl⟩ := Option.map_eq_some_iff.mp h
    obtain ⟨_, rfl⟩ := updateFailedEvents_eq_some hr
    exact ⟨.inl rfl, rfl, rfl, rfl⟩
  | resubmitted =>
    obtain ⟨r, hr, rfl⟩ := Option.map_eq_some_iff.mp h
    obtain ⟨_, rfl⟩ := updateResubmittedEvents_eq_some hr
    exact ⟨.inl rfl, rfl, rfl, rfl⟩
  | redrive operator now =>
    obtain ⟨r, hr, rfl⟩ := Option.map_eq_some_iff.mp h
    obtain ⟨_, rfl⟩ := redriveById_eq_some hr
    exact ⟨.inl rfl, rfl, rfl, rfl⟩
  | purge operator reasonCode note now =>
    obtain ⟨r, hr, rfl⟩ := Option.map_eq_some_iff.mp h
    obtain ⟨_, rfl⟩ := purgeById_eq_some hr
    exact ⟨.inl rfl, rfl, rfl, rfl⟩
  | edit edit now => cases hl
  | find lockIds =>
    obtain ⟨_, rfl⟩ := find_step h
    exact ⟨.inl rfl, rfl, rfl, rfl⟩
  | deadLetter =>
    obtain ⟨_, rfl⟩ := deadLetter_step h
    exact ⟨.inl rfl, rfl, rfl, rfl⟩

/-- While the handlers' copies are true, only an edit changes the stored event. -/
theorem KeepsEdits.event_eq {s : Life P} {row : Row P} {moved : Nat}
    (h : KeepsEdits s row moved) (hs : Copied box cfg s) : row.event = s.row.event := by
  rcases h.event with he | ⟨k, hk, hown, he⟩
  · exact he
  · rw [he]
    exact (hs k hk hown).event

/-! ### What one step of the edited row can do -/

theorem editGasEvent_eq_ok {params : EditParams P} {row : Row P} {edit : Edit P}
    (h : editGasEvent checks params row = .ok edit) :
    isEditable row params.revision = true ∧ edit.revision = params.revision ∧
      edit.original = originalToKeep row := by
  unfold editGasEvent findEditable at h
  by_cases he : isEditable row params.revision = true
  · rw [if_pos he] at h
    change (changesTo checks row params.payload).bind (fun _ ↦ _) = .ok edit at h
    cases hc : changesTo checks row params.payload with
    | error _ =>
      rw [hc] at h
      cases h
    | ok _ =>
      rw [hc] at h
      cases h
      exact ⟨he, rfl, rfl⟩
  · rw [if_neg he] at h
    cases h

/-- The use case refuses a revision the row is no longer at. -/
theorem editGasEvent_refused {params : EditParams P} {row : Row P}
    (h : params.revision ≠ payloadRevisionOf row) :
    editGasEvent checks params row = .error (refusalFor row.status) := by
  have he : isEditable row params.revision = false := by
    simp [isEditable, Ne.symm h]
  simp only [editGasEvent, findEditable, he]
  rfl

theorem editStep_row {s s' : EditedLife P} {l : Label P}
    (h : editStep checks box cfg s (.row l) = some s') :
    l.isEdit = false ∧ step box cfg s.life l = some s'.life ∧ s'.reads = s.reads := by
  simp only [editStep] at h
  split at h
  · cases h
  · next hl =>
    obtain ⟨life, hlife, rfl⟩ := Option.map_eq_some_iff.mp h
    exact ⟨by simpa using hl, hlife, rfl⟩

theorem editStep_read {s s' : EditedLife P} {params : EditParams P}
    (h : editStep checks box cfg s (.read params) = some s') :
    s'.life = s.life ∧ (s'.reads = s.reads ∨
      ∃ edit, editGasEvent checks params s.life.row = .ok edit ∧ s'.reads = edit :: s.reads) := by
  simp only [editStep] at h
  split at h
  · next edit hedit =>
    cases h
    exact ⟨rfl, .inr ⟨edit, hedit, rfl⟩⟩
  · cases h
    exact ⟨rfl, .inl rfl⟩

theorem editStep_write {s s' : EditedLife P} {i now : Nat}
    (h : editStep checks box cfg s (.write i now) = some s') :
    s'.reads = s.reads.eraseIdx i ∧ ∃ edit ∈ s.reads,
      (accepted s (.write i now) = none ∧ s'.life = s.life) ∨
      (accepted s (.write i now) = some edit ∧
        step box cfg s.life (.edit edit now) = some s'.life) := by
  obtain ⟨edit, hi, rfl⟩ := Option.map_eq_some_iff.mp h
  refine ⟨rfl, edit, List.mem_of_getElem? hi, ?_⟩
  cases hw : editPayloadById edit now s.life.row with
  | none => exact .inl ⟨by simp [accepted, hi, hw], rfl⟩
  | some row => exact .inr ⟨by simp [accepted, hi, hw], by simp [step, hw]⟩

/-- Below the edits, the row takes a step of its own or none. -/
theorem editStep_life {s s' : EditedLife P} {l : EditLabel P}
    (h : editStep checks box cfg s l = some s') :
    (s'.life = s.life ∧ l.token = none) ∨
      ∃ l', step box cfg s.life l' = some s'.life ∧ l'.token = l.token := by
  cases l with
  | row l => exact .inr ⟨l, (editStep_row h).2.1, rfl⟩
  | read params => exact .inl ⟨(editStep_read h).1, rfl⟩
  | write i now =>
    obtain ⟨_, edit, _, ⟨_, hlife⟩ | ⟨_, hstep⟩⟩ := editStep_write h
    · exact .inl ⟨hlife, rfl⟩
    · exact .inr ⟨.edit edit now, hstep, rfl⟩

/-- What an accepted edit makes of the row. -/
def Edit.appliedTo (edit : Edit P) (row : Row P) (now : Nat) : Row P :=
  { row with
    event := edit.event
    payloadRevision := some (edit.revision + 1)
    lastEdit := some ⟨now, edit.operator, edit.note⟩
    originalPayload := edit.original.orElse fun _ ↦ row.originalPayload }

/-- What an accepted edit writes. -/
theorem editStep_accepted {s s' : EditedLife P} {l : EditLabel P} {edit : Edit P}
    (h : editStep checks box cfg s l = some s') (ha : accepted s l = some edit) :
    edit ∈ s.reads ∧ payloadRevisionOf s.life.row = edit.revision ∧
      ∃ now, s'.life.row = edit.appliedTo s.life.row now := by
  cases l with
  | row l => cases ha
  | read params => cases ha
  | write i now =>
    obtain ⟨_, edit', hmem, ⟨hn, _⟩ | ⟨hs, hstep⟩⟩ := editStep_write h
    · rw [hn] at ha
      cases ha
    · obtain rfl : edit' = edit := Option.some.inj (hs.symm.trans ha)
      obtain ⟨row, hrow, hlife⟩ := Option.map_eq_some_iff.mp hstep
      obtain ⟨_, hrev, rfl⟩ := editPayloadById_eq_some hrow
      exact ⟨hmem, hrev, now, (congrArg Life.row hlife).symm⟩

/-- Without an accepted edit, the event and the edit columns are kept. -/
theorem editStep_keepsEdits {s s' : EditedLife P} {l : EditLabel P}
    (h : editStep checks box cfg s l = some s') (ha : accepted s l = none) :
    KeepsEdits s.life s'.life.row (if revises s l then 1 else 0) := by
  cases l with
  | row l =>
    obtain ⟨hl, hstep, _⟩ := editStep_row h
    exact step_keepsEdits hl hstep
  | read params =>
    rw [(editStep_read h).1]
    exact ⟨.inl rfl, rfl, rfl, rfl⟩
  | write i now =>
    obtain ⟨_, _, _, ⟨_, hlife⟩ | ⟨hsome, _⟩⟩ := editStep_write h
    · rw [hlife]
      exact ⟨.inl rfl, rfl, rfl, by simp [revises, ha]⟩
    · simp [ha] at hsome

/-- The revision moves on by one at an accepted edit, a redrive and a purge, and at nothing
else. -/
theorem editStep_revision {s s' : EditedLife P} {l : EditLabel P}
    (h : editStep checks box cfg s l = some s') :
    payloadRevisionOf s'.life.row =
      payloadRevisionOf s.life.row + if revises s l then 1 else 0 := by
  cases ha : accepted s l with
  | none => exact (editStep_keepsEdits h ha).payloadRevision
  | some edit =>
    obtain ⟨_, hrev, _, hrow⟩ := editStep_accepted h ha
    have hrevises : revises s l = true := by
      cases l with
      | row l => cases ha
      | read params => cases ha
      | write i now => simp [revises, ha]
    rw [hrow, hrev, hrevises]
    rfl

/-- An edited row stays edited. -/
theorem editStep_edited {s s' : EditedLife P} {l : EditLabel P}
    (h : editStep checks box cfg s l = some s') (hs : s.life.row.lastEdit ≠ none) :
    s'.life.row.lastEdit ≠ none := by
  cases ha : accepted s l with
  | none =>
    rw [(editStep_keepsEdits h ha).lastEdit]
    exact hs
  | some edit =>
    obtain ⟨_, _, _, hrow⟩ := editStep_accepted h ha
    rw [hrow]
    exact Option.some_ne_none _

/-! ### The kept original -/

/-- `event` is the event as first stored: it is the row's until the first edit, which keeps
it. An edit that has read the row at its present revision has decided on the row as it is. -/
structure OriginalKept (event : P) (s : EditedLife P) : Prop where
  unedited : s.life.row.lastEdit = none →
    s.life.row.event = event ∧ s.life.row.originalPayload = none
  edited : s.life.row.lastEdit ≠ none → s.life.row.originalPayload = some event
  reads : ∀ edit ∈ s.reads, edit.revision ≤ payloadRevisionOf s.life.row ∧
    (edit.revision = payloadRevisionOf s.life.row → edit.original = originalToKeep s.life.row)

/-- The original an edit at the present revision leaves on the row is the first event. -/
theorem OriginalKept.original {event : P} {s : EditedLife P} (hs : OriginalKept event s)
    {edit : Edit P} (hmem : edit ∈ s.reads)
    (hrev : payloadRevisionOf s.life.row = edit.revision) :
    (edit.original.orElse fun _ ↦ s.life.row.originalPayload) = some event := by
  rw [(hs.reads edit hmem).2 hrev.symm]
  cases hl : s.life.row.lastEdit with
  | none => simp [originalToKeep, hl, (hs.unedited hl).1]
  | some record =>
    have hkept := hs.edited (by simp [hl])
    simp [originalToKeep, hl, hkept]

/-- A step that leaves the event and the edit columns keeps the original. -/
theorem OriginalKept.of_keepsEdits {event : P} {s s' : EditedLife P} {moved : Nat}
    (hs : OriginalKept event s) (hevent : s'.life.row.event = s.life.row.event)
    (h : KeepsEdits s.life s'.life.row moved) (hreads : ∀ edit ∈ s'.reads, edit ∈ s.reads) :
    OriginalKept event s' := by
  refine ⟨?_, ?_, ?_⟩
  · rw [h.lastEdit, hevent, h.originalPayload]
    exact hs.unedited
  · rw [h.lastEdit, h.originalPayload]
    exact hs.edited
  · intro edit hm
    obtain ⟨hle, horiginal⟩ := hs.reads edit (hreads edit hm)
    have hrev := h.payloadRevision
    refine ⟨by omega, fun he ↦ ?_⟩
    have hsame : originalToKeep s'.life.row = originalToKeep s.life.row := by
      simp only [originalToKeep, h.lastEdit, hevent]
    rw [hsame]
    exact horiginal (by omega)

/-- What an editor has just read is the original it is to keep. -/
theorem OriginalKept.read {event : P} {s s' : EditedLife P} {params : EditParams P} {edit : Edit P}
    (hs : OriginalKept event s) (hlife : s'.life = s.life)
    (hedit : editGasEvent checks params s.life.row = .ok edit)
    (hreads : s'.reads = edit :: s.reads) : OriginalKept event s' := by
  refine ⟨hlife ▸ hs.unedited, hlife ▸ hs.edited, ?_⟩
  obtain ⟨heditable, hrev, horiginal⟩ := editGasEvent_eq_ok hedit
  intro e hm
  rw [hreads] at hm
  rw [hlife]
  rcases List.mem_cons.mp hm with rfl | hm
  · have hat : payloadRevisionOf s.life.row = params.revision := by
      simp only [isEditable, Bool.and_eq_true, decide_eq_true_eq] at heditable
      exact heditable.2
    exact ⟨by omega, fun _ ↦ horiginal⟩
  · exact hs.reads e hm

/-- An edit that is accepted leaves the original on the row, and what was read before it is of
an earlier revision. -/
theorem OriginalKept.accept {event : P} {s s' : EditedLife P} {edit : Edit P} {now : Nat}
    (hs : OriginalKept event s) (hmem : edit ∈ s.reads)
    (hrev : payloadRevisionOf s.life.row = edit.revision)
    (hrow : s'.life.row = edit.appliedTo s.life.row now) (hreads : ∀ e ∈ s'.reads, e ∈ s.reads) :
    OriginalKept event s' := by
  refine ⟨?_, ?_, ?_⟩
  · rw [hrow]
    intro hnone
    cases hnone
  · rw [hrow]
    exact fun _ ↦ hs.original hmem hrev
  · intro e hm
    have hle := (hs.reads e (hreads e hm)).1
    have hmoved : payloadRevisionOf s'.life.row = edit.revision + 1 := by
      rw [hrow]
      rfl
    exact ⟨by omega, fun he ↦ absurd he (by omega)⟩

/-- Every step keeps the original. -/
theorem editStep_originalKept {event : P} {s s' : EditedLife P} {l : EditLabel P}
    (hcopied : Copied box cfg s.life) (hs : OriginalKept event s)
    (h : editStep checks box cfg s l = some s') : OriginalKept event s' := by
  cases l with
  | row l =>
    obtain ⟨hl, hstep, hreads⟩ := editStep_row h
    have hkeeps := step_keepsEdits hl hstep
    exact hs.of_keepsEdits (hkeeps.event_eq hcopied) hkeeps (hreads ▸ fun _ hm ↦ hm)
  | read params =>
    obtain ⟨hlife, hreads | ⟨edit, hedit, hreads⟩⟩ := editStep_read h
    · have hkeeps := editStep_keepsEdits h rfl
      exact hs.of_keepsEdits (by rw [hlife]) hkeeps (hreads ▸ fun _ hm ↦ hm)
    · exact hs.read hlife hedit hreads
  | write i now =>
    have hreads : ∀ e ∈ s'.reads, e ∈ s.reads := fun e hm ↦
      List.mem_of_mem_eraseIdx ((editStep_write h).1 ▸ hm)
    cases ha : accepted s (.write i now) with
    | none =>
      obtain ⟨_, _, _, ⟨_, hlife⟩ | ⟨hsome, _⟩⟩ := editStep_write h
      · exact hs.of_keepsEdits (by rw [hlife]) (editStep_keepsEdits h ha) hreads
      · simp [ha] at hsome
    | some edit =>
      obtain ⟨hmem, hrev, at_, hrow⟩ := editStep_accepted h ha
      exact hs.accept hmem hrev hrow hreads

/-! ### Runs -/

/-- A run of the edited row is a run of the row. -/
theorem run_life {event : P} {ref : Option String} {ls : List (EditLabel P)}
    {s : EditedLife P}
    (h : Run (editStep checks box cfg) anyStep (EditedLife.inserted box event ref) ls s) :
    ∃ ls', Run (step box cfg) anyStep (Life.inserted box event ref) ls' s.life ∧
      ls'.filterMap Label.token = ls.filterMap EditLabel.token := by
  induction h with
  | nil => exact ⟨[], .nil, rfl⟩
  | @snoc ls s s' l _ _ hstep ih =>
    obtain ⟨ls', hrun, htokens⟩ := ih
    rcases editStep_life hstep with ⟨hlife, hl⟩ | ⟨l', hl', ht⟩
    · refine ⟨ls', hlife ▸ hrun, ?_⟩
      rw [List.filterMap_append, htokens]
      simp [hl]
    · refine ⟨ls' ++ [l'], .snoc hrun trivial hl', ?_⟩
      rw [List.filterMap_append, List.filterMap_append, htokens]
      simp only [List.filterMap_cons, List.filterMap_nil, ht]

/-- The handlers' copies are true while editors are at work too. -/
theorem run_edited_copied {event : P} {ref : Option String} {ls : List (EditLabel P)}
    {s : EditedLife P}
    (h : Run (editStep checks box cfg) anyStep (EditedLife.inserted box event ref) ls s)
    (htokens : (ls.filterMap EditLabel.token).Nodup) : Copied box cfg s.life := by
  obtain ⟨ls', hrun, he⟩ := run_life h
  exact run_copied hrun (he ▸ htokens)

/-- The original is kept in every reachable state. -/
theorem run_originalKept {event : P} {ref : Option String} {ls : List (EditLabel P)}
    {s : EditedLife P}
    (h : Run (editStep checks box cfg) anyStep (EditedLife.inserted box event ref) ls s)
    (htokens : (ls.filterMap EditLabel.token).Nodup) : OriginalKept event s := by
  induction h with
  | nil =>
    exact ⟨fun _ ↦ ⟨rfl, rfl⟩, fun hne ↦ absurd rfl hne,
      fun _ hm ↦ absurd hm List.not_mem_nil⟩
  | snoc hrun _ hstep ih =>
    have hold := (nodup_filterMap_concat htokens).1
    exact editStep_originalKept (run_edited_copied hrun hold) (ih hold) hstep

/-- The revision never goes back. -/
theorem run_revision {s s' : EditedLife P} {ls : List (EditLabel P)}
    (h : Run (editStep checks box cfg) anyStep s ls s') :
    payloadRevisionOf s.life.row ≤ payloadRevisionOf s'.life.row := by
  refine h.invariant (fun t ↦ payloadRevisionOf s.life.row ≤ payloadRevisionOf t.life.row)
    (Nat.le_refl _) fun t l t' hle _ hstep ↦ ?_
  have := editStep_revision hstep
  omega

/-- A run with a redrive or a purge in it moves the revision on. -/
theorem run_reset {s s' : EditedLife P} {ls : List (EditLabel P)}
    (h : Run (editStep checks box cfg) anyStep s ls s')
    (hreset : ∃ l : Label P, .row l ∈ ls ∧ l.resetsEdits = true) :
    payloadRevisionOf s.life.row < payloadRevisionOf s'.life.row := by
  induction h with
  | nil =>
    obtain ⟨_, hm, _⟩ := hreset
    exact absurd hm List.not_mem_nil
  | @snoc ls t t' l hrun _ hstep ih =>
    have hmoved := editStep_revision hstep
    obtain ⟨k, hm, hk⟩ := hreset
    rcases List.mem_append.mp hm with hm | hm
    · have := ih ⟨k, hm, hk⟩
      omega
    · obtain rfl : .row k = l := List.mem_singleton.mp hm
      have hle := run_revision hrun
      simp only [revises, hk, if_true] at hmoved
      omega

/-- Of two accepted edits of one run, the later one was submitted at a later revision. -/
theorem accepted_increasing {s s₁ s₂ s₃ : EditedLife P} {l l' : EditLabel P}
    {ls : List (EditLabel P)} {edit edit' : Edit P}
    (h : editStep checks box cfg s l = some s₁) (ha : accepted s l = some edit)
    (hrun : Run (editStep checks box cfg) anyStep s₁ ls s₂)
    (h' : editStep checks box cfg s₂ l' = some s₃) (ha' : accepted s₂ l' = some edit') :
    edit.revision < edit'.revision := by
  obtain ⟨_, hrev, now, hrow⟩ := editStep_accepted h ha
  obtain ⟨_, hrev', _⟩ := editStep_accepted h' ha'
  have hle := run_revision hrun
  have hmoved : payloadRevisionOf s₁.life.row = edit.revision + 1 := by
    rw [hrow]
    rfl
  omega

end

end FgGas.Events
