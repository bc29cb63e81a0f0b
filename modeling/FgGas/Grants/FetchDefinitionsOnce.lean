import FgGas.Grants.FetchDefinitions
import FgGas.Store.Sighted

/-!
# Definitions are fetched once

In every interleaving of fetches and of other tasks that store definitions, no definition is stored
twice, and a fetch reports for each missing file what it came to in the pass that commits. A fetch
that is stopped by a file stores nothing and names the files that failed before it. The files it
finds missing are those it does not see stored, and what it throws is what one of its reads threw
or what it was answered in a pass of its transaction.
-/

namespace FgGas.Grants.FetchDefinitions

open Machine Store VersionFiles Events

/-! ### What a fetch comes to -/

/-- What handling a file came to. -/
abbrev Came := DefinitionType × Except Thrown Unit

/-- What a file came to is reported as its outcome. -/
def Reports : Came → FileOutcome → Prop
  | (file, .ok ()), outcome => outcome = .stored file
  | (file, .error error), outcome =>
      ∃ reason, reasonOf error = some reason ∧ outcome = failed file reason error

/-- The outcome of a file that failed. -/
def failureOf : Came → Option FileOutcome
  | (_, .ok ()) => none
  | (file, .error error) => (reasonOf error).map fun reason ↦ failed file reason error

section
variable {B G : Type}

/-- What the store of a definition throws in a pass. -/
def Throws (check : Check B G) (outside : Outside) (key : DefinitionKey) (definition : B)
    (error : Thrown) : Prop :=
  outside.isStored key.1 = some error ∨ check key definition = .error error ∨
    ∃ refusal, outside.insertOne key.1 = some refusal ∧ error = insertThrown key refusal

/-- What the read of a file threw, or in the pass, if it came to one, the store of what was read. -/
def FailedWith (check : Check B G) (args : FetchArgs) (answers : Answers B) (pass : Option Outside)
    (file : DefinitionType) (error : Thrown) : Prop :=
  readFile answers file = .error error ∨
    ∃ outside ∈ pass, ∃ definition, readFile answers file = .ok definition ∧
      Throws check outside (file, args.grantCode, args.version) definition error

/-- Each file came to what its read or its store threw, which is an outcome of the file, or it was
read, and nothing was thrown. -/
structure Handled (check : Check B G) (args : FetchArgs) (answers : Answers B)
    (pass : Option Outside) (came : List Came) : Prop where
  ok : ∀ file, (file, .ok ()) ∈ came → ∃ definition, readFile answers file = .ok definition
  error : ∀ file error, (file, .error error) ∈ came →
    FailedWith check args answers pass file error ∧ (reasonOf error).isSome

/-- A failure that is no outcome of its file: the driver's transient error goes on as it is, and
any other one names the files that failed before. -/
def Halted (check : Check B G) (args : FetchArgs) (answers : Answers B) (pass : Option Outside)
    (missing : List DefinitionType) (thrown : Thrown) : Prop :=
  ∃ came file error rest, missing = came.map Prod.fst ++ file :: rest ∧
    Handled check args answers pass came ∧ FailedWith check args answers pass file error ∧
    reasonOf error = none ∧
    thrown = if isTransient error then error
      else .boom 500 "Fetch definitions stopped" (came.filterMap failureOf)

/-- The files that a fetch finds missing: of those that the version has, the ones that are not
stored in what it `saw` when it looked for them. None of them was stored at the start. -/
structure Missing (args : FetchArgs) (answers : Answers B) (start : DefinitionStore G)
    (saw : DefinitionStore G → Prop) (missing : List DefinitionType) : Prop where
  unstored : ∃ has, answers.findVersion = .ok (some has) ∧ answers.storedVersions = .ok () ∧
    ∃ seen : DefinitionType → DefinitionStore G, (∀ file ∈ fileTypes.filter has, saw (seen file)) ∧
      missing = (fileTypes.filter has).filter fun file ↦
        !(seen file).has (file, args.grantCode, args.version)
  new : ∀ file ∈ missing, start.has (file, args.grantCode, args.version) = false

/-- The commit of a pass: each missing file has one outcome, in their order; those reported stored
are stored, those reported failed are as before, and what it adds are definitions of files reported
stored, as they were read and checked; the audit event is in. -/
structure Committed (check : Check B G) (args : FetchArgs) (answers : Answers B)
    (outside : Outside) (missing : List DefinitionType) (outcomes : List FileOutcome)
    (before after : DefinitionStore G) : Prop where
  files : outcomes.map FileOutcome.file = missing
  reports : ∃ came, came.map Prod.fst = missing ∧ Handled check args answers (some outside) came ∧
    List.Forall₂ Reports came outcomes
  stored : ∀ file, .stored file ∈ outcomes →
    after.has (file, args.grantCode, args.version) = true
  failed : ∀ outcome ∈ outcomes, outcome.isFailed = true →
    after.has (outcome.file, args.grantCode, args.version) =
      before.has (outcome.file, args.grantCode, args.version)
  adds : ∃ entries, after.definitions = before.definitions ++ entries ∧
    ∀ entry ∈ entries, ∃ file definition, entry.key = (file, args.grantCode, args.version) ∧
      .stored file ∈ outcomes ∧ readFile answers file = .ok definition ∧
      check entry.key definition = .ok entry.document
  audit : after.audits = before.audits ++ [⟨args, outcomes.map toAuditFile⟩]

/-- How a fetch ends that got as far as its missing files, having been `asked` for its passes. -/
inductive FetchEnd (check : Check B G) (args : FetchArgs) (answers : Answers B)
    (asked : Outside → Prop) (missing : List DefinitionType) :
    FetchReply → List (DefinitionStore G × DefinitionStore G) → Prop
  | unread {thrown : Thrown} (h : Halted check args answers none missing thrown) :
      FetchEnd check args answers asked missing (.error thrown) []
  | halted {outside : Outside} {thrown : Thrown} (hasked : asked outside)
      (h : Halted check args answers (some outside) missing thrown) :
      FetchEnd check args answers asked missing (.error thrown) []
  | uncommitted {outside : Outside} {came : List Came} {error : Thrown} (hasked : asked outside)
      (hfiles : came.map Prod.fst = missing)
      (hcame : Handled check args answers (some outside) came)
      (herror : outside.writeAudit = some error ∨
        outside.writeAudit = none ∧ outside.commit = .refused error) :
      FetchEnd check args answers asked missing (.error error) []
  | unanswered {outside : Outside} {outcomes : List FileOutcome} {before after : DefinitionStore G}
      {error : Thrown} (hasked : asked outside)
      (h : Committed check args answers outside missing outcomes before after)
      (hcommit : outside.commit = .unanswered error) :
      FetchEnd check args answers asked missing (.error error) [(before, after)]
  | fetched {outside : Outside} {outcomes : List FileOutcome} {before after : DefinitionStore G}
      (hasked : asked outside)
      (h : Committed check args answers outside missing outcomes before after)
      (hcommit : outside.commit = .answered) :
      FetchEnd check args answers asked missing (.ok outcomes) [(before, after)]

/-- What is refused before a file is read. -/
def Answers.Refuses (answers : Answers B) (error : Thrown) : Prop :=
  answers.findVersion = .error error ∨
    answers.findVersion = .ok none ∧ error = configVersionNotFound ∨
    ∃ has, answers.findVersion = .ok (some has) ∧ answers.storedVersions = .error error

/-- The file of a read. -/
def Read.file : Read B → DefinitionType
  | .definition file _ => file
  | .failed outcome => outcome.file

/-! ### Settling -/

variable {check : Check B G} {args : FetchArgs} {answers : Answers B} {pass : Option Outside}
  {file : DefinitionType} {came : List Came} {error : Thrown} {outcome : FileOutcome}

theorem Reports.file_eq {c : Came} (h : Reports c outcome) : outcome.file = c.1 := by
  obtain ⟨file, result⟩ := c
  cases result with
  | ok => rw [show outcome = .stored file from h]; rfl
  | error error =>
    obtain ⟨reason, -, rfl⟩ := h
    rfl

/-- A file that failed is reported so, with a reason. -/
theorem Reports.of_error (h : Reports (file, .error error) outcome) :
    outcome.isFailed = true ∧ (reasonOf error).isSome = true := by
  obtain ⟨reason, hreason, rfl⟩ := h
  exact ⟨rfl, by rw [hreason]; rfl⟩

theorem Reports.failure {c : Came} (h : Reports c outcome) :
    failureOf c = if outcome.isFailed then some outcome else none := by
  obtain ⟨file, result⟩ := c
  cases result with
  | ok => rw [show outcome = .stored file from h]; rfl
  | error error =>
    obtain ⟨reason, hreason, rfl⟩ := h
    simp [failureOf, hreason, failed, FileOutcome.isFailed]

/-- The outcomes that failed are those of the files that failed. -/
theorem failures_eq {outcomes : List FileOutcome} (h : List.Forall₂ Reports came outcomes) :
    outcomes.filter FileOutcome.isFailed = came.filterMap failureOf := by
  induction h with
  | nil => rfl
  | cons hreports _ ih =>
    rw [List.filter_cons, List.filterMap_cons, hreports.failure, ih]
    split <;> rfl

theorem files_eq {outcomes : List FileOutcome} (h : List.Forall₂ Reports came outcomes) :
    outcomes.map FileOutcome.file = came.map Prod.fst := by
  induction h with
  | nil => rfl
  | cons hreports _ ih => rw [List.map_cons, List.map_cons, hreports.file_eq, ih]

/-- A failure is settled as the file's outcome, or it is none. -/
theorem settle_error {A : Type} (file : DefinitionType) (handled : List FileOutcome)
    (error : Thrown) :
    (∃ outcome, (settle file handled (.error error) : Except Thrown (Except FileOutcome A)) =
        .ok (.error outcome) ∧ Reports (file, .error error) outcome) ∨
      reasonOf error = none ∧
        (settle file handled (.error error) : Except Thrown (Except FileOutcome A)) =
          .error (if isTransient error then error else stopped handled) := by
  cases hreason : reasonOf error with
  | some reason => exact .inl ⟨_, by simp [settle, hreason], reason, hreason, rfl⟩
  | none => exact .inr ⟨rfl, by simp [settle, hreason]⟩

theorem Handled.snoc_ok (h : Handled check args answers pass came) {definition : B}
    (hread : readFile answers file = .ok definition) :
    Handled check args answers pass (came ++ [(file, .ok ())]) where
  ok f hmem := by
    rcases List.mem_append.mp hmem with hmem | hmem
    · exact h.ok f hmem
    · obtain ⟨rfl, -⟩ := Prod.mk.inj (List.mem_singleton.mp hmem)
      exact ⟨definition, hread⟩
  error f error hmem := by
    rcases List.mem_append.mp hmem with hmem | hmem
    · exact h.error f error hmem
    · cases List.mem_singleton.mp hmem

theorem Handled.snoc_error (h : Handled check args answers pass came)
    (hfailed : FailedWith check args answers pass file error)
    (hreason : (reasonOf error).isSome = true) :
    Handled check args answers pass (came ++ [(file, .error error)]) where
  ok f hmem := by
    rcases List.mem_append.mp hmem with hmem | hmem
    · exact h.ok f hmem
    · cases List.mem_singleton.mp hmem
  error f e hmem := by
    rcases List.mem_append.mp hmem with hmem | hmem
    · exact h.error f e hmem
    · cases List.mem_singleton.mp hmem
      exact ⟨hfailed, hreason⟩

theorem Handled.nil : Handled check args answers pass [] := by
  constructor <;> simp

end

/-! ### In turn -/

section
variable {K S D E A B : Type}

/-- What is returned satisfies `P`, and what is thrown `Q`. -/
def Gives (P : A → Prop) (Q : E → Prop) : Except E A → Prop
  | .ok value => P value
  | .error error => Q error

/-- What holds of the items handled, in `Except`, or what the failure of the next one gives. -/
theorem inTurn_except {items : List A} {next : A → List B → Except E B}
    {P : List A → List B → Prop} {Q : E → Prop} (hstart : P [] [])
    (hnext : ∀ done item rest handled, items = done ++ item :: rest → P done handled →
      Gives (fun value ↦ P (done ++ [item]) (handled ++ [value])) Q (next item handled)) :
    Gives (P items) Q (inTurn items next) := by
  suffices h : ∀ todo done handled, items = done ++ todo → P done handled →
      Gives (P items) Q
        (todo.foldlM (fun handled item ↦ do return handled ++ [← next item handled]) handled) from
    h items [] [] rfl hstart
  intro todo
  induction todo with
  | nil =>
    intro done handled hitems hP
    rw [List.append_nil] at hitems
    rw [hitems]
    exact hP
  | cons item todo ih =>
    intro done handled hitems hP
    have hone := hnext done item todo handled hitems hP
    rw [List.foldlM_cons]
    cases hvalue : next item handled with
    | error error =>
      rw [hvalue] at hone
      exact hone
    | ok value =>
      rw [hvalue] at hone
      exact ih (done ++ [item]) _ (by rw [hitems]; simp) hone

/-- What holds of the items handled, in a session, or what the failure of the next one gives. -/
theorem inTurn_leads {base : S} {items : List A} {next : A → List B → Session K S D E B}
    {P : List A → List B → List K → (S → S) → Prop}
    {Q : Except E (List B) → List K → (S → S) → Prop}
    (hnext : ∀ done item rest handled held write, items = done ++ item :: rest →
      P done handled held write → (next item handled).Leads base held write fun
        | .ok value, held, write => P (done ++ [item]) (handled ++ [value]) held write
        | .error error, held, write => Q (.error error) held write)
    (hend : ∀ handled held write, P items handled held write → Q (.ok handled) held write)
    {held : List K} {write : S → S} (hstart : P [] [] held write) :
    (inTurn items next).Leads base held write Q := by
  suffices h : ∀ todo done handled held write, items = done ++ todo → P done handled held write →
      (todo.foldlM (fun handled item ↦ do return handled ++ [← next item handled])
        handled).Leads base held write Q from h items [] [] held write rfl hstart
  intro todo
  induction todo with
  | nil =>
    intro done handled held write hitems hP
    rw [List.append_nil] at hitems
    subst hitems
    exact hend handled held write hP
  | cons item todo ih =>
    intro done handled held write hitems hP
    rw [List.foldlM_cons, Session.leads_bind, Session.leads_bind]
    refine (hnext done item todo handled held write hitems hP).mono fun result held write h ↦ ?_
    cases result with
    | error error => exact h
    | ok value => exact ih (done ++ [item]) _ held write (by rw [hitems]; simp) h

end

/-! ### Reading -/

section
variable {B G : Type} {check : Check B G} {args : FetchArgs} {answers : Answers B}
  {file : DefinitionType}

/-- A read is what reading its file came to. -/
def ReadOk (answers : Answers B) : Read B → Prop
  | .definition file definition => readFile answers file = .ok definition
  | .failed outcome => ∃ error, readFile answers outcome.file = .error error ∧
      Reports (outcome.file, .error error) outcome

/-- What reading the files has come to so far. -/
def ReadProgress (check : Check B G) (args : FetchArgs) (answers : Answers B)
    (done : List DefinitionType) (reads : List (Read B)) : Prop :=
  reads.map Read.file = done ∧ (∀ read ∈ reads, ReadOk answers read) ∧
    ∃ came, came.map Prod.fst = done ∧ Handled check args answers none came ∧
      (reads.filterMap Read.outcome).filter FileOutcome.isFailed = came.filterMap failureOf

theorem ReadProgress.snoc {done : List DefinitionType} {reads : List (Read B)}
    (h : ReadProgress check args answers done reads) (read : Read B) (hread : ReadOk answers read)
    (result : Except Thrown Unit)
    (hhandled : ∀ came, Handled check args answers none came →
      Handled check args answers none (came ++ [(read.file, result)]))
    (hfailure : (read.outcome.toList).filter FileOutcome.isFailed =
      (failureOf (read.file, result)).toList) :
    ReadProgress check args answers (done ++ [read.file]) (reads ++ [read]) := by
  obtain ⟨rfl, hreads, came, hcame, hdone, hfailures⟩ := h
  refine ⟨by simp, fun r hr ↦ ?_, came ++ [(read.file, result)], by simp [hcame],
    hhandled came hdone, ?_⟩
  · rcases List.mem_append.mp hr with hr | hr
    · exact hreads r hr
    · rwa [List.mem_singleton.mp hr]
  · have hlast : ([read].filterMap Read.outcome).filter FileOutcome.isFailed =
        [(read.file, result)].filterMap failureOf := by
      rw [List.filterMap_eq_flatMap_toList, List.flatMap_singleton, hfailure,
        List.filterMap_eq_flatMap_toList, List.flatMap_singleton]
    rw [List.filterMap_append, List.filter_append, List.filterMap_append, hfailures, hlast]

/-- The reads of the missing files, in their order, or the file that stopped them. -/
theorem readEach_spec (check : Check B G) (args : FetchArgs) (answers : Answers B)
    (missing : List DefinitionType) :
    Gives (ReadProgress check args answers missing) (Halted check args answers none missing)
      (readEach answers missing) := by
  refine inTurn_except (P := ReadProgress check args answers) ⟨rfl, by simp, [], rfl, .nil, rfl⟩ ?_
  intro done file rest reads hmissing h
  cases hread : readFile answers file with
  | ok definition =>
    exact h.snoc (.definition file definition) hread (.ok ())
      (fun _ hcame ↦ hcame.snoc_ok hread) rfl
  | error error =>
    rcases settle_error (A := B) file (reads.filterMap Read.outcome) error with
      ⟨outcome, hsettle, hreports⟩ | ⟨hreason, hsettle⟩
    · rw [hsettle]
      obtain rfl : outcome.file = file := hreports.file_eq
      refine h.snoc (.failed outcome) ⟨error, hread, hreports⟩ (.error error)
        (fun _ hcame ↦ hcame.snoc_error (.inl hread) hreports.of_error.2) ?_
      rw [show failureOf ((Read.failed outcome : Read B).file, .error error) = _ from
        hreports.failure]
      cases hfailed : outcome.isFailed <;> simp [Read.outcome, hfailed]
    · rw [hsettle]
      obtain ⟨hfiles, hreads, came, hcame, hhandled, hfailures⟩ := h
      refine ⟨came, file, error, rest, by rw [hcame, hmissing], hhandled, .inl hread, hreason, ?_⟩
      rw [stopped, hfailures]

/-! ### Storing -/

/-- What a pass has done by the files it has handled: its definitions are new ones of files
reported stored, and every file reported stored is. -/
def Progress (check : Check B G) (args : FetchArgs) (answers : Answers B)
    (base : DefinitionStore G) (outcomes : List FileOutcome) (held : List DefinitionKey)
    (write : DefinitionStore G → DefinitionStore G) : Prop :=
  ∃ entries : List (StoredDefinition G),
    (∀ s, write s = { s with definitions := s.definitions ++ entries }) ∧
    held = entries.map StoredDefinition.key ∧ (entries.map StoredDefinition.key).Nodup ∧
    (∀ entry ∈ entries, base.has entry.key = false ∧ ∃ file definition,
      entry.key = (file, args.grantCode, args.version) ∧ .stored file ∈ outcomes ∧
      readFile answers file = .ok definition ∧ check entry.key definition = .ok entry.document) ∧
    ∀ file, .stored file ∈ outcomes → (write base).has (file, args.grantCode, args.version) = true

variable {outside : Outside} {base : DefinitionStore G} {outcomes : List FileOutcome}
  {held : List DefinitionKey} {write : DefinitionStore G → DefinitionStore G}

theorem has_eq_true {s : DefinitionStore G} {key : DefinitionKey} :
    s.has key = true ↔ key ∈ s.definitions.map StoredDefinition.key := by
  simp [DefinitionStore.has]

theorem has_eq_false {s : DefinitionStore G} {key : DefinitionKey} :
    s.has key = false ↔ key ∉ s.definitions.map StoredDefinition.key := by
  rw [← has_eq_true, Bool.not_eq_true]

/-- An insert of a definition that is not stored adds it, unless it throws. -/
theorem insertOne_leads (entry : StoredDefinition G) (hfree : (write base).has entry.key = false)
    {Q : Except Thrown (Except Thrown Unit) → List DefinitionKey →
      (DefinitionStore G → DefinitionStore G) → Prop}
    (hthrown : ∀ refusal, outside.insertOne entry.key.1 = some refusal →
      Q (.ok (.error (insertThrown entry.key refusal))) held write)
    (hadded : Q (.ok (.ok ())) (held ++ [entry.key])
      ((fun s ↦ { s with definitions := s.definitions ++ [entry] }) ∘ write)) :
    (insertOne outside entry).Leads base held write Q := by
  unfold insertOne
  cases hinsert : outside.insertOne entry.key.1 with
  | some refusal => exact hthrown refusal hinsert
  | none => simpa [Session.Leads, insertDefinition, hfree] using hadded

theorem Progress.snoc_failed (h : Progress check args answers base outcomes held write)
    {outcome : FileOutcome} (hfailed : outcome.isFailed = true) :
    Progress check args answers base (outcomes ++ [outcome]) held write := by
  obtain ⟨entries, hwrite, hheld, hnodup, hmade, hstored⟩ := h
  refine ⟨entries, hwrite, hheld, hnodup, fun entry hentry ↦ ?_, fun file hfile ↦ ?_⟩
  · obtain ⟨hfree, file, definition, hkey, hmem, hrest⟩ := hmade entry hentry
    exact ⟨hfree, file, definition, hkey, List.mem_append_left _ hmem, hrest⟩
  · rcases List.mem_append.mp hfile with hfile | hfile
    · exact hstored file hfile
    · rw [← List.mem_singleton.mp hfile] at hfailed
      cases hfailed

/-- A file that is stored already is reported stored. -/
theorem Progress.snoc_has (h : Progress check args answers base outcomes held write)
    (hhas : (write base).has (file, args.grantCode, args.version) = true) :
    Progress check args answers base (outcomes ++ [.stored file]) held write := by
  obtain ⟨entries, hwrite, hheld, hnodup, hmade, hstored⟩ := h
  refine ⟨entries, hwrite, hheld, hnodup, fun entry hentry ↦ ?_, fun file' hfile ↦ ?_⟩
  · obtain ⟨hfree, file, definition, hkey, hmem, hrest⟩ := hmade entry hentry
    exact ⟨hfree, file, definition, hkey, List.mem_append_left _ hmem, hrest⟩
  · rcases List.mem_append.mp hfile with hfile | hfile
    · exact hstored file' hfile
    · cases List.mem_singleton.mp hfile
      exact hhas

/-- A definition that is added is reported stored. -/
theorem Progress.snoc_added (h : Progress check args answers base outcomes held write)
    {entry : StoredDefinition G} {definition : B}
    (hkey : entry.key = (file, args.grantCode, args.version))
    (hfree : (write base).has entry.key = false) (hread : readFile answers file = .ok definition)
    (hcheck : check entry.key definition = .ok entry.document) :
    Progress check args answers base (outcomes ++ [.stored file]) (held ++ [entry.key])
      ((fun s ↦ { s with definitions := s.definitions ++ [entry] }) ∘ write) := by
  obtain ⟨entries, hwrite, rfl, hnodup, hmade, hstored⟩ := h
  rw [has_eq_false, hwrite, List.map_append, List.mem_append, not_or] at hfree
  refine ⟨entries ++ [entry], fun s ↦ ?_, ?_, ?_, fun other hother ↦ ?_, fun file' hfile ↦ ?_⟩
  · rw [Function.comp_apply, hwrite]
    simp
  · rw [List.map_append, List.map_singleton]
  · rw [List.map_append, List.map_singleton, List.nodup_append]
    refine ⟨hnodup, List.nodup_singleton _, ?_⟩
    rintro key hmem key' hmem' rfl
    rw [List.mem_singleton.mp hmem'] at hmem
    exact hfree.2 hmem
  · rcases List.mem_append.mp hother with hother | hother
    · obtain ⟨hfree', file', definition', hkey', hmem, hrest⟩ := hmade other hother
      exact ⟨hfree', file', definition', hkey', List.mem_append_left _ hmem, hrest⟩
    · obtain rfl := List.mem_singleton.mp hother
      exact ⟨has_eq_false.mpr hfree.1, file, definition, hkey, by simp, hread, hcheck⟩
  · rw [Function.comp_apply, has_eq_true, List.map_append, List.map_singleton, List.mem_append]
    rcases List.mem_append.mp hfile with hfile | hfile
    · exact .inl (has_eq_true.mp (hstored file' hfile))
    · cases List.mem_singleton.mp hfile
      exact .inr (by rw [hkey]; exact List.mem_singleton_self _)

/-- Storing a file that was read comes to it being stored, or to what it throws and nothing. -/
theorem storeFile_leads (h : Progress check args answers base outcomes held write)
    {definition : B} (hread : readFile answers file = .ok definition) :
    (storeFile check outside (file, args.grantCode, args.version) definition).Leads base held write
      fun
      | .ok (.ok ()), held, write =>
          Progress check args answers base (outcomes ++ [.stored file]) held write
      | .ok (.error error), held, write =>
          Progress check args answers base outcomes held write ∧
            Throws check outside (file, args.grantCode, args.version) definition error
      | .error _, _, _ => False := by
  unfold storeFile
  cases hstored : outside.isStored file with
  | some error => exact ⟨h, .inl hstored⟩
  | none =>
    dsimp only
    rw [Session.leads_bind, Session.leads_read]
    dsimp only
    by_cases hhas : (write base).has (file, args.grantCode, args.version) = true
    · rw [if_pos hhas]
      exact h.snoc_has hhas
    · rw [if_neg hhas]
      cases hcheck : check (file, args.grantCode, args.version) definition with
      | error error => exact ⟨h, .inr (.inl hcheck)⟩
      | ok document =>
        have hfree := Bool.not_eq_true _ ▸ hhas
        refine insertOne_leads ⟨(file, args.grantCode, args.version), document⟩ hfree
          (fun refusal hrefusal ↦ ⟨h, .inr (.inr ⟨refusal, hrefusal, rfl⟩)⟩) ?_
        exact h.snoc_added rfl hfree hread hcheck

/-- The files in turn: each is handled as it came to, or one stops the pass. -/
theorem storeEach_leads {reads : List (Read B)} (hreads : ∀ read ∈ reads, ReadOk answers read) :
    (storeEach check outside args reads).Leads base [] id fun
      | .ok outcomes, held, write => Progress check args answers base outcomes held write ∧
          ∃ came, came.map Prod.fst = reads.map Read.file ∧
            Handled check args answers (some outside) came ∧ List.Forall₂ Reports came outcomes
      | .error thrown, _, _ =>
          Halted check args answers (some outside) (reads.map Read.file) thrown := by
  refine inTurn_leads (P := fun done handled held write ↦
    Progress check args answers base handled held write ∧
      ∃ came, came.map Prod.fst = done.map Read.file ∧
        Handled check args answers (some outside) came ∧
        List.Forall₂ Reports came handled) ?_ (fun _ _ _ h ↦ h)
    ⟨⟨[], by simp, rfl, .nil, by simp, by simp⟩, [], rfl, .nil, .nil⟩
  rintro done read rest handled held write hitems ⟨hprogress, came, hcame, hhandled, hreports⟩
  have hread := hreads read (by rw [hitems]; simp)
  cases read with
  | failed outcome =>
    obtain ⟨error, herror, hreport⟩ := hread
    exact ⟨hprogress.snoc_failed hreport.of_error.1, came ++ [(outcome.file, .error error)],
      by simp [hcame, Read.file], hhandled.snoc_error (.inl herror) hreport.of_error.2,
      List.rel_append hreports (.cons hreport .nil)⟩
  | definition file definition =>
    dsimp only
    rw [Session.leads_bind]
    refine (storeFile_leads hprogress hread).mono fun result held write h ↦ ?_
    cases result with
    | error error => exact h.elim
    | ok result =>
      dsimp only
      rw [Session.leads_bind, Session.leads_orThrow]
      cases result with
      | ok =>
        have hreport : Reports (file, .ok ()) (.stored file) := rfl
        exact ⟨h, came ++ [(file, .ok ())], by simp [hcame, Read.file],
          hhandled.snoc_ok hread, List.rel_append hreports (.cons hreport .nil)⟩
      | error error =>
        obtain ⟨hprogress', hthrows⟩ := h
        have hfailed : FailedWith check args answers (some outside) file error :=
          .inr ⟨outside, rfl, definition, hread, hthrows⟩
        rcases settle_error (A := Unit) file handled error with
          ⟨outcome, hsettle, hreport⟩ | ⟨hreason, hsettle⟩
        · rw [hsettle]
          exact ⟨hprogress'.snoc_failed hreport.of_error.1, came ++ [(file, .error error)],
            by simp [hcame, Read.file], hhandled.snoc_error hfailed hreport.of_error.2,
            List.rel_append hreports (.cons hreport .nil)⟩
        · rw [hsettle]
          refine ⟨came, file, error, rest.map Read.file, ?_, hhandled, hfailed, hreason, ?_⟩
          · rw [hitems, hcame, List.map_append]
            rfl
          · rw [stopped, failures_eq hreports]

/-! ### The use cases together -/

/-- What the tasks rely on: a definition is stored once, and stays. -/
def rely (start : DefinitionStore G) : Rely DefinitionKey (DefinitionStore G) where
  inv s := (s.definitions.map StoredDefinition.key).Nodup ∧ start.definitions ⊆ s.definitions
  le s s' := s.definitions ⊆ s'.definitions
  agree key s s' := s.has key = s'.has key
  le_refl _ := List.Subset.refl _
  le_trans h h' := List.Subset.trans h h'
  agree_refl _ _ := rfl
  agree_trans h h' := h.trans h'

/-- What a fetch comes to, with the changes it has made, having seen what it `saw` and been answered
what it `asked`. -/
def Fetched (check : Check B G) (args : FetchArgs) (answers : Answers B)
    (start : DefinitionStore G) (saw : DefinitionStore G → Prop) (asked : Outside → Prop)
    (reply : FetchReply) (own : List (DefinitionStore G × DefinitionStore G)) : Prop :=
  own = [] ∧ (∃ error, reply = .error error ∧ answers.Refuses error) ∨
    ∃ missing, Missing args answers start saw missing ∧
      FetchEnd check args answers asked missing reply own

/-- A task promises nothing but to keep what the others rely on. -/
def promise : Promise (DefinitionStore G) Unit FetchReply :=
  ⟨fun _ _ ↦ True, fun _ _ _ ↦ True, fun _ _ ↦ True⟩

variable {start db : DefinitionStore G} {missing : List DefinitionType}
  {saw : DefinitionStore G → Prop} {asked : Outside → Prop}

theorem has_of_subset {s s' : DefinitionStore G} {key : DefinitionKey}
    (hle : s.definitions ⊆ s'.definitions) (h : s.has key = true) : s'.has key = true :=
  has_eq_true.mpr (List.map_subset _ hle (has_eq_true.mp h))

/-- Definitions whose keys were free on the snapshot, added to a state that agrees with it on
them. -/
theorem fine_of_entries (entries : List (StoredDefinition G)) {audits : List FetchAudit}
    (hinv : (rely start).inv db) (hnodup : (entries.map StoredDefinition.key).Nodup)
    (hfree : ∀ entry ∈ entries, db.has entry.key = false) :
    Fine (rely start) (fun _ _ ↦ True) db ⟨db.definitions ++ entries, audits⟩
      (entries.map StoredDefinition.key) where
  inv := by
    refine ⟨?_, List.Subset.trans hinv.2 (List.subset_append_left _ _)⟩
    rw [List.map_append, List.nodup_append]
    refine ⟨hinv.1, hnodup, ?_⟩
    rintro key hmem key' hmem' rfl
    obtain ⟨entry, hentry, rfl⟩ := List.mem_map.mp hmem'
    exact has_eq_false.mp (hfree entry hentry) hmem
  le := List.subset_append_left _ _
  frame key hkey := by
    change db.has key = DefinitionStore.has _ key
    rw [Bool.eq_iff_iff, has_eq_true, has_eq_true, List.map_append, List.mem_append]
    exact ⟨.inl, fun h ↦ h.resolve_right hkey⟩
  guar := trivial

/-- The pass that commits has stored what it reports. -/
theorem Progress.committed (h : Progress check args answers base outcomes held write)
    (hinv : (rely start).inv db) (hle : base.definitions ⊆ db.definitions)
    (hagree : ∀ key ∈ held, base.has key = db.has key) (hnodup : missing.Nodup)
    (hcame : came.map Prod.fst = missing)
    (hhandled : Handled check args answers (some outside) came)
    (hreports : List.Forall₂ Reports came outcomes) :
    let after := { write db with
      audits := (write db).audits ++ [⟨args, outcomes.map toAuditFile⟩] }
    Fine (rely start) (fun _ _ ↦ True) db after held ∧
      Committed check args answers outside missing outcomes db after := by
  obtain ⟨entries, hwrite, rfl, hkeys, hmade, hstored⟩ := h
  simp only [hwrite] at hstored ⊢
  have hfiles : outcomes.map FileOutcome.file = missing := by rw [files_eq hreports, hcame]
  refine ⟨fine_of_entries entries hinv hkeys fun entry hentry ↦ ?_, hfiles,
    ⟨came, hcame, hhandled, hreports⟩, fun file hfile ↦ ?_, fun outcome houtcome hfailed ↦ ?_,
    ⟨entries, rfl, fun entry hentry ↦ (hmade entry hentry).2⟩, rfl⟩
  · rw [← hagree _ (List.mem_map_of_mem hentry)]
    exact (hmade entry hentry).1
  · refine has_of_subset (fun entry hentry ↦ ?_) (hstored file hfile)
    exact List.mem_append.mpr ((List.mem_append.mp hentry).imp_left fun h ↦ hle h)
  · -- a file has one outcome
    have hnone : (outcome.file, args.grantCode, args.version) ∉
        entries.map StoredDefinition.key := by
      intro hmem
      obtain ⟨entry, hentry, hkey⟩ := List.mem_map.mp hmem
      obtain ⟨-, file, definition, hkey', hreported, -⟩ := hmade entry hentry
      obtain rfl : file = outcome.file := (Prod.mk.inj (hkey'.symm.trans hkey)).1
      have hsame : outcome = .stored outcome.file :=
        List.inj_on_of_nodup_map (hfiles ▸ hnodup) houtcome hreported rfl
      rw [hsame] at hfailed
      cases hfailed
    rw [Bool.eq_iff_iff, has_eq_true, has_eq_true, List.map_append, List.mem_append]
    exact ⟨fun h ↦ h.resolve_right hnone, .inl⟩

/-- The end of a pass: what it throws, or what it commits to a state that agrees with its snapshot
on what it has taken. -/
def PassEnd (check : Check B G) (args : FetchArgs) (answers : Answers B)
    (start : DefinitionStore G) (asked : Outside → Prop) (missing : List DefinitionType)
    (base : DefinitionStore G) (result : Except Thrown FetchReply) (held : List DefinitionKey)
    (write : DefinitionStore G → DefinitionStore G) : Prop :=
  match result with
  | .error error => FetchEnd check args answers asked missing (.error error) []
  | .ok reply => ∀ db, (rely start).inv db → (rely start).le base db →
      (∀ key ∈ held, base.has key = db.has key) →
      Fine (rely start) (fun _ _ ↦ True) db (write db) held ∧
        FetchEnd check args answers asked missing reply [(db, write db)]

/-- A pass of the transaction ends as its snapshot and what it is answered say. -/
theorem storeFetchedWithAudit_leads (start : DefinitionStore G) {reads : List (Read B)}
    (hreads : ∀ read ∈ reads, ReadOk answers read) (hnodup : (reads.map Read.file).Nodup) :
    (storeFetchedWithAudit check args reads).LeadsUnder asked base [] id
      (PassEnd check args answers start asked (reads.map Read.file) base) := by
  refine Session.leadsUnder_outside.mpr fun outside hasked ↦ Session.Leads.under ?_
  rw [Session.leads_bind]
  refine (storeEach_leads hreads).mono fun result held write h ↦ ?_
  cases result with
  | error thrown => exact .halted hasked h
  | ok outcomes =>
    obtain ⟨hprogress, came, hcame, hhandled, hreports⟩ := h
    dsimp only
    cases haudit : outside.writeAudit with
    | some error => exact .uncommitted hasked hcame hhandled (.inl haudit)
    | none =>
      dsimp only
      rw [Session.leads_bind, Session.leads_write]
      dsimp only
      have hcommitted : ∀ db, (rely start).inv db → (rely start).le base db →
          (∀ key ∈ held ++ [], base.has key = db.has key) →
          Fine (rely start) (fun _ _ ↦ True) db _ (held ++ []) ∧
            Committed check args answers outside (reads.map Read.file) outcomes db _ :=
        fun db hinv hle hagree ↦ by
          rw [List.append_nil] at hagree ⊢
          exact hprogress.committed hinv hle hagree hnodup hcame hhandled hreports
      unfold commit
      cases hcommit : outside.commit with
      | answered =>
        intro db hinv hle hagree
        obtain ⟨hfine, hdone⟩ := hcommitted db hinv hle hagree
        exact ⟨hfine, .fetched hasked hdone hcommit⟩
      | unanswered error =>
        intro db hinv hle hagree
        obtain ⟨hfine, hdone⟩ := hcommitted db hinv hle hagree
        exact ⟨hfine, .unanswered hasked hdone hcommit⟩
      | refused error => exact .uncommitted hasked hcame hhandled (.inr ⟨haudit, hcommit⟩)

/-! Each task keeps what the others rely on. -/

theorem storedByType_ok {next : List DefinitionType → FetchUseCase G} {files : List DefinitionType}
    (hnext : ∀ stored s, (next stored).Ok (rely start) promise [] s)
    (stored : List DefinitionType) (s : DefinitionStore G) :
    (storedByType args next files stored).Ok (rely start) promise [] s := by
  induction files generalizing stored s with
  | nil => exact hnext stored s
  | cons file files ih => exact fun db seen _ _ _ _ _ ↦ ih _ db

theorem fetchMissing_ok {types : List DefinitionType} (htypes : types.Nodup)
    (stored : List DefinitionType) (s : DefinitionStore G) :
    (fetchMissing check args answers types stored).Ok (rely start) promise [] s := by
  unfold fetchMissing
  cases answers.storedVersions with
  | error refusal => exact fun _ _ _ ↦ trivial
  | ok =>
    dsimp only
    have hspec := readEach_spec check args answers (types.filter (· ∉ stored))
    cases hread : readEach answers (types.filter (· ∉ stored)) with
    | error refusal => exact fun _ _ _ ↦ trivial
    | ok reads =>
      rw [hread] at hspec
      obtain ⟨hfiles, hok, -⟩ := hspec
      intro base _ _ _
      refine Session.Leads.mono ?_
        (storeFetchedWithAudit_leads start hok (hfiles ▸ htypes.filter _)).leads
      intro result held write hend db hinv hle
      cases result with
      | error error => exact fun _ _ _ ↦ trivial
      | ok reply => exact fun hagree ↦ ⟨(hend db hinv hle hagree).1, fun _ _ _ ↦ trivial⟩

theorem run_ok (request : DefinitionRequest B G) (s : DefinitionStore G) :
    (request.run check).Ok (rely start) promise [] s := by
  cases request with
  | fetch args answers =>
    change (fetchConfigDefinitions check args answers).Ok _ _ _ _
    unfold fetchConfigDefinitions
    cases answers.findVersion with
    | error refusal => exact fun _ _ _ ↦ trivial
    | ok row =>
      cases row with
      | none => exact fun _ _ _ ↦ trivial
      | some has =>
        exact storedByType_ok (fetchMissing_ok (List.Nodup.filter _ (by decide))) [] s
  | insert entry =>
    intro db hinv _
    refine ⟨?_, fun _ _ _ ↦ trivial⟩
    unfold insertDefinition
    by_cases hhas : db.has entry.key = true
    · rw [if_pos hhas]
      exact ⟨hinv, List.Subset.refl _, fun _ _ ↦ rfl, trivial⟩
    · rw [if_neg hhas]
      exact fine_of_entries [entry] hinv (List.nodup_singleton _)
        (by simpa using hhas)

/-! And a fetch comes to what it sees and is answered. -/

variable {w : World (DefinitionStore G) Unit Outside}

/-- The reads of what is stored tell the files that are stored, each in what its read sees. -/
theorem storedByType_yields {next : List DefinitionType → FetchUseCase G}
    {Q : FetchReply → List (DefinitionStore G × DefinitionStore G) → Prop}
    {files stored : List DefinitionType} (hfiles : files.Nodup)
    (hnext : ∀ seen : DefinitionType → DefinitionStore G,
      (∀ file ∈ files, w.shows (.looked (seen file)) ∧ (rely start).inv (seen file)) →
      ∀ s, (next (stored ++ files.filter fun file ↦
        (seen file).has (file, args.grantCode, args.version))).Yields (rely start) w Q [] s)
    (s : DefinitionStore G) :
    (storedByType args next files stored).Yields (rely start) w Q [] s := by
  induction files generalizing stored s with
  | nil =>
    have hall := hnext (fun _ ↦ s) (by simp) s
    rw [List.filter_nil, List.append_nil] at hall
    exact hall
  | cons file files ih =>
    obtain ⟨hfile, hrest⟩ := List.nodup_cons.mp hfiles
    intro db seen _ _ hinv _ _ hshown
    refine ih hrest (fun seen' hseen' s ↦ ?_) db
    have hlooked : ∀ other ∈ files, Function.update seen' file seen other = seen' other :=
      fun other hother ↦ Function.update_of_ne (ne_of_mem_of_not_mem hother hfile) _ _
    have hall := hnext (Function.update seen' file seen) (fun other hother ↦ by
      rcases List.mem_cons.mp hother with rfl | hother
      · rw [Function.update_self]
        exact ⟨hshown, hinv⟩
      · rw [hlooked other hother]
        exact hseen' other hother) s
    rw [List.filter_cons, Function.update_self, List.filter_congr (q := fun other ↦
      (seen' other).has (other, args.grantCode, args.version))
      (fun other hother ↦ by rw [hlooked other hother])] at hall
    split at hall
    · next hhas => simpa [hhas] using hall
    · next hhas => simpa [hhas] using hall

theorem fetchMissing_yields {types stored : List DefinitionType}
    (hmissing : Missing args answers start (fun seen ↦ w.shows (.looked seen))
      (types.filter (· ∉ stored))) (htypes : types.Nodup)
    (hread : answers.storedVersions = .ok ()) (s : DefinitionStore G) :
    (fetchMissing check args answers types stored).Yields (rely start) w
      (Fetched check args answers start (fun seen ↦ w.shows (.looked seen)) w.answers) [] s := by
  unfold fetchMissing
  rw [hread]
  dsimp only
  have hspec := readEach_spec check args answers (types.filter (· ∉ stored))
  cases hread : readEach answers (types.filter (· ∉ stored)) with
  | error refusal =>
    rw [hread] at hspec
    exact .inr ⟨_, hmissing, .unread hspec⟩
  | ok reads =>
    rw [hread] at hspec
    obtain ⟨hfiles, hok, -⟩ := hspec
    intro base _ _ _
    refine (storeFetchedWithAudit_leads start hok (hfiles ▸ htypes.filter _)).mono ?_
    intro result held write hend before db hbefore hle hagree _ _
    rw [hfiles] at hend
    cases result with
    | error error => exact .inr ⟨_, hmissing, hend⟩
    | ok reply => exact .inr ⟨_, hmissing, (hend before hbefore hle hagree).2⟩

theorem fetchConfigDefinitions_yields (s : DefinitionStore G) :
    (fetchConfigDefinitions check args answers).Yields (rely start) w
      (Fetched check args answers start (fun seen ↦ w.shows (.looked seen)) w.answers) [] s := by
  unfold fetchConfigDefinitions
  cases hversion : answers.findVersion with
  | error refusal => exact .inl ⟨rfl, refusal, rfl, .inl hversion⟩
  | ok row =>
    cases row with
    | none => exact .inl ⟨rfl, _, rfl, .inr (.inl ⟨hversion, rfl⟩)⟩
    | some has =>
      have htypes : (fileTypes.filter has).Nodup := List.Nodup.filter _ (by decide)
      refine storedByType_yields htypes (fun seen hseen s ↦ ?_) s
      have hmem : ∀ file ∈ fileTypes.filter has, (file ∈ [] ++ (fileTypes.filter has).filter
          (fun file ↦ (seen file).has (file, args.grantCode, args.version)) ↔
            (seen file).has (file, args.grantCode, args.version) = true) :=
        fun file hfile ↦ by rw [List.nil_append, List.mem_filter, and_iff_right hfile]
      cases hread : answers.storedVersions with
      | error refusal =>
        unfold fetchMissing
        rw [hread]
        exact .inl ⟨rfl, refusal, rfl, .inr (.inr ⟨has, hversion, hread⟩)⟩
      | ok =>
        refine fetchMissing_yields ⟨⟨has, hversion, hread, seen, fun file hfile ↦
          (hseen file hfile).1, ?_⟩, fun file hfile ↦ ?_⟩ htypes hread s
        · refine List.filter_congr fun file hfile ↦ ?_
          rw [Bool.eq_iff_iff, decide_eq_true_iff, hmem file hfile, Bool.not_eq_true,
            Bool.not_eq_true']
        · -- had it been stored at the start, its read would have seen it
          obtain ⟨hfile, hunstored⟩ := List.mem_filter.mp hfile
          rw [decide_eq_true_iff, hmem file hfile] at hunstored
          rw [← Bool.not_eq_true]
          exact fun hstart ↦ hunstored (has_of_subset (hseen file hfile).2.2 hstart)

/-- Any number of fetches and of tasks that store a definition by themselves, in any interleaving
and with any reruns of the transactions: no definition is stored twice. A fetch that succeeds
reports one outcome for each file it did not see stored, in their order, as it came to in the pass
that committed; a file reported stored is stored, one reported failed is not stored by this fetch.
A fetch that fails has stored nothing, unless the answer to its commit was lost; one that is stopped
by a file names the files that failed before it; and any other failure is one it met, of the
version, of the reads of what is stored, of the audit event or of the commit, and is passed on as it
is. -/
theorem definitions_fetched_once {T : Type} [DecidableEq T]
    (hstart : (start.definitions.map StoredDefinition.key).Nodup)
    (requests : T → DefinitionRequest B G) {ls : List (T × Store.Move Outside)}
    {s : System DefinitionKey (DefinitionStore G) Outside Thrown Unit FetchReply FetchReply T}
    (h : Run System.step anyStep (System.start start fun t ↦ (requests t).run check) ls s) :
    (s.db.definitions.map StoredDefinition.key).Nodup ∧
    ∀ t args answers reply, requests t = .fetch args answers →
      (s.threads t).result = some reply →
      Fetched check args answers start
        (fun seen ↦ Sighted (System.start start fun t ↦ (requests t).run check) ls s t
          (· = .looked seen))
        (fun outside ↦ (t, .ask outside) ∈ ls) reply (s.threads t).own := by
  have hinv : (rely start).inv start := ⟨hstart, List.Subset.refl _⟩
  have hsound : Sound (rely start) (fun _ ↦ promise) start s :=
    run_sound hinv (fun t ↦ run_ok (requests t) start)
      (run_admitted (p := fun _ ↦ promise) (fun _ _ _ ↦ trivial) h)
  refine ⟨hsound.inv.1, fun t args answers reply hrequest hreply ↦ ?_⟩
  let w : World (DefinitionStore G) Unit Outside :=
    { shows := fun x ↦ Sighted (System.start start fun t ↦ (requests t).run check) ls s t (· = x)
      answers := fun outside ↦ (t, .ask outside) ∈ ls }
  refine Sound.result_yields (p := fun _ ↦ promise) (w := w) hinv (fun _ _ _ ↦ trivial)
    (fun t ↦ run_ok (requests t) start) h (fun _ hx ↦ hx) (fun _ hd ↦ hd) ?_ hreply
  rw [hrequest]
  exact fetchConfigDefinitions_yields start

end

/-! ### Two runs -/

/-- The reads of a version that has a grant, which is not in S3, and an agreement, which is. -/
def woodlandAnswers : Answers String where
  findVersion := .ok (some fun file ↦ file ≠ .payment)
  storedVersions := .ok ()
  findConfigDefinition := fun _ ↦ .ok (some "woodland/2.0.0/gas/file.json")
  fetchConfigFile := fun file ↦
    if file = .grant then .error (.s3Fetch "NoSuchKey" "S3 object not found") else .ok "agreement"

/-- A fetch of that version. -/
def woodlandFetch : DefinitionRequest String String :=
  .fetch ⟨"woodland", "2.0.0", "fg-admin"⟩ woodlandAnswers

/-- Nothing is refused. -/
def accepting : Outside := ⟨fun _ ↦ none, fun _ ↦ none, none, .answered⟩

/-- The fetch beside a task that stores the agreement. -/
def woodlandTasks (fetching : Bool) : DefinitionRequest String String :=
  if fetching then woodlandFetch else .insert ⟨(.agreement, "woodland", "2.0.0"), "agreement"⟩

/-- The fetch is rerun, and meanwhile another task has stored the agreement: the grant is reported
missing and the agreement stored, and is stored once. -/
theorem woodland_fetched_once :
    let start : System DefinitionKey (DefinitionStore String) Outside Thrown Unit FetchReply
        FetchReply Bool := System.start ⟨[], []⟩ fun t ↦ (woodlandTasks t).run fun _ ↦ .ok
    let ls : List (Bool × Store.Move Outside) := [(true, .look 0), (true, .look 0), (true, .go),
      (true, .go), (true, .abort), (false, .go), (true, .go), (true, .ask accepting), (true, .go),
      (true, .go), (true, .go)]
    let files : List FileOutcome := [.failed .grant .missing none, .stored .agreement]
    ∃ s, exec System.step start ls = some s ∧ (s.threads true).result = some (.ok files) ∧
      (s.db.definitions.map StoredDefinition.key).Nodup ∧
      Fetched (fun _ ↦ .ok) ⟨"woodland", "2.0.0", "fg-admin"⟩ woodlandAnswers ⟨[], []⟩
        (fun seen ↦ Sighted start ls s true (· = .looked seen))
        (fun outside ↦ (true, .ask outside) ∈ ls) (.ok files) (s.threads true).own := by
  intro start ls files
  have hexec : (exec System.step start ls).map (fun s ↦ (s.threads true).result) =
      some (some (.ok files)) := by rfl
  obtain ⟨s, hs, hresult⟩ := Option.map_eq_some_iff.mp hexec
  have hstart : ((⟨[], []⟩ : DefinitionStore String).definitions.map
      StoredDefinition.key).Nodup := List.nodup_nil
  obtain ⟨hnodup, hfetched⟩ := definitions_fetched_once hstart woodlandTasks (Run.of_exec hs)
  exact ⟨s, hs, hresult, hnodup, hfetched true _ _ _ rfl hresult⟩

/-- The grant is not in S3, and the insert of the agreement fails with a transient error that the
driver has no time left for: the error that the fetch fails with does not name the grant. -/
theorem transient_error_names_no_file :
    ¬ ∀ (request : DefinitionRequest String String) (ls : List (Unit × Store.Move Outside))
      (s : System DefinitionKey (DefinitionStore String) Outside Thrown Unit FetchReply FetchReply
        Unit),
      Run System.step anyStep (System.start ⟨[], []⟩ fun _ ↦ request.run fun _ ↦ .ok) ls s →
      ∀ args answers thrown, request = .fetch args answers →
        (s.threads ()).result = some (.error thrown) →
        ∀ missing came file error rest outside,
          Missing args answers ⟨[], []⟩ (fun seen ↦ Sighted
            (System.start ⟨[], []⟩ fun _ ↦ request.run fun _ ↦ .ok) ls s () (· = .looked seen))
            missing →
          missing = came.map Prod.fst ++ file :: rest → ((), .ask outside) ∈ ls →
          Handled (fun _ ↦ .ok) args answers (some outside) came →
          FailedWith (fun _ ↦ .ok) args answers (some outside) file error →
          reasonOf error = none → thrown.files = came.filterMap failureOf := by
  intro h
  let conflict : DriverError := ⟨true, false, "WriteConflict"⟩
  let refusing : Outside := { accepting with insertOne := fun _ ↦ some conflict }
  let ls : List (Unit × Store.Move Outside) :=
    [((), .look 0), ((), .look 0), ((), .go), ((), .go), ((), .ask refusing), ((), .go), ((), .go)]
  have hexec : (exec System.step (System.start ⟨[], []⟩ fun _ : Unit ↦
      woodlandFetch.run fun _ ↦ .ok) ls).map (fun s ↦ (s.threads ()).result) =
        some (some (.error (.driver conflict))) := by rfl
  obtain ⟨s, hs, hresult⟩ := Option.map_eq_some_iff.mp hexec
  have hlooked : Sighted (System.start ⟨[], []⟩ fun _ ↦ woodlandFetch.run fun _ ↦ .ok) ls s ()
      (· = .looked ⟨[], []⟩) :=
    ⟨[], .look 0, ls.tail, _, _, rfl, .nil, ⟨_, rfl, rfl⟩, rfl, Run.of_exec hs⟩
  have hmissing : Missing ⟨"woodland", "2.0.0", "fg-admin"⟩ woodlandAnswers ⟨[], []⟩
      (fun seen ↦ Sighted (System.start ⟨[], []⟩ fun _ ↦ woodlandFetch.run fun _ ↦ .ok) ls s ()
        (· = .looked seen)) [.grant, .agreement] :=
    ⟨⟨fun file ↦ file ≠ .payment, rfl, rfl, fun _ ↦ ⟨[], []⟩, fun _ _ ↦ hlooked, rfl⟩,
      fun _ _ ↦ rfl⟩
  have hfiles := h woodlandFetch ls s (Run.of_exec hs) _ _ _ rfl hresult _
    [(.grant, .error (.s3Fetch "NoSuchKey" "S3 object not found"))] .agreement (.driver conflict) []
    refusing hmissing rfl (by simp [ls]) ⟨by simp, ?_⟩ ?_ rfl
  · cases hfiles
  · rintro file error hmem
    obtain ⟨rfl, ⟨⟩⟩ := Prod.mk.inj (List.mem_singleton.mp hmem)
    exact ⟨.inl rfl, rfl⟩
  · exact .inr ⟨refusing, rfl, "agreement", rfl, .inr (.inr ⟨conflict, rfl, rfl⟩)⟩

end FgGas.Grants.FetchDefinitions
