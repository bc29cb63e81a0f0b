import Mathlib.Data.List.Nodup
import FgGas.Agreements.Creation

/-!
# One agreement per application

In every interleaving of creations an application has one agreement, in version 1 and stored
with its version, publications and audit event once, and agreement numbers are distinct. A
call that lost to another looks for the winner in a read that is not bound to the primary:
where that read is served a state without the winner, the call succeeds with nothing.
-/

namespace FgGas.Agreements.Creation

open Machine Store

variable {V : Type}

/-- The application an agreement is for. -/
def sourceIdentity (a : Agreement V) : String × String := (a.code, a.clientRef)

/-- The application a call is for. -/
def CreationInput.sourceIdentity (input : CreationInput) : String × String :=
  (input.code, input.clientRef)

/-- The agreement numbers in use. -/
def CreationStore.numbers (s : CreationStore V) : List String :=
  s.agreements.map (·.agreementNumber)

/-- The applications that have an agreement. -/
def CreationStore.sources (s : CreationStore V) : List (String × String) :=
  s.agreements.map sourceIdentity

/-- What every committed state satisfies: the unique indexes, and no version, publication or
audit event of an agreement that is not stored. -/
structure Registry (s : CreationStore V) : Prop where
  numbers : s.numbers.Nodup
  sources : s.sources.Nodup
  versions : ∀ v ∈ s.versions, v.agreementNumber ∈ s.numbers
  outbox : ∀ q ∈ s.outbox, q.agreementNumber ∈ s.numbers
  audits : ∀ x ∈ s.audits, x.agreementNumber ∈ s.numbers

/-- The state with one more agreement and what its creation stores with it. -/
def CreationStore.create (s : CreationStore V) (a : Agreement V) : CreationStore V where
  agreements := s.agreements ++ [a]
  versions := s.versions ++ [AgreementVersion.create a a.createdAt]
  outbox := s.outbox ++ creationPublications a
  audits := s.audits ++ [buildAgreementCreationAudit a]

/-- The agreement is in its first version, and all that is stored under its number is what
one creation stores. -/
structure CreatedOnce (a : Agreement V) (s : CreationStore V) : Prop where
  version : a.version = 1
  versions : s.versions.filter (·.agreementNumber = a.agreementNumber) =
    [AgreementVersion.create a a.createdAt]
  outbox : s.outbox.filter (·.agreementNumber = a.agreementNumber) = creationPublications a
  audits : s.audits.filter (·.agreementNumber = a.agreementNumber) =
    [buildAgreementCreationAudit a]

@[simp] theorem numbers_create (s : CreationStore V) (a : Agreement V) :
    (s.create a).numbers = s.numbers ++ [a.agreementNumber] := by
  simp [CreationStore.numbers, CreationStore.create]

@[simp] theorem sources_create (s : CreationStore V) (a : Agreement V) :
    (s.create a).sources = s.sources ++ [sourceIdentity a] := by
  simp [CreationStore.sources, CreationStore.create]

/-- Every publication of a creation carries the number of the agreement. -/
theorem agreementNumber_creationPublications {a : Agreement V} {q : Publication V}
    (hq : q ∈ creationPublications a) : q.agreementNumber = a.agreementNumber := by
  simp only [creationPublications, List.mem_cons, List.not_mem_nil, or_false] at hq
  rcases hq with rfl | rfl | rfl <;> rfl

/-- The collections as the migrations leave them. -/
theorem registry_empty : Registry (⟨[], [], [], []⟩ : CreationStore V) :=
  ⟨List.nodup_nil, List.nodup_nil, by simp, by simp, by simp⟩

/-- A creation under a new number for a new application keeps the registry. -/
theorem Registry.create {s : CreationStore V} (h : Registry s) {a : Agreement V}
    (hnumber : a.agreementNumber ∉ s.numbers) (hsource : sourceIdentity a ∉ s.sources) :
    Registry (s.create a) := by
  have hkeep : ∀ n ∈ s.numbers, n ∈ (s.create a).numbers := fun n hn ↦ by
    rw [numbers_create]
    exact List.mem_append_left _ hn
  have hnew : a.agreementNumber ∈ (s.create a).numbers := by simp
  refine ⟨?_, ?_, ?_, ?_, ?_⟩
  · rw [numbers_create]
    exact List.nodup_append.mpr ⟨h.numbers, List.nodup_singleton _,
      fun n hn m hm ↦ by rintro rfl; exact hnumber (List.mem_singleton.mp hm ▸ hn)⟩
  · rw [sources_create]
    exact List.nodup_append.mpr ⟨h.sources, List.nodup_singleton _,
      fun n hn m hm ↦ by rintro rfl; exact hsource (List.mem_singleton.mp hm ▸ hn)⟩
  · intro v hv
    rcases List.mem_append.mp hv with hv | hv
    · exact hkeep _ (h.versions v hv)
    · rw [List.mem_singleton.mp hv]
      exact hnew
  · intro q hq
    rcases List.mem_append.mp hq with hq | hq
    · exact hkeep _ (h.outbox q hq)
    · rw [agreementNumber_creationPublications hq]
      exact hnew
  · intro x hx
    rcases List.mem_append.mp hx with hx | hx
    · exact hkeep _ (h.audits x hx)
    · rw [List.mem_singleton.mp hx]
      exact hnew

/-- What a creation stores is stored once: nothing was stored under the number before. -/
theorem Registry.createdOnce {s : CreationStore V} (h : Registry s) {a : Agreement V}
    (hversion : a.version = 1) (hnumber : a.agreementNumber ∉ s.numbers) :
    CreatedOnce a (s.create a) := by
  have hnone : ∀ {X : Type} (l : List X) (number : X → String),
      (∀ x ∈ l, number x ∈ s.numbers) → l.filter (fun x ↦ number x = a.agreementNumber) = [] := by
    intro X l number hl
    refine List.filter_eq_nil_iff.mpr fun x hx he ↦ hnumber ?_
    rw [← of_decide_eq_true he]
    exact hl x hx
  refine ⟨hversion, ?_, ?_, ?_⟩
  · rw [CreationStore.create, List.filter_append, hnone _ _ h.versions]
    simp [AgreementVersion.create]
  · rw [CreationStore.create, List.filter_append, hnone _ _ h.outbox, List.nil_append]
    exact List.filter_eq_self.mpr fun q hq ↦ by simp [agreementNumber_creationPublications hq]
  · rw [CreationStore.create, List.filter_append, hnone _ _ h.audits]
    simp [buildAgreementCreationAudit]

/-- A creation under another number leaves what a creation has stored. -/
theorem CreatedOnce.create {s : CreationStore V} {a b : Agreement V} (h : CreatedOnce a s)
    (hne : b.agreementNumber ≠ a.agreementNumber) : CreatedOnce a (s.create b) := by
  refine ⟨h.version, ?_, ?_, ?_⟩
  · rw [CreationStore.create, List.filter_append, h.versions]
    simp [AgreementVersion.create, hne]
  · rw [CreationStore.create, List.filter_append, h.outbox]
    have hnil : (creationPublications b).filter (·.agreementNumber = a.agreementNumber) = [] :=
      List.filter_eq_nil_iff.mpr fun q hq ↦ by simp [agreementNumber_creationPublications hq, hne]
    rw [hnil, List.append_nil]
  · rw [CreationStore.create, List.filter_append, h.audits]
    simp [buildAgreementCreationAudit, hne]

/-! ### One attempt -/

/-- How the transaction of an attempt ends on a snapshot: with the agreement and all its
creation stores, on a number or an application in use, or refused. -/
inductive Outcome (a : Agreement V) (base : CreationStore V) :
    Except CreationFailure (Agreement V) → List CreationKey →
      (CreationStore V → CreationStore V) → Prop
  | created {held : List CreationKey} {write : CreationStore V → CreationStore V}
      (hnumber : a.agreementNumber ∉ base.numbers) (hsource : sourceIdentity a ∉ base.sources)
      (hheld : ∀ key ∈ [CreationKey.agreementNumber a.agreementNumber,
        .sourceIdentity a.code a.clientRef, .version a.agreementNumber a.version], key ∈ held)
      (hwrite : ∀ s, write s = s.create a) : Outcome a base (.ok a) held write
  | numberTaken : Outcome a base (.error (.duplicateKey .agreementNumber)) [] id
  | sourceTaken (hsource : sourceIdentity a ∈ base.sources) :
      Outcome a base (.error (.duplicateKey .sourceIdentity)) [] id
  | refused {text : String} {held : List CreationKey}
      {write : CreationStore V → CreationStore V} : Outcome a base (.error (.error text)) held write

/-- What an insert finds of the indexes of the agreements. -/
theorem violatedByAgreement_cases (a : Agreement V) (s : CreationStore V) :
    violatedByAgreement a s = some (.duplicateKey .agreementNumber) ∨
    (violatedByAgreement a s = some (.duplicateKey .sourceIdentity) ∧
      sourceIdentity a ∈ s.sources) ∨
    (violatedByAgreement a s = none ∧ a.agreementNumber ∉ s.numbers ∧
      sourceIdentity a ∉ s.sources) := by
  unfold violatedByAgreement
  split
  · exact .inl rfl
  · next hnumber =>
    split
    · next hsource =>
      obtain ⟨b, hb, he⟩ := List.any_eq_true.mp hsource
      obtain ⟨hcode, href⟩ := of_decide_eq_true he
      refine .inr (.inl ⟨rfl, List.mem_map.mpr ⟨b, hb, ?_⟩⟩)
      rw [sourceIdentity, sourceIdentity, hcode, href]
    · next hsource =>
      refine .inr (.inr ⟨rfl, fun hmem ↦ hnumber ?_, fun hmem ↦ hsource ?_⟩)
      · obtain ⟨b, hb, he⟩ := List.mem_map.mp hmem
        exact List.any_eq_true.mpr ⟨b, hb, decide_eq_true he⟩
      · obtain ⟨b, hb, he⟩ := List.mem_map.mp hmem
        exact List.any_eq_true.mpr ⟨b, hb, decide_eq_true (Prod.mk.inj he)⟩

/-- The version of an agreement that is not stored is not stored either. -/
theorem violatedByVersion_eq_none {s : CreationStore V} (h : Registry s) {v : AgreementVersion V}
    (hv : v.agreementNumber ∉ s.numbers) : violatedByVersion v s = none := by
  refine if_neg fun hany ↦ hv ?_
  obtain ⟨w, hw, he⟩ := List.any_eq_true.mp hany
  rw [← (of_decide_eq_true he).1]
  exact h.versions w hw

theorem persistAgreement_outcome (a : Agreement V) {base : CreationStore V}
    (hb : Registry base) : (persistAgreement a).Leads base [] id (Outcome a base) := by
  simp only [persistAgreement, insertCurrentAgreement, insertAgreementVersion,
    Session.leads_bind, Session.leads_insert, id]
  rcases violatedByAgreement_cases a base with h | ⟨h, hsource⟩ | ⟨h, hnumber, hsource⟩
  · simp only [h]
    exact .numberTaken
  · simp only [h]
    exact .sourceTaken hsource
  · have hversion : violatedByVersion (AgreementVersion.create a a.createdAt)
        { base with agreements := base.agreements ++ [a] } = none :=
      violatedByVersion_eq_none hb (v := AgreementVersion.create a a.createdAt) hnumber
    simp only [h, Function.comp_apply, id, hversion, Session.leads_outside]
    intro outside
    simp only [saveEvents, writeAuditEvent, Session.leads_bind, Session.leads_orThrow]
    cases outside.publications with
    | error text => exact .refused
    | ok _ =>
      simp only [Except.mapError, Session.leads_write]
      cases outside.audit with
      | error text => exact .refused
      | ok _ =>
        refine .created hnumber hsource ?_ fun s ↦ rfl
        simp [AgreementVersion.create]

/-! ### One call -/

/-- The calls keep the registry, what was stored once stays so, and who leaves a unique
index entry alone leaves alone whether it is in use. -/
def creationRely (s₀ : CreationStore V) : Rely CreationKey (CreationStore V) where
  inv s := Registry s ∧ ∀ a ∈ s.agreements, a ∈ s₀.agreements ∨ CreatedOnce a s
  le s s' := s.agreements <+: s'.agreements
  agree key s s' := match key with
    | .agreementNumber n => n ∈ s.numbers ↔ n ∈ s'.numbers
    | .sourceIdentity code clientRef =>
        (code, clientRef) ∈ s.sources ↔ (code, clientRef) ∈ s'.sources
    | .version n version => (n, version) ∈ s.versions.map (fun v ↦ (v.agreementNumber, v.version)) ↔
        (n, version) ∈ s'.versions.map fun v ↦ (v.agreementNumber, v.version)
  le_refl _ := List.prefix_rfl
  le_trans h h' := h.trans h'
  agree_refl key _ := by cases key <;> exact Iff.rfl
  agree_trans {key} _ _ _ h h' := by cases key <;> exact h.trans h'

/-- A change is the creation of the agreement the call has built, under some number. -/
def Creates (request : CreationRequest V) (before after : CreationStore V) : Prop :=
  ∃ definition built number, request.agreement = .ok (definition, built) ∧
    after = before.create (built.withAgreementNumber number)

/-- How a call may end: with a stored agreement of its application, which it has created
itself or which it has stored nothing beside; with nothing, though its application has an
agreement; or with an error, having stored nothing. -/
def EndsWell (request : CreationRequest V) :
    Created V → List (CreationStore V × CreationStore V) → CreationStore V → Prop
  | .ok (some a), own, db => a ∈ db.agreements ∧ sourceIdentity a = request.input.sourceIdentity ∧
      (own = [] ∨ ∃ before, own = [(before, before.create a)])
  | .ok none, own, db => own = [] ∧ request.input.sourceIdentity ∈ db.sources
  | .error _, own, _ => own = []

/-- What a call promises. -/
def creationPromise (request : CreationRequest V) :
    Promise (CreationStore V) Unit (Created V) where
  guar := Creates request
  post := EndsWell request
  allow _ _ := True

/-- The definition builds an agreement of the input's application, in its first version. -/
theorem createAgreement_eq_ok {definition : Definition V} {input : CreationInput}
    {execution : Execution} {suffix : Nat} {a : Agreement V}
    (h : definition.createAgreement input execution suffix = .ok a) :
    sourceIdentity a = input.sourceIdentity ∧ a.version = 1 := by
  unfold Definition.createAgreement at h
  split at h
  · cases h
  · next hcode =>
    split at h
    · cases h
    · cases hvalues : definition.values <;>
        cases hnumber : generateAgreementNumber definition.agreementNumberPrefix suffix <;>
        simp only [hvalues, hnumber, Except.mapError, bind, Except.bind, pure, Except.pure,
          reduceCtorEq, Except.ok.injEq] at h
      subst h
      rw [sourceIdentity, CreationInput.sourceIdentity, not_not.mp hcode]
      exact ⟨rfl, rfl⟩

theorem agreement_eq_ok {request : CreationRequest V} {definition : Definition V}
    {built : Agreement V} (h : request.agreement = .ok (definition, built)) :
    sourceIdentity built = request.input.sourceIdentity ∧ built.version = 1 := by
  unfold CreationRequest.agreement at h
  cases hdefinition : request.definition with
  | error text =>
    rw [hdefinition] at h
    cases h
  | ok loaded =>
    rw [hdefinition] at h
    cases hcreate : loaded.createAgreement request.input request.execution request.suffix <;>
      simp only [Except.mapError, bind, Except.bind, hcreate, pure, Except.pure, reduceCtorEq,
        Except.ok.injEq, Prod.mk.injEq] at h
    obtain ⟨rfl, rfl⟩ := h
    exact createAgreement_eq_ok hcreate

/-- A number is drawn unless the definition has no prefix. -/
theorem generateAgreementNumber_cases (agreementNumberPrefix : String) (suffix : Nat) :
    generateAgreementNumber agreementNumberPrefix suffix =
      .error (.error "Agreement number prefix is required") ∨
    ∃ agreementNumber, generateAgreementNumber agreementNumberPrefix suffix =
      .ok agreementNumber := by
  unfold generateAgreementNumber
  split
  · exact .inl rfl
  · exact .inr ⟨_, rfl⟩

/-- What goes wrong before an agreement is built is not a lost race. -/
theorem agreement_eq_error {request : CreationRequest V} {error : CreationFailure}
    (h : request.agreement = .error error) : isSourceIdentityConflict error = false := by
  unfold CreationRequest.agreement at h
  cases hdefinition : request.definition with
  | error text =>
    rw [hdefinition] at h
    cases h
    rfl
  | ok loaded =>
    rw [hdefinition] at h
    cases hcreate : loaded.createAgreement request.input request.execution request.suffix <;>
      simp only [Except.mapError, bind, Except.bind, hcreate, pure, Except.pure, reduceCtorEq,
        Except.error.injEq] at h
    subst h
    unfold Definition.createAgreement at hcreate
    split at hcreate
    · cases hcreate
      rfl
    · split at hcreate
      · cases hcreate
        rfl
      · rcases generateAgreementNumber_cases loaded.agreementNumberPrefix request.suffix with
          hnumber | ⟨_, hnumber⟩ <;>
        cases hvalues : loaded.values <;>
        simp only [hvalues, hnumber, Except.mapError, bind, Except.bind, pure, Except.pure,
          reduceCtorEq, Except.error.injEq] at hcreate <;>
        exact hcreate ▸ rfl

section
variable {s₀ : CreationStore V}

/-- A creation changes the use of no index entry but its own. -/
theorem agree_create (s : CreationStore V) (a : Agreement V) {key : CreationKey}
    (hkey : key ∉ [CreationKey.agreementNumber a.agreementNumber,
      .sourceIdentity a.code a.clientRef, .version a.agreementNumber a.version]) :
    (creationRely s₀).agree key s (s.create a) := by
  simp only [List.mem_cons, List.not_mem_nil, or_false, not_or] at hkey
  obtain ⟨hnumber, hsource, hversion⟩ := hkey
  cases key with
  | agreementNumber n =>
    have hne : n ≠ a.agreementNumber := fun he ↦ hnumber (he ▸ rfl)
    simp [creationRely, hne]
  | sourceIdentity code clientRef =>
    have hne : (code, clientRef) ≠ sourceIdentity a := by
      rintro he
      obtain ⟨rfl, rfl⟩ := Prod.mk.inj he
      exact hsource rfl
    simp [creationRely, hne]
  | version n version =>
    have hne : (n, version) ≠ (a.agreementNumber, a.version) := by
      rintro he
      obtain ⟨rfl, rfl⟩ := Prod.mk.inj he
      exact hversion rfl
    simp only [creationRely, CreationStore.create, List.map_append, List.map_cons, List.map_nil,
      AgreementVersion.create, List.mem_append, List.mem_singleton, hne, or_false]

/-- A creation under a new number for a new application keeps what the calls rely on. -/
theorem inv_create {s : CreationStore V} (h : (creationRely s₀).inv s) {a : Agreement V}
    (hversion : a.version = 1) (hnumber : a.agreementNumber ∉ s.numbers)
    (hsource : sourceIdentity a ∉ s.sources) : (creationRely s₀).inv (s.create a) := by
  obtain ⟨hregistry, honce⟩ := h
  refine ⟨hregistry.create hnumber hsource, fun b hb ↦ ?_⟩
  rcases List.mem_append.mp hb with hb | hb
  · refine (honce b hb).imp_right fun hcreated ↦ hcreated.create fun he ↦ hnumber ?_
    rw [he]
    exact List.mem_map_of_mem hb
  · rw [List.mem_singleton.mp hb]
    exact .inr (hregistry.createdOnce hversion hnumber)

/-- The application of a state keeps its agreement. -/
theorem sources_mono {s s' : CreationStore V} (h : (creationRely s₀).le s s')
    {source : String × String} (hs : source ∈ s.sources) : source ∈ s'.sources :=
  (h.map sourceIdentity).subset hs

theorem findAgreementBySourceIdentity_eq_some {code clientRef : String} {s : CreationStore V}
    {a : Agreement V} (h : findAgreementBySourceIdentity code clientRef s = some a) :
    a ∈ s.agreements ∧ sourceIdentity a = (code, clientRef) := by
  have hkey := List.find?_some h
  obtain ⟨hcode, href⟩ := of_decide_eq_true hkey
  exact ⟨List.mem_of_find?_eq_some h, by rw [sourceIdentity, hcode, href]⟩

variable {request : CreationRequest V}

theorem ret_found {own : List (CreationStore V × CreationStore V)} {s : CreationStore V}
    {a : Agreement V} (ha : a ∈ s.agreements)
    (hsource : sourceIdentity a = request.input.sourceIdentity)
    (hown : own = [] ∨ ∃ before, own = [(before, before.create a)]) :
    (UseCase.ret (.ok (some a)) : CreationUseCase V).Ok (creationRely s₀)
      (creationPromise request) own s :=
  fun _ _ hle ↦ ⟨hle.subset ha, hsource, hown⟩

theorem ret_failed {s : CreationStore V} (error : CreationFailure) :
    (UseCase.ret (.error error) : CreationUseCase V).Ok (creationRely s₀)
      (creationPromise request) [] s :=
  fun _ _ _ ↦ rfl

/-- A call that has lost its application to another ends well. -/
theorem recoverAgreement_ok {s : CreationStore V}
    (hsource : request.input.sourceIdentity ∈ s.sources) :
    (recoverAgreement (V := V) request.input (.error (.duplicateKey .sourceIdentity))).Ok
      (creationRely s₀) (creationPromise request) [] s := by
  intro db seen _ hle _ hseen _
  cases hfind : findAgreementBySourceIdentity request.input.code request.input.clientRef seen with
  | none =>
    simp only [hfind]
    exact fun _ _ hle' ↦ ⟨rfl, sources_mono hle' (sources_mono hle hsource)⟩
  | some a =>
    obtain ⟨ha, he⟩ := findAgreementBySourceIdentity_eq_some hfind
    simp only [hfind]
    exact ret_found (hseen.subset ha) he (.inl rfl)

/-- The loop is in order: an attempt creates the agreement under the number of its
candidate, which differs from the agreement built in that alone. -/
theorem persistWithAgreementNumberRetry_ok {definition : Definition V} {built : Agreement V}
    (hbuilt : request.agreement = .ok (definition, built)) (attempts : Nat) (number : String)
    (s : CreationStore V) :
    (persistWithAgreementNumberRetry definition (recoverAgreement request.input) attempts
      (built.withAgreementNumber number)).Ok (creationRely s₀) (creationPromise request) [] s := by
  obtain ⟨hsource, hversion⟩ := agreement_eq_ok hbuilt
  induction attempts generalizing number s with
  | zero => exact ret_failed _
  | succ attempts ih =>
    intro outside
    dsimp only
    split
    · exact ret_failed _
    intro base hbase _ _
    refine (persistAgreement_outcome (built.withAgreementNumber number) hbase.1).mono ?_
    intro result held write houtcome db hdb hle
    cases houtcome with
    | created hnumber hunused hheld hwrite =>
      intro hagree
      have hnumber' : number ∉ db.numbers := fun hmem ↦
        hnumber ((hagree _ (hheld _ List.mem_cons_self)).mpr hmem)
      have hunused' : sourceIdentity built ∉ db.sources := fun hmem ↦
        hunused ((hagree _ (hheld _ (List.mem_cons_of_mem _ List.mem_cons_self))).mpr hmem)
      rw [hwrite]
      refine ⟨⟨inv_create hdb hversion hnumber' hunused', List.prefix_append _ _,
        fun key hkey ↦ agree_create _ _ fun hmem ↦ hkey (hheld key hmem),
        ⟨definition, built, number, hbuilt, rfl⟩⟩, ?_⟩
      exact ret_found (List.mem_append_right _ (List.mem_singleton.mpr rfl)) hsource
        (.inr ⟨db, rfl⟩)
    | numberTaken =>
      intro outside
      dsimp only
      rcases generateAgreementNumber_cases definition.agreementNumberPrefix outside.suffix with
        h | ⟨agreementNumber, h⟩
      · simp only [h]
        exact ret_failed _
      · simp only [h]
        exact ih agreementNumber db
    | sourceTaken htaken =>
      exact recoverAgreement_ok (sources_mono hle (hsource ▸ htaken))
    | refused => exact ret_failed _

/-- A call is in order by itself. -/
theorem create_ok (request : CreationRequest V) (s : CreationStore V) :
    request.create.Ok (creationRely s₀) (creationPromise request) [] s := by
  intro db seen _ _ _ hseen _
  cases hfind : findAgreementBySourceIdentity request.input.code request.input.clientRef seen with
  | some existing =>
    obtain ⟨ha, he⟩ := findAgreementBySourceIdentity_eq_some hfind
    simp only [hfind]
    exact ret_found (hseen.subset ha) he (.inl rfl)
  | none =>
    simp only [hfind]
    cases hbuilt : request.agreement with
    | error error =>
      simp only [recoverAgreement, agreement_eq_error hbuilt, Bool.not_false, if_true]
      exact ret_failed error
    | ok result =>
      exact persistWithAgreementNumberRetry_ok hbuilt _ result.2.agreementNumber db

end

/-! ### The read after a lost race -/

/-- The use case returns what this read finds, found or not. -/
def isRecovery (next : CreationStore V → CreationUseCase V) : Bool :=
  match next ⟨[], [], [], []⟩ with
  | .ret (.ok _) => true
  | _ => false

/-- If the read is the one for the winner, it is served a state that has the winner. -/
def recoverySees (input : CreationInput) (next : CreationStore V → CreationUseCase V)
    (seen : CreationStore V) : Prop :=
  isRecovery next = true → input.sourceIdentity ∈ seen.sources

instance (input : CreationInput) (next : CreationStore V → CreationUseCase V)
    (seen : CreationStore V) : Decidable (recoverySees input next seen) :=
  inferInstanceAs (Decidable (isRecovery next = true → _))

/-- With the winner in sight a call does not succeed with nothing. -/
theorem recoverAgreement_returns (input : CreationInput)
    (result : Except CreationFailure (Agreement V)) :
    (recoverAgreement input result).Returns (recoverySees input) (· ≠ .ok none) := by
  cases result with
  | ok agreement => exact fun h ↦ by cases h
  | error error =>
    dsimp only [recoverAgreement]
    split
    · exact fun h ↦ by cases h
    · intro seen hsees hnone
      obtain ⟨a, ha, he⟩ := List.mem_map.mp (hsees rfl)
      have hfind := List.find?_eq_none.mp (Except.ok.inj hnone) a ha
      obtain ⟨hcode, href⟩ := Prod.mk.inj he
      exact hfind (decide_eq_true ⟨hcode, href⟩)

theorem persistWithAgreementNumberRetry_returns (definition : Definition V)
    (input : CreationInput) (attempts : Nat) (candidate : Agreement V) :
    (persistWithAgreementNumberRetry definition (recoverAgreement input) attempts
      candidate).Returns (recoverySees input) (· ≠ .ok none) := by
  induction attempts generalizing candidate with
  | zero => exact recoverAgreement_returns input _
  | succ attempts ih =>
    intro outside
    dsimp only
    split
    · exact recoverAgreement_returns input _
    intro result
    cases result with
    | ok a => exact recoverAgreement_returns input _
    | error error =>
      dsimp only
      split
      · exact recoverAgreement_returns input _
      · intro outside
        dsimp only
        split
        · exact recoverAgreement_returns input _
        · exact ih _

/-- With the winner in sight a call does not succeed with nothing. -/
theorem create_returns (request : CreationRequest V) :
    request.create.Returns (recoverySees request.input) (· ≠ .ok none) := by
  intro seen _
  dsimp only
  split
  · exact recoverAgreement_returns _ _
  · split
    · exact recoverAgreement_returns _ _
    · exact persistWithAgreementNumberRetry_returns _ _ _ _

/-- Any number of creations, concurrent or replayed, in any interleaving in which a call that
lost its application sees the winner: agreement numbers and applications are distinct; an
agreement that was not there before is in version 1, and its version, publications and audit
event are stored once; each change of the store is a creation of the agreement the call has
built, but for the number; and a call that succeeds returns the agreement of its
application, beside which it stores nothing. -/
theorem agreement_created_once {T : Type} [DecidableEq T] {s₀ : CreationStore V}
    (hs₀ : Registry s₀) (requests : T → CreationRequest V)
    {ls : List (T × Move CreationOutside)}
    {s : System CreationKey (CreationStore V) CreationOutside CreationFailure Unit (Agreement V)
      (Created V) T}
    (h : Run System.step (fun s l ↦ s.sees (fun t ↦ recoverySees (requests t).input) l)
      (System.start s₀ fun t ↦ (requests t).create) ls s) :
    s.db.sources.Nodup ∧
    s.db.numbers.Nodup ∧
    (∀ a ∈ s.db.agreements, a ∈ s₀.agreements ∨ CreatedOnce a s.db) ∧
    (∀ c ∈ s.log, Creates (requests c.thread) c.before c.after) ∧
    s.log.map Change.before ++ [s.db] = s₀ :: s.log.map Change.after ∧
    ∀ t result, (s.threads t).result = some (.ok result) →
      ∃ a, result = some a ∧ a ∈ s.db.agreements ∧
        (∀ b ∈ s.db.agreements, sourceIdentity b = (requests t).input.sourceIdentity ↔ b = a) ∧
        ((s.threads t).own = [] ∨ ∃ before, (s.threads t).own = [(before, before.create a)]) := by
  have hsound : Sound (creationRely s₀) (fun t ↦ creationPromise (requests t)) s₀ s :=
    run_sound ⟨hs₀, fun a ha ↦ .inl ha⟩ (fun t ↦ create_ok (requests t) _)
      (run_admitted (p := fun t ↦ creationPromise (requests t)) (fun _ _ _ ↦ trivial)
        (h.mono fun _ _ _ ↦ trivial))
  obtain ⟨hregistry, honce⟩ := hsound.inv
  refine ⟨hregistry.sources, hregistry.numbers, honce, hsound.log, hsound.chain, ?_⟩
  intro t result hresult
  have hpost := hsound.result hresult
  cases result with
  | none => exact absurd rfl (run_returns (fun t ↦ create_returns (requests t)) h hresult)
  | some a =>
    obtain ⟨ha, hsource, hown⟩ := hpost
    refine ⟨a, rfl, ha, fun b hb ↦ ⟨fun he ↦ ?_, fun he ↦ he ▸ hsource⟩, hown⟩
    exact List.inj_on_of_nodup_map hregistry.sources hb ha (he.trans hsource.symm)

/-- A call for one application, whose definition draws the suffix. -/
def creationOf (clientRef : String) (suffix : Nat) : CreationRequest Unit where
  input := ⟨"wmp", clientRef, "1.0.0", "106"⟩
  definition := .ok ⟨"wmp", "1.0.0", "WMP", "offered", .ok ()⟩
  execution := ⟨"corr-1", "2026-10-01"⟩
  suffix := suffix

/-- Two calls for one application and one for another, the first two with one number. -/
def racedCreations : Option Bool → CreationRequest Unit
  | none => creationOf "app-2" 100000001
  | some false => creationOf "app-1" 100000001
  | some true => creationOf "app-1" 100000002

/-- A world that refuses nothing and draws the suffix. -/
def draws (suffix : Nat) : CreationOutside := ⟨.ok (), .ok (), .ok (), suffix⟩

/-- The steps of one attempt that commits. -/
def commits (t : Option Bool) : List (Option Bool × Move CreationOutside) :=
  [(t, .ask (draws 0)), (t, .go), (t, .go), (t, .go), (t, .go), (t, .ask (draws 0)), (t, .go),
    (t, .go), (t, .go)]

/-- All three find no agreement; one commits; the second collides with its number and draws
again; the third then collides with its application and reads the `i`-th latest state. -/
def racedCalls (i : Nat) : List (Option Bool × Move CreationOutside) :=
  [(none, .look 0), (some false, .look 0), (some true, .look 0)] ++ commits none ++
    [(some false, .ask (draws 0)), (some false, .go), (some false, .go), (some false, .go),
      (some false, .go), (some false, .ask (draws 100000003))] ++ commits (some false) ++
    [(some true, .ask (draws 0)), (some true, .go), (some true, .go), (some true, .go),
      (some true, .go), (some true, .look i)]

/-- A call that lost the race for its application returns the winner's agreement. -/
theorem agreement_created_once_raced :
    ∃ s, exec (guarded System.step fun s l ↦
        s.sees (fun t ↦ recoverySees (racedCreations t).input) l)
        (System.start ⟨[], [], [], []⟩ fun t ↦ (racedCreations t).create) (racedCalls 0) = some s ∧
      (s.threads (some true)).result = (s.threads (some false)).result ∧
      s.db.numbers = ["WMP100000001", "WMP100000003"] ∧ s.db.numbers.Nodup := by
  have hexec : (exec (guarded System.step fun s l ↦
      s.sees (fun t ↦ recoverySees (racedCreations t).input) l)
      (System.start ⟨[], [], [], []⟩ fun t ↦ (racedCreations t).create) (racedCalls 0)).map
      (fun s ↦ (decide ((s.threads (some true)).result = (s.threads (some false)).result),
        s.db.numbers)) = some (true, ["WMP100000001", "WMP100000003"]) := by rfl
  obtain ⟨s, hs, hfacts⟩ := Option.map_eq_some_iff.mp hexec
  simp only [Prod.mk.injEq, decide_eq_true_eq] at hfacts
  exact ⟨s, hs, hfacts.1, hfacts.2, (agreement_created_once registry_empty racedCreations
    (Run.of_exec_guarded hs)).2.1⟩

/-- A call that lost the race for its application and looks for the winner in a state that
does not have it yet succeeds with nothing. -/
theorem recovery_finds_nothing :
    ∃ s, exec System.step (System.start ⟨[], [], [], []⟩ fun t ↦ (racedCreations t).create)
        (racedCalls 1) = some s ∧
      (racedCreations (some true)).input.sourceIdentity ∈ s.db.sources ∧
      (s.threads (some true)).result = some (.ok none) := by
  have hexec : (exec System.step (System.start ⟨[], [], [], []⟩ fun t ↦ (racedCreations t).create)
      (racedCalls 1)).map (fun s ↦ (s.db.sources, (s.threads (some true)).result)) =
      some ([("wmp", "app-2"), ("wmp", "app-1")], some (.ok none)) := by rfl
  obtain ⟨s, hs, hfacts⟩ := Option.map_eq_some_iff.mp hexec
  simp only [Prod.mk.injEq] at hfacts
  refine ⟨s, hs, ?_, hfacts.2⟩
  rw [hfacts.1]
  exact List.mem_cons_of_mem _ (List.mem_singleton.mpr rfl)

end FgGas.Agreements.Creation
