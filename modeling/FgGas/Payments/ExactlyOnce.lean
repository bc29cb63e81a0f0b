import Mathlib.Data.List.Nodup
import FgGas.Payments.FindOrCreate
import FgGas.Store.Sighted

/-!
# One Payment per source

In every interleaving and redelivery of payment-requested events the Payments are one to a
source, each with its publication, and numbered in the order they commit. Every creation
takes the counter document, so a creation commits on the state its snapshot saw: what its
lookup found then is what stands at the commit. A delivery that sees a Payment of its source ends
with it.
-/

namespace FgGas.Payments

open Machine Store

/-- What every committed state of the collections satisfies. -/
structure Ledger (s : PaymentStore) : Prop where
  seq : s.seq = claimIdSeed + s.payments.length
  numbers : s.payments.map (·.paymentHubClaimId) =
    (List.range' (claimIdSeed + 1) s.payments.length).map formatClaimId
  invoices : s.payments.map (·.invoiceNumber) =
    (s.payments.map (·.paymentHubClaimId)).map (formatInvoiceNumber · paymentRequestNumber)
  sources : (s.payments.map (·.source.key)).Nodup
  outbox : s.outbox.map (fun q ↦ (q.claimId, q.grant)) =
    s.payments.map fun p ↦ (p.paymentHubClaimId, toGrant p)

/-- The state with one more Payment and its publication. -/
def PaymentStore.create (s : PaymentStore) (payment : Payment) (publication : CreatePayment) :
    PaymentStore :=
  ⟨s.payments ++ [payment], s.seq + 1, s.outbox ++ [publication]⟩

theorem ledger_migrated : Ledger PaymentStore.migrated :=
  ⟨rfl, rfl, rfl, List.nodup_nil, rfl⟩

/-- No Payment has the next claim id. -/
theorem Ledger.next_unused {s : PaymentStore} (h : Ledger s) {p : Payment}
    (hp : p ∈ s.payments) : p.paymentHubClaimId ≠ formatClaimId (s.seq + 1) := by
  intro he
  have hmem : p.paymentHubClaimId ∈ s.payments.map (·.paymentHubClaimId) :=
    List.mem_map_of_mem hp
  rw [h.numbers] at hmem
  obtain ⟨n, hn, hf⟩ := List.mem_map.mp hmem
  have hlt := (List.mem_range'_1.mp hn).2
  have hn' : n = s.seq + 1 := formatClaimId_injective (hf.trans he)
  rw [hn', h.seq] at hlt
  omega

/-- A Payment for a new source, with the next claim id and its publication, keeps the
ledger. -/
theorem Ledger.create {s : PaymentStore} (h : Ledger s) {payment : Payment} {draws : Draws}
    (hsource : ∀ p ∈ s.payments, p.source.key ≠ payment.source.key)
    (hclaim : payment.paymentHubClaimId = formatClaimId (s.seq + 1))
    (hinvoice : payment.invoiceNumber =
      formatInvoiceNumber payment.paymentHubClaimId paymentRequestNumber) :
    Ledger (s.create payment (createPaymentPublication payment draws)) := by
  refine ⟨?_, ?_, ?_, ?_, ?_⟩
  · simp only [PaymentStore.create, List.length_append, List.length_singleton, h.seq]
    omega
  · have hnext : s.seq + 1 = claimIdSeed + 1 + s.payments.length := by
      rw [h.seq]
      omega
    simp only [PaymentStore.create, List.map_append, List.map_cons, List.map_nil,
      List.length_append, List.length_singleton, List.range'_1_concat, h.numbers, hclaim, hnext]
  · simp only [PaymentStore.create, List.map_append, List.map_cons, List.map_nil, h.invoices,
      hinvoice]
  · simp only [PaymentStore.create, List.map_append, List.map_cons, List.map_nil]
    refine List.nodup_append.mpr ⟨h.sources, List.nodup_singleton _, ?_⟩
    intro key hkey key' hkey'
    obtain ⟨p, hp, rfl⟩ := List.mem_map.mp hkey
    rw [List.mem_singleton.mp hkey']
    exact hsource p hp
  · simp only [PaymentStore.create, List.map_append, List.map_cons, List.map_nil, h.outbox,
      createPaymentPublication]

/-- Claim ids are pairwise distinct. -/
theorem Ledger.claimIds_nodup {s : PaymentStore} (h : Ledger s) :
    (s.payments.map (·.paymentHubClaimId)).Nodup := by
  rw [h.numbers]
  exact (List.nodup_range' ..).map fun m n he ↦ formatClaimId_injective he

/-- Invoice numbers are pairwise distinct. -/
theorem Ledger.invoices_nodup {s : PaymentStore} (h : Ledger s) :
    (s.payments.map (·.invoiceNumber)).Nodup := by
  rw [h.invoices]
  exact h.claimIds_nodup.map fun c d he ↦ formatInvoiceNumber_injective he

/-- A Payment has exactly one publication. -/
theorem Ledger.publications_eq_one {s : PaymentStore} (h : Ledger s) {p : Payment}
    (hp : p ∈ s.payments) :
    (s.outbox.map (·.claimId)).count p.paymentHubClaimId = 1 := by
  have hids : s.outbox.map (·.claimId) = s.payments.map (·.paymentHubClaimId) := by
    have hfst := congrArg (List.map Prod.fst) h.outbox
    rw [List.map_map, List.map_map] at hfst
    exact hfst
  rw [hids]
  exact List.count_eq_one_of_mem h.claimIds_nodup (List.mem_map_of_mem hp)

/-- A lookup that finds nothing: no Payment of the source. -/
theorem source_unused {source : Source} {s : PaymentStore}
    (h : findPaymentBySource source s = none) {p : Payment} (hp : p ∈ s.payments) :
    p.source.key ≠ source.key := by
  have := List.find?_eq_none.mp h p hp
  simpa using this

/-- A lookup finds a stored Payment of the source. -/
theorem source_found {source : Source} {s : PaymentStore} {p : Payment}
    (h : findPaymentBySource source s = some p) : p ∈ s.payments ∧ p.source.key = source.key := by
  have hkey := List.find?_some h
  exact ⟨List.mem_of_find?_eq_some h, by simpa using hkey⟩

/-- The only index a new Payment can violate is that of its own id. -/
theorem violated_eq {s : PaymentStore} (h : Ledger s) {payment : Payment} {error : Failure}
    (hsource : ∀ p ∈ s.payments, p.source.key ≠ payment.source.key)
    (hclaim : payment.paymentHubClaimId = formatClaimId (s.seq + 1))
    (hv : violated payment { s with seq := s.seq + 1 } = some error) :
    error = .duplicateKey .id := by
  unfold violated at hv
  split at hv
  · exact (Option.some.inj hv).symm
  · split at hv
    · next hany =>
      obtain ⟨p, hp, he⟩ := List.any_eq_true.mp hany
      exact absurd (of_decide_eq_true he) (hsource p hp)
    · split at hv
      · next hany =>
        obtain ⟨p, hp, he⟩ := List.any_eq_true.mp hany
        exact absurd ((of_decide_eq_true he).trans hclaim) (h.next_unused hp)
      · cases hv

/-- What may go wrong for a delivery whatever the other deliveries do. -/
inductive OwnFailure : Failure → Prop
  | unresolved (text : String) : OwnFailure (.unresolved text)
  | missingCorrelationId : OwnFailure .missingCorrelationId
  | invalidPayment : OwnFailure .invalidPayment
  | invalidOutbox : OwnFailure .invalidOutbox
  | duplicateId : OwnFailure (.duplicateKey .id)

/-- How `findOrCreatePayment` ends on a snapshot: with the Payment it found, with a new one,
or with a failure of its own. -/
inductive Outcome (source : Source) (base : PaymentStore) :
    Except Failure Payment → List Key → (PaymentStore → PaymentStore) → Prop
  | found {payment : Payment} (h : findPaymentBySource source base = some payment) :
      Outcome source base (.ok payment) [] id
  | created {payment : Payment} {draws : Draws} {held : List Key}
      {write : PaymentStore → PaymentStore} (hnone : findPaymentBySource source base = none)
      (hsource : payment.source = source)
      (hclaim : payment.paymentHubClaimId = formatClaimId (base.seq + 1))
      (hinvoice : payment.invoiceNumber =
        formatInvoiceNumber payment.paymentHubClaimId paymentRequestNumber)
      (hheld : Key.counter ∈ held)
      (hwrite : write base = base.create payment (createPaymentPublication payment draws)) :
      Outcome source base (.ok payment) held write
  | failed {error : Failure} {held : List Key} {write : PaymentStore → PaymentStore}
      (h : OwnFailure error) : Outcome source base (.error error) held write

/-- A publication is stored as it is, or refused. -/
theorem toOutbox_cases (publication : CreatePayment) :
    toOutbox publication = .ok publication ∨ toOutbox publication = .error .invalidOutbox := by
  unfold toOutbox
  split
  · exact .inl rfl
  · exact .inr rfl

theorem findOrCreatePayment_outcome (source : Source) (correlationId : Option String)
    (resolved : Resolved) {base : PaymentStore} (hb : Ledger base) :
    (findOrCreatePayment source correlationId resolved).Leads base [] id (Outcome source base) := by
  unfold findOrCreatePayment
  rw [Session.leads_bind, Session.leads_read]
  cases hfind : findPaymentBySource source base with
  | some payment => simpa [hfind] using Outcome.found hfind
  | none =>
    simp only [id, hfind]
    rw [Session.leads_bind]
    simp only [allocateNextSequence, Session.Leads]
    rw [Session.leads_bind, Session.leads_outside]
    intro outside
    simp only [Session.leads_bind, Session.leads_orThrow, id]
    cases hbuild : buildPayment source correlationId resolved (formatClaimId (base.seq + 1))
        outside.draws with
    | error error =>
      rcases buildPayment_eq_error hbuild with rfl | rfl
      · exact .failed .missingCorrelationId
      · exact .failed .invalidPayment
    | ok payment =>
      obtain ⟨hsource, hclaim, hinvoice⟩ := buildPayment_eq_ok hbuild
      have hunused : ∀ p ∈ base.payments, p.source.key ≠ payment.source.key := by
        intro p hp
        rw [hsource]
        exact source_unused hfind hp
      simp only [insertPayment, Session.leads_insert, Function.comp_apply, id]
      cases hv : violated payment { base with seq := base.seq + 1 } with
      | some error =>
        obtain rfl := violated_eq hb hunused hclaim hv
        exact .failed .duplicateId
      | none =>
        simp only [saveEvents, Session.leads_bind, Session.leads_orThrow]
        rcases toOutbox_cases (createPaymentPublication payment outside.draws) with hout | hout
        · rw [hout]
          refine .created hfind hsource hclaim ?_ ?_ rfl
          · rw [hinvoice, hclaim]
          · simp
        · rw [hout]
          exact .failed .invalidOutbox

/-- The deliveries keep the ledger and the Payments; who leaves the counter alone leaves the
collections alone. -/
def paymentRely : Rely Key PaymentStore where
  inv := Ledger
  le s s' := s.payments <+: s'.payments
  agree key s s' := key = .counter → s = s'
  le_refl _ := List.prefix_rfl
  le_trans h h' := h.trans h'
  agree_refl _ _ _ := rfl
  agree_trans h h' hk := (h hk).trans (h' hk)

/-- The changes stored nothing. -/
def Idle (own : List (PaymentStore × PaymentStore)) : Prop := ∀ c ∈ own, c.2 = c.1

/-- How a delivery of an event for the source `key` may end: with the stored Payment of the
source, which it created itself or which it stored nothing beside; or with a failure of its
own, having stored nothing. -/
def EndsWell (key : SourceKey) :
    Delivered → List (PaymentStore × PaymentStore) → PaymentStore → Prop
  | .ok payment, own, db => payment ∈ db.payments ∧ payment.source.key = key ∧
      (Idle own ∨ ∃ before publication, own = [(before, before.create payment publication)])
  | .error error, own, _ => OwnFailure error ∧ Idle own

/-- What a delivery promises. -/
def paymentPromise (key : SourceKey) : Promise PaymentStore Unit Delivered where
  guar before after := after = before ∨
    ∃ payment publication, after = before.create payment publication
  post := EndsWell key
  allow _ _ := True

/-- A delivery that ends with a stored Payment of its source, having stored nothing. -/
theorem ret_found {source : Source} {db : PaymentStore} {payment : Payment}
    {own : List (PaymentStore × PaymentStore)} (hp : payment ∈ db.payments)
    (hkey : payment.source.key = source.key) (hown : Idle own) :
    (UseCase.ret (.ok payment) : PaymentUseCase).Ok paymentRely (paymentPromise source.key)
      own db :=
  fun _ _ hle ↦ ⟨hle.subset hp, hkey, .inl hown⟩

/-- A delivery that ends with a failure of its own, having stored nothing. -/
theorem ret_failed {source : Source} {db : PaymentStore} {error : Failure}
    {own : List (PaymentStore × PaymentStore)} (he : OwnFailure error) (hown : Idle own) :
    (UseCase.ret (.error error) : PaymentUseCase).Ok paymentRely (paymentPromise source.key)
      own db :=
  fun _ _ _ ↦ ⟨he, hown⟩

/-- Each way `findOrCreatePayment` ends is one its delivery may end with: a creation commits
on its snapshot, since both took the counter. -/
theorem Outcome.ends {source : Source} {index : Index} (hindex : index ≠ .id)
    {base : PaymentStore} {result : Except Failure Payment} {held : List Key}
    {write : PaymentStore → PaymentStore} (h : Outcome source base result held write) :
    Ends paymentRely (paymentPromise source.key).guar
      (after paymentRely (paymentPromise source.key) fun
        | .ok payment => .ret (.ok payment)
        | .error error => recoverSourceDuplicate index error source)
      [] base result held write := by
  intro db hinv hle
  cases h with
  | found hfind =>
    obtain ⟨hp, hkey⟩ := source_found hfind
    intro _
    refine ⟨⟨hinv, List.prefix_rfl, fun _ _ _ ↦ rfl, .inl rfl⟩, ?_⟩
    refine ret_found (hle.subset hp) hkey fun c hc ↦ ?_
    rw [List.mem_singleton.mp hc]
    rfl
  | @created payment draws held write hnone hsource hclaim hinvoice hheld hwrite =>
    intro hagree
    obtain rfl : base = db := hagree .counter hheld rfl
    have hunused : ∀ p ∈ base.payments, p.source.key ≠ payment.source.key := by
      intro p hp
      rw [hsource]
      exact source_unused hnone hp
    rw [hwrite]
    refine ⟨⟨hinv.create hunused hclaim hinvoice, List.prefix_append _ _, ?_,
      .inr ⟨_, _, rfl⟩⟩, ?_⟩
    · intro key hkey hcounter
      exact absurd (hcounter ▸ hheld) hkey
    · intro db' _ hle'
      refine ⟨hle'.subset (List.mem_append_right _ (List.mem_singleton.mpr rfl)), ?_,
        .inr ⟨_, _, rfl⟩⟩
      rw [hsource]
  | @failed error _ _ herror =>
    have hne : error ≠ .duplicateKey index := by
      rintro rfl
      cases herror
      exact hindex rfl
    simp only [after, recoverSourceDuplicate, hne, if_false]
    exact ret_failed herror fun _ hc ↦ absurd hc List.not_mem_nil

/-- A delivery is in order by itself. -/
theorem handlePaymentRequested_ok {index : Index} (hindex : index ≠ .id) (source : Source)
    (correlationId : Option String) (s : PaymentStore) :
    (handlePaymentRequested index source correlationId).Ok paymentRely
      (paymentPromise source.key) [] s := by
  intro db seen _ _ _ hseen _
  have hidle : Idle [] := fun _ hc ↦ absurd hc List.not_mem_nil
  cases hfind : findPaymentBySource source seen with
  | some existing =>
    obtain ⟨hp, hkey⟩ := source_found hfind
    simp only [hfind]
    exact ret_found (hseen.subset hp) hkey hidle
  | none =>
    simp only [hfind]
    intro outside
    dsimp only
    cases outside.resolved with
    | error text => exact ret_failed (.unresolved text) hidle
    | ok resolved =>
      intro base hbase _ _
      exact (findOrCreatePayment_outcome source correlationId resolved hbase).mono
        fun r held write h ↦ h.ends hindex

/-- Every handler is in order by itself. -/
theorem handle_ok (request : PaymentRequested) (s : PaymentStore) :
    request.handle.Ok paymentRely (paymentPromise request.key) [] s := by
  cases request with
  | claim data =>
    exact handlePaymentRequested_ok (show Index.claimSource ≠ .id by decide)
      (.claim data.code data.clientRef data.clientClaimRef data.entitlementId
        data.agreementNumber data.agreementVersion) data.correlationId s
  | agreement data =>
    exact handlePaymentRequested_ok (show Index.agreementSource ≠ .id by decide)
      (.agreement data.agreementNumber data.agreementVersion) data.correlationId s

/-! ### Deliveries that find a Payment -/

/-- What is seen holds the Payment, and it is of the source. -/
def Sees (key : SourceKey) (payment : Payment) (x : Sight PaymentStore Unit) : Prop :=
  payment ∈ x.state.payments ∧ payment.source.key = key

/-- The lookup finds the one Payment of the source. -/
theorem Ledger.find {s : PaymentStore} (h : Ledger s) {source : Source} {payment : Payment}
    (hp : payment ∈ s.payments) (hkey : payment.source.key = source.key) :
    findPaymentBySource source s = some payment := by
  cases hfind : findPaymentBySource source s with
  | none => exact absurd hkey (source_unused hfind hp)
  | some found =>
    obtain ⟨hmem, hfound⟩ := source_found hfind
    exact congrArg some (List.inj_on_of_nodup_map h.sources hmem hp (hfound.trans hkey.symm))

/-- A transaction that starts with the Payment in place ends with it, and takes and writes
nothing. -/
theorem findOrCreatePayment_found {source : Source} {correlationId : Option String}
    {resolved : Resolved} {base : PaymentStore} {payment : Payment}
    (h : findPaymentBySource source base = some payment) :
    (findOrCreatePayment source correlationId resolved).Leads base [] id
      fun result held write ↦ result = .ok payment ∧ held = [] ∧ write = id := by
  simp [findOrCreatePayment, Session.leads_bind, h]

/-- The recovery heeds the Payment of the source. -/
theorem recoverSourceDuplicate_heeds (index : Index) (error : Failure) (source : Source)
    (payment : Payment) : (recoverSourceDuplicate index error source).Heeds paymentRely
      (Sees source.key payment) (fun result own ↦ result = .ok payment ∧ Idle own) [] := by
  unfold recoverSourceDuplicate
  split
  · intro db seen _ hseen _ _
    dsimp only
    constructor
    · rintro ⟨hp, hkey⟩
      rw [hseen.find hp hkey]
      exact ⟨rfl, fun _ hc ↦ absurd hc List.not_mem_nil⟩
    · cases findPaymentBySource source seen <;> trivial
  · trivial

/-- A delivery heeds the Payment of its source: it ends with it and stores nothing. -/
theorem handlePaymentRequested_heeds (index : Index) (source : Source)
    (correlationId : Option String) (payment : Payment) :
    (handlePaymentRequested index source correlationId).Heeds paymentRely
      (Sees source.key payment) (fun result own ↦ result = .ok payment ∧ Idle own) [] := by
  have hidle : Idle [] := fun _ hc ↦ absurd hc List.not_mem_nil
  intro db seen _ hseen _ _
  dsimp only
  constructor
  · rintro ⟨hp, hkey⟩
    rw [hseen.find hp hkey]
    exact ⟨rfl, hidle⟩
  · cases findPaymentBySource source seen with
    | some existing => trivial
    | none =>
      intro outside
      dsimp only
      cases outside.resolved with
      | error text => trivial
      | ok resolved =>
        refine ⟨?_, ?_, fun value change ↦ trivial⟩
        · -- the snapshot holds the Payment, and so does every later one
          rintro base hbase ⟨hp, hkey⟩
          have hagain :
              (Callback.body () (findOrCreatePayment source correlationId resolved)).Yields
              paymentRely .any (thenYields paymentRely .any
                (fun result own ↦ result = .ok payment ∧ Idle own) fun
                | .ok payment => (.ret (.ok payment) : PaymentUseCase)
                | .error error => recoverSourceDuplicate index error source) [] base := by
            intro base' hbase' hle _
            have hfind := hbase'.find (hle.subset hp) hkey
            refine Session.Leads.under ((findOrCreatePayment_found hfind).mono ?_)
            rintro r held write ⟨rfl, _, rfl⟩ before db _ _ _ _ _
            refine ⟨rfl, fun c hc ↦ ?_⟩
            rw [List.mem_singleton.mp hc]
            rfl
          exact ⟨hagain, hagain base hbase List.prefix_rfl trivial⟩
        · exact fun error ↦ recoverSourceDuplicate_heeds index error source payment

/-- Every handler heeds the Payment of its source. -/
theorem handle_heeds (request : PaymentRequested) (payment : Payment) :
    request.handle.Heeds paymentRely (Sees request.key payment)
      (fun result own ↦ result = .ok payment ∧ Idle own) [] := by
  cases request with
  | claim data =>
    exact handlePaymentRequested_heeds .claimSource (.claim data.code data.clientRef
      data.clientClaimRef data.entitlementId data.agreementNumber data.agreementVersion)
      data.correlationId payment
  | agreement data =>
    exact handlePaymentRequested_heeds .agreementSource (.agreement data.agreementNumber
      data.agreementVersion) data.correlationId payment

/-- Any number of deliveries and redeliveries, in any interleaving: one Payment to a source,
one publication to a Payment, distinct claim ids and invoice numbers, the claim ids those of
the numbers from the seed on in the order of the commits, and every delivery that ends, ends
with the Payment of its source or a failure that owes nothing to the others; unless it
created that Payment, it has stored nothing. A delivery that finds a Payment of its source, when it
looks or when a transaction of its starts, ends with that Payment, having stored nothing; so one
that ends with a failure has never found any. -/
theorem payment_exactly_once {T : Type} [DecidableEq T] (requests : T → PaymentRequested)
    {ls : List (T × Move Outside)}
    {s : System Key PaymentStore Outside Failure Unit Payment Delivered T}
    (h : Run System.step anyStep
      (System.start PaymentStore.migrated fun t ↦ (requests t).handle) ls s) :
    (s.db.payments.map (·.source.key)).Nodup ∧
    (∀ p ∈ s.db.payments, (s.db.outbox.map (·.claimId)).count p.paymentHubClaimId = 1) ∧
    s.db.outbox.length = s.db.payments.length ∧
    (s.db.payments.map (·.paymentHubClaimId)).Nodup ∧
    (s.db.payments.map (·.invoiceNumber)).Nodup ∧
    s.db.payments.map (·.paymentHubClaimId) =
      (List.range' (claimIdSeed + 1) s.db.payments.length).map formatClaimId ∧
    s.db.seq = claimIdSeed + s.db.payments.length ∧
    (∀ t result, (s.threads t).result = some result →
      EndsWell (requests t).key result (s.threads t).own s.db) ∧
    ∀ t payment, Sighted (System.start PaymentStore.migrated fun t ↦ (requests t).handle) ls s t
        (Sees (requests t).key payment) →
      ∀ result, (s.threads t).result = some result →
        result = .ok payment ∧ Idle (s.threads t).own := by
  have hsound : Sound paymentRely (fun t ↦ paymentPromise (requests t).key)
      PaymentStore.migrated s :=
    run_sound ledger_migrated (fun t ↦ handle_ok (requests t) _)
      (run_admitted (p := fun t ↦ paymentPromise (requests t).key) (fun _ _ _ ↦ trivial) h)
  have hledger := hsound.inv
  refine ⟨hledger.sources, fun p hp ↦ hledger.publications_eq_one hp, ?_,
    hledger.claimIds_nodup, hledger.invoices_nodup, hledger.numbers, hledger.seq,
    fun t result hph ↦ hsound.result hph, ?_⟩
  · have hlen := congrArg List.length hledger.outbox
    simpa only [List.length_map] using hlen
  · intro t payment hsighted result hresult
    exact hsighted.result (p := fun t ↦ paymentPromise (requests t).key) ledger_migrated
      (fun _ _ _ ↦ trivial) (fun t ↦ handle_ok (requests t) _) (handle_heeds (requests t) payment)
      hresult

/-- A definition that resolves to one payment of one line. -/
def resolvedOnce : Resolved where
  sbi := "106284736"
  frn := "1102838829"
  scheme := "WMP"
  sourceSystem := "FPTT"
  deliveryBody := "RP00"
  fesCode := "FALS_FPTT"
  originalInvoiceNumber := ""
  ledger := "AP"
  totalAmountPence := 100
  currency := "GBP"
  marketingYear := "2026"
  payments := [⟨"2026-11-01", 100, [⟨"80101", "G00", 100, "SOS710", "DRD10", "RP00", "2026"⟩]⟩]

/-- What a delivery draws; the two deliveries below draw different ids. -/
def drawsOf (id : String) : Outside :=
  ⟨.ok resolvedOnce, ⟨id, "2026-10-01", fun _ ↦ "c-1", "e-1", "2026-10-01"⟩⟩

/-- A claim's payment-requested event. -/
def claimRequested : PaymentRequested :=
  .claim ⟨"wmp", "app-1", "claim-1", "ent-1", "FPTT123", 1, some "corr-1"⟩

/-- Two deliveries of the event race: the second looks the source up in its transaction
before the first commits, aborts at the counter, and starts again. -/
def racedDeliveries : List (Bool × Move Outside) :=
  [(false, .look 0), (true, .look 0), (false, .ask (drawsOf "p-1")), (true, .ask (drawsOf "p-2")),
    (false, .go), (true, .go), (false, .go), (true, .go), (false, .go), (true, .go),
    (false, .go), (false, .ask (drawsOf "p-1")), (false, .go), (false, .go), (false, .go),
    (true, .abort), (true, .go), (true, .go), (true, .go)]

/-- The race leaves one Payment, which both deliveries end with. -/
theorem payment_exactly_once_raced :
    ∃ s, exec System.step (System.start (T := Bool) PaymentStore.migrated
        fun _ ↦ claimRequested.handle) racedDeliveries = some s ∧
      s.db.payments.map (·.id) = ["p-1"] ∧ (s.db.payments.map (·.source.key)).Nodup := by
  have hexec : (exec System.step (System.start (T := Bool) PaymentStore.migrated
      fun _ ↦ claimRequested.handle) racedDeliveries).map (fun s ↦ s.db.payments.map (·.id)) =
      some ["p-1"] := by rfl
  obtain ⟨s, hs, hids⟩ := Option.map_eq_some_iff.mp hexec
  exact ⟨s, hs, hids, (payment_exactly_once (fun _ ↦ claimRequested) (Run.of_exec hs)).1⟩

/-- The first committed Payment has the number after the seed, not 1. -/
theorem claimIds_start_after_seed :
    ∃ s, exec System.step (System.start (T := Bool) PaymentStore.migrated
        fun _ ↦ claimRequested.handle) racedDeliveries = some s ∧
      s.db.payments.map (·.paymentHubClaimId) ≠
        (List.range' 1 s.db.payments.length).map formatClaimId := by
  have hexec : (exec System.step (System.start (T := Bool) PaymentStore.migrated
      fun _ ↦ claimRequested.handle) racedDeliveries).map
      (fun s ↦ s.db.payments.map (·.paymentHubClaimId)) = some ["R10000000"] := by rfl
  obtain ⟨s, hs, hids⟩ := Option.map_eq_some_iff.mp hexec
  have hlen := congrArg List.length hids
  rw [List.length_map, List.length_singleton] at hlen
  refine ⟨s, hs, ?_⟩
  rw [hids, hlen]
  decide

end FgGas.Payments
