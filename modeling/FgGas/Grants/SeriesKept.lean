import FgGas.Grants.SeriesPartition
import FgGas.Grants.ApplyEffect
import FgGas.Store.History
import FgGas.Store.Yields

/-!
# Series keep their partition

The applications and their series in every state, whatever submissions, replacements and status
changes come in between: each application is in one series, whose latest it is or has been
replaced in, and finds every other of its series among its refs. A replacement writes the
application it replaces, to link it, so that nothing has changed it since the position was read.
-/

namespace FgGas.Grants

open Machine Store

/-! ### What the requests rely on -/

/-- What the requests on the applications rely on: the invariant, that applications stay, and
that what is stored of an application, whether there is one, and a series are as they were while
they are taken. -/
def seriesRely (code : String) : Rely SeriesKey SeriesStore where
  inv := Kept code
  le s s' := ∀ c, (s.row c).isSome = true → (s'.row c).isSome = true
  agree
    | .stored c key, s, s' => key = .application →
        (s.row c).map ApplicationRow.stored = (s'.row c).map ApplicationRow.stored
    | .clientRef c, s, s' => (s.row c).isSome = (s'.row c).isSome
    | .series id, s, s' => s.ofId id = s'.ofId id
  le_refl _ _ h := h
  le_trans h h' c hc := h' c (h c hc)
  agree_refl k s := by cases k <;> simp
  agree_trans {k} _ _ _ h h' := by
    cases k with
    | stored c key => exact fun hkey ↦ (h hkey).trans (h' hkey)
    | clientRef c => exact h.trans h'
    | series id => exact h.trans h'

/-- A replacement of an application: of the latest of its series, standing at a position that is
amendable under the grant it is on. -/
structure Replacement (catalogue : Nat → SeriesCatalogue) (previousClientRef : String)
    (submitted : SubmittedApplication) (before after : SeriesStore) where
  series : ApplicationSeries
  mem : series ∈ before.series
  latest : series.latestClientRef = previousClientRef
  previous : ApplicationRow
  found : before.row previousClientRef = some previous
  moment : Nat
  positions : List String
  resolved : (catalogue moment).resolvePositions previous.stored.application.application =
    .ok positions
  amendable : previous.stored.application.application.fullyQualifiedStatus ∈ positions
  row : ApplicationRow
  clientRef : row.clientRef = submitted.clientRef
  fresh : before.row submitted.clientRef = none
  clientId : String
  now : String
  eq : after = before.replaced row (series.addClientRef submitted.clientRef clientId now)

/-- What a request may change. -/
def SeriesRequest.Changes (catalogue : Nat → SeriesCatalogue) :
    SeriesRequest → SeriesStore → SeriesStore → Prop
  | .submit submitted, before, after => before.row submitted.clientRef = none ∧
      ∃ row id clientId now, row.clientRef = submitted.clientRef ∧
        after = (before.insertApplication row).insertSeries
          (.new id clientId submitted.clientRef now)
  | .replace previousClientRef submitted, before, after =>
      Nonempty (Replacement catalogue previousClientRef submitted before after)
  | .apply command, before, after => RowChange command.clientRef before after
  | .persistResolvedVersion clientRef _, before, after => RowChange clientRef before after

/-- What a request promises of its changes. -/
def seriesPromise (code : String) (catalogue : Nat → SeriesCatalogue) (request : SeriesRequest) :
    Promise SeriesStore (Option Application) (Except GrantFailure GrantOutcome) where
  guar before after := Kept code before ∧ request.Changes catalogue before after
  post _ _ _ := True
  allow _ _ := True

/-! ### Submissions -/

section
variable {code : String} {catalogue : Nat → SeriesCatalogue} {base : SeriesStore}
  {held : List SeriesKey} {write : SeriesStore → SeriesStore}

/-- The application of a submission is inserted, named and with its own refs. -/
structure NewRow (code : String) (submitted : SubmittedApplication) (r : ApplicationRow) :
    Prop where
  clientRef : r.clientRef = submitted.clientRef
  named : r.stored.application.application.clientRef = r.clientRef ∧
    r.stored.application.application.code = code
  refs : r.refs = r.own

/-- Nothing is stored under a key that is not taken. -/
theorem eq_none_of_taken {α : Type} {o : Option α} {failure : GrantFailure}
    (h : (if o.isSome = true then some failure else none) = none) : o = none := by
  cases o with
  | none => rfl
  | some a => simp at h

theorem mayThrow_yields {P : Unit → List SeriesKey → (SeriesStore → SeriesStore) → Prop}
    (h : P () held write) : mayThrow.Yields base held write P :=
  .bind (.outside fun _ ↦ .orThrow fun _ _ ↦ h)

/-- An application is created under a reference that was free. -/
theorem createApplication_yields {submitted : SubmittedApplication}
    {P : String → List SeriesKey → (SeriesStore → SeriesStore) → Prop}
    (h : ∀ id r, NewRow code submitted r → (write base).row submitted.clientRef = none →
      P id (held ++ [.clientRef submitted.clientRef,
        .stored submitted.clientRef .application]) ((·.insertApplication r) ∘ write)) :
    (createApplication code submitted).Yields base held write P := by
  unfold createApplication
  refine .bind (.outside fun outside ↦ .bind (.orThrow fun resolved _ ↦
    .bind (.orThrow fun position _ ↦ .bind (mayThrow_yields (.bind (.insert fun hfree ↦
      .bind (mayThrow_yields (.pure ?_))))))))
  apply h _ _ ⟨rfl, ⟨rfl, rfl⟩, rfl⟩
  exact eq_none_of_taken hfree

end

/-! ### What a change leaves alone -/

section
variable {s : SeriesStore} {r : ApplicationRow} {x : ApplicationSeries} {c id : String}

theorem row_insertApplication (h : r.clientRef ≠ c) : (s.insertApplication r).row c = s.row c := by
  simp [SeriesStore.insertApplication, SeriesStore.row, h]

theorem row_insertApplication_isSome (h : (s.row c).isSome = true) :
    ((s.insertApplication r).row c).isSome = true := by
  rw [row_isSome] at h ⊢
  obtain ⟨q, hq, hqc⟩ := h
  exact ⟨q, mem_insertApplication.mpr (.inl hq), hqc⟩

theorem ofId_insertSeries (h : x.id ≠ id) : (s.insertSeries x).ofId id = s.ofId id := by
  simp [SeriesStore.insertSeries, SeriesStore.ofId, h]

theorem row_replaced : (s.replaced r x).row c =
    ((s.insertApplication r).row c).map (ApplicationRow.linkIn x.clientRefs) :=
  row_map (fun _ ↦ linkIn_clientRef) replaced_applications

theorem ofId_replaced (h : x.id ≠ id) : (s.replaced r x).ofId id = s.ofId id := by
  change (s.series.map fun y ↦ if y.id = x.id then x else y).find? _ = s.series.find? _
  induction s.series with
  | nil => rfl
  | cons y rest ih =>
    rw [List.map_cons]
    by_cases hy : y.id = x.id
    · have hne : y.id ≠ id := hy ▸ h
      rw [if_pos hy, List.find?_cons_of_neg (by simpa using h), ih,
        List.find?_cons_of_neg (by simpa using hne)]
    · rw [if_neg hy, List.find?_cons, List.find?_cons, ih]

end

section
variable {code : String} {catalogue : Nat → SeriesCatalogue} {base : SeriesStore}
  {submitted : SubmittedApplication} {r : ApplicationRow} {id clientId now : String}

/-- A submission with its documents taken is in order. -/
theorem fine_submit (hdb : Kept code base) (hr : NewRow code submitted r)
    (hfree : base.row submitted.clientRef = none) (hid : base.ofId id = none) :
    Fine (seriesRely code) (seriesPromise code catalogue (.submit submitted)).guar base
      ((base.insertApplication r).insertSeries (.new id clientId submitted.clientRef now))
      [.clientRef submitted.clientRef, .stored submitted.clientRef .application, .series id] := by
  obtain ⟨hclientRef, hnamed, hrefs⟩ := hr
  have hkept := @Kept.submit code base r hdb clientId id now (hclientRef ▸ submitted.valid) hnamed
    hrefs (hclientRef ▸ hfree) hid
  rw [hclientRef] at hkept
  refine ⟨hkept, fun c hc ↦ row_insertApplication_isSome hc, ?_, hdb, hfree, r, id,
    clientId, now, hclientRef, rfl⟩
  intro k hk
  simp only [List.mem_cons, List.not_mem_nil, or_false, not_or] at hk
  cases k with
  | stored c key =>
    intro hkey
    have hc : r.clientRef ≠ c := by
      rintro rfl
      exact hk.2.1 (by rw [hkey, hclientRef])
    exact congrArg _ (row_insertApplication hc).symm
  | clientRef c =>
    have hc : r.clientRef ≠ c := by
      rintro rfl
      exact hk.1 (by rw [hclientRef])
    exact congrArg _ (row_insertApplication hc).symm
  | series id' =>
    have hne : (ApplicationSeries.new id clientId submitted.clientRef now).id ≠ id' :=
      fun heq ↦ hk.2.2 (heq ▸ rfl)
    exact (ofId_insertSeries hne).symm

/-- A replacement with its documents taken is in order. -/
theorem fine_replace {previousClientRef : String} {after : SeriesStore} {held : List SeriesKey}
    (hdb : Kept code base)
    (replacement : Replacement catalogue previousClientRef submitted base after)
    (hr : NewRow code submitted replacement.row)
    (hclientRef : .clientRef submitted.clientRef ∈ held)
    (hstored : .stored submitted.clientRef .application ∈ held)
    (hseries : .series replacement.series.id ∈ held) :
    Fine (seriesRely code)
      (seriesPromise code catalogue (.replace previousClientRef submitted)).guar base after
      held := by
  obtain ⟨href, hnamed, hrefs⟩ := hr
  have hkept := @Kept.replace code base replacement.row replacement.series hdb
    replacement.clientId replacement.now (href ▸ submitted.valid) hnamed hrefs
    (href ▸ replacement.fresh) replacement.mem
  rw [href] at hkept
  have hafter := replacement.eq
  refine ⟨hafter ▸ hkept, fun c hc ↦ ?_, ?_, hdb, ⟨replacement⟩⟩
  · rw [hafter, row_replaced, Option.isSome_map]
    exact row_insertApplication_isSome hc
  · intro k hk
    rw [hafter]
    cases k with
    | stored c key =>
      intro hkey
      have hc : replacement.row.clientRef ≠ c := by
        rintro rfl
        rw [hkey, href] at hk
        exact hk hstored
      rw [row_replaced, row_insertApplication hc, Option.map_map]
      exact congrArg (fun f ↦ (base.row c).map f) (funext fun _ ↦ linkIn_stored.symm)
    | clientRef c =>
      have hc : replacement.row.clientRef ≠ c := by
        rintro rfl
        rw [href] at hk
        exact hk hclientRef
      change (base.row c).isSome = ((base.replaced _ _).row c).isSome
      rw [row_replaced, row_insertApplication hc, Option.isSome_map]
    | series id =>
      refine (ofId_replaced fun hid ↦ ?_).symm
      rw [← hid] at hk
      exact hk hseries

/-- A write to what is stored of one application is in order with its document taken, or when
it changes nothing of it. -/
theorem fine_rowChange {request : SeriesRequest} {c : String} {after : SeriesStore}
    {held : List SeriesKey} (hdb : Kept code base) (hchange : RowChange c base after)
    (hrequest : request.Changes catalogue base after)
    (hnamed : ∀ r, after.row c = some r → r.stored.application.application.clientRef = c ∧
      r.stored.application.application.code = code)
    (hheld : .stored c .application ∈ held ∨
      (base.row c).map ApplicationRow.stored = (after.row c).map ApplicationRow.stored) :
    Fine (seriesRely code) (seriesPromise code catalogue request).guar base after held := by
  obtain ⟨g, hg, hkeeps⟩ := hchange.rows
  have hrow : ∀ d, after.row d = (base.row d).map g := fun d ↦ row_map (fun r ↦ (hkeeps r).1) hg
  refine ⟨hdb.rowChange hchange hnamed, fun d hd ↦ ?_, ?_, hdb, hrequest⟩
  · rw [hrow, Option.isSome_map]
    exact hd
  · intro k hk
    cases k with
    | stored d key =>
      intro hkey
      by_cases hd : d = c
      · rcases hheld with hheld | hsame
        · exact absurd (by rw [hd, hkey]; exact hheld) hk
        · rw [hd]
          exact hsame
      · rw [hrow, Option.map_map]
        cases hfind : base.row d with
        | none => rfl
        | some r =>
          have hne : r.clientRef ≠ c := (row_eq_some hfind).2 ▸ hd
          rw [Option.map_some, Option.map_some, Function.comp_apply, (hkeeps r).2.2.1 hne]
    | clientRef d =>
      change (base.row d).isSome = (after.row d).isSome
      rw [hrow, Option.isSome_map]
    | series id =>
      change base.ofId id = after.ofId id
      rw [SeriesStore.ofId, SeriesStore.ofId, hchange.series]

end

/-! ### The requests -/

section
variable {code : String} {catalogue : Nat → SeriesCatalogue} {base s : SeriesStore}
  {submitted : SubmittedApplication} {previousClientRef : String}

/-- A session of a request is in order if what it yields is. -/
theorem session_ends {request : SeriesRequest} {own : List (SeriesStore × SeriesStore)}
    {x : SeriesSession GrantOutcome}
    {P : GrantOutcome → List SeriesKey → (SeriesStore → SeriesStore) → Prop}
    (hx : x.Yields base [] id P)
    (hok : ∀ value held write, P value held write → ∀ db, Kept code db →
      (seriesRely code).le base db → (∀ k ∈ held, (seriesRely code).agree k base db) →
      Fine (seriesRely code) (seriesPromise code catalogue request).guar db (write db) held) :
    x.Leads base [] id (Ends (seriesRely code) (seriesPromise code catalogue request).guar
      (fun result own s ↦ UseCase.Ok (seriesRely code) (seriesPromise code catalogue request)
        (.ret result : SeriesUseCase) own s) own base) := by
  apply hx.ends
  · intro value held write hvalue db hdb hle hagree
    exact ⟨hok value held write hvalue db hdb hle hagree, fun _ _ _ ↦ trivial⟩
  · intro error held write db hdb hle _ _ _
    trivial

theorem submit_ok :
    (submitApplicationUseCase code submitted).Ok (seriesRely code)
      (seriesPromise code catalogue (.submit submitted)) [] s := by
  intro base hbase _ _
  have hx : (submitApplication code submitted).Yields base [] id fun _ held write ↦
      ∃ r id clientId now, NewRow code submitted r ∧ base.row submitted.clientRef = none ∧
        base.ofId id = none ∧
        held = [.clientRef submitted.clientRef, .stored submitted.clientRef .application,
          .series id] ∧
        write = fun s ↦ (s.insertApplication r).insertSeries
          (.new id clientId submitted.clientRef now) := by
    unfold submitApplication
    refine .bind (createApplication_yields fun clientId r hr hfree ↦ .bind (.outside fun outside ↦
      .bind (.insert fun hid ↦ .bind (mayThrow_yields (.pure ?_)))))
    exact ⟨r, outside.grant.id, clientId, outside.grant.now, hr, hfree, eq_none_of_taken hid, rfl,
      rfl⟩
  apply session_ends hx
  rintro _ held write ⟨r, id, clientId, now, hr, hfree, hid, rfl, rfl⟩ db hdb _ hagree
  have hrow : (base.row submitted.clientRef).isSome = (db.row submitted.clientRef).isSome :=
    hagree (.clientRef submitted.clientRef) (by simp)
  have hseries : base.ofId id = db.ofId id := hagree (.series id) (by simp)
  have hfree' : db.row submitted.clientRef = none := by
    rw [hfree] at hrow
    exact Option.not_isSome_iff_eq_none.mp (by rw [← hrow]; simp)
  exact fine_submit hdb hr hfree' (hseries ▸ hid)

/-- The application that is replaced is written when it is linked: it had no ref of the new one
before. -/
theorem mem_linked {r previous : ApplicationRow} {x : ApplicationSeries} {clientId now : String}
    (hbase : Kept code base) (hfree : base.row submitted.clientRef = none)
    (hprevious : base.row previousClientRef = some previous) (hx : x ∈ base.series)
    (hlatest : x.latestClientRef = previousClientRef) :
    previousClientRef ∈ ((base.insertApplication r).replaceSeries
      (x.addClientRef submitted.clientRef clientId now)).linked
        (x.addClientRef submitted.clientRef clientId now).clientRefs := by
  obtain ⟨hmem, hname⟩ := row_eq_some hprevious
  have hclientRefs : (x.addClientRef submitted.clientRef clientId now).clientRefs =
      x.clientRefs ++ [submitted.clientRef] := by
    rw [ApplicationSeries.addClientRef, if_neg (hbase.ne_of_member hfree hx)]
  have hmember : previousClientRef ∈ x.clientRefs := hlatest ▸ hbase.latest x hx
  have hnew : toRef "ref" submitted.clientRef ∉ previous.refs := by
    intro href
    obtain ⟨q, hq, hqc⟩ := hbase.known previous hmem _ submitted.valid href
    exact row_eq_none.mp hfree q hq hqc
  rw [SeriesStore.linked, List.mem_map]
  refine ⟨previous, List.mem_filter.mpr ⟨mem_insertApplication.mpr (.inl hmem), ?_⟩, hname⟩
  rw [decide_eq_true_eq, hclientRefs, hname]
  refine ⟨List.mem_append_left _ hmember, fun hsame ↦ hnew ?_⟩
  rw [← hsame]
  refine mem_addToSet.mpr (.inr (mem_seriesRefs.mpr ⟨submitted.clientRef, ?_, rfl⟩))
  exact List.mem_append_right _ (List.mem_singleton_self _)

theorem findApplication_yields {clientRef : String} {held : List SeriesKey}
    {write : SeriesStore → SeriesStore}
    {P : Application → List SeriesKey → (SeriesStore → SeriesStore) → Prop}
    (h : ∀ r, (write base).row clientRef = some r →
      P r.stored.application.application held write) :
    (findApplication clientRef code).Yields base held write P := by
  unfold findApplication
  refine .bind (.read (.orThrow fun a ha ↦ ?_))
  cases hrow : (write base).row clientRef with
  | none =>
    rw [hrow] at ha
    cases ha
  | some r =>
    rw [hrow, Option.bind_some] at ha
    cases hfind : findByClientRefAndCode clientRef code r.stored with
    | none =>
      rw [hfind] at ha
      cases ha
    | some found =>
      rw [hfind] at ha
      obtain rfl := Except.ok.inj ha
      rw [(findByClientRefAndCode_eq_some hfind).1]
      exact h r hrow

theorem linkSeries_yields {clientRefs : List String} {held : List SeriesKey}
    {write : SeriesStore → SeriesStore}
    {P : Unit → List SeriesKey → (SeriesStore → SeriesStore) → Prop}
    (h : P () (held ++ ((write base).linked clientRefs).map fun clientRef ↦
      .stored clientRef .application) ((·.link clientRefs) ∘ write)) :
    (linkSeries clientRefs).Yields base held write P := h

theorem findSeries_eq_ok {clientRef : String} {x : ApplicationSeries}
    (h : findSeries clientRef code s = .ok x) : x ∈ s.series ∧ x.latestClientRef = clientRef := by
  unfold findSeries at h
  cases hfind : s.series.find? (·.latestClientRef = clientRef) with
  | none =>
    rw [hfind] at h
    cases h
  | some y =>
    rw [hfind] at h
    obtain rfl := Except.ok.inj h
    exact ⟨List.mem_of_find?_eq_some hfind, by simpa using List.find?_some hfind⟩

theorem replace_ok :
    (replaceApplicationUseCase catalogue code previousClientRef submitted).Ok (seriesRely code)
      (seriesPromise code catalogue (.replace previousClientRef submitted)) [] s := by
  intro base hbase _ _
  have hx : (replaceApplication catalogue code previousClientRef submitted).Yields base [] id
      fun _ held write ↦ ∃ r previous x clientId now moment positions,
        NewRow code submitted r ∧ base.row submitted.clientRef = none ∧
        base.row previousClientRef = some previous ∧ x ∈ base.series ∧
        x.latestClientRef = previousClientRef ∧
        (catalogue moment).resolvePositions previous.stored.application.application =
          .ok positions ∧
        previous.stored.application.application.fullyQualifiedStatus ∈ positions ∧
        .clientRef submitted.clientRef ∈ held ∧
        .stored submitted.clientRef .application ∈ held ∧ .series x.id ∈ held ∧
        .stored previousClientRef .application ∈ held ∧
        write = fun s ↦ s.replaced r (x.addClientRef submitted.clientRef clientId now) := by
    unfold replaceApplication
    refine .bind (findApplication_yields fun previous hprevious ↦ .bind (.outside fun outside ↦
      .bind (.orThrow fun positions hresolved ↦ ?_)))
    by_cases hallowed : previous.stored.application.application.isReplacementAllowed positions
    · rw [if_pos hallowed]
      refine .bind (createApplication_yields fun clientId r hr hfree ↦ .bind (.read
        (.bind (.orThrow fun x hfound ↦ .bind (.outside fun outside' ↦ .bind (.insert fun _ ↦
          .bind (linkSeries_yields (.bind (mayThrow_yields (.pure ?_))))))))))
      obtain ⟨hx, hlatest⟩ := findSeries_eq_ok hfound
      have hlinked := @mem_linked code base submitted previousClientRef r previous x clientId
        outside'.grant.now hbase hfree hprevious hx hlatest
      refine ⟨r, previous, x, clientId, outside'.grant.now, outside.grant.moment, positions, hr,
        hfree, hprevious, hx, hlatest, hresolved, List.contains_iff_mem.mp hallowed, ?_, ?_, ?_, ?_,
        rfl⟩
      · simp
      · simp
      · simp [ApplicationSeries.addClientRef]
      · exact List.mem_append_right _ (List.mem_map_of_mem hlinked)
    · rw [if_neg hallowed]
      exact .orThrow fun _ h ↦ by cases h
  apply session_ends hx
  rintro _ held write ⟨r, previous, x, clientId, now, moment, positions, hr, hfree, hprevious, hmem,
    hlatest, hresolved, hamendable, hclientRef, hstored, hseries, hheld, rfl⟩ db hdb _ hagree
  have hrow : (base.row submitted.clientRef).isSome = (db.row submitted.clientRef).isSome :=
    hagree (.clientRef submitted.clientRef) hclientRef
  have hfree' : db.row submitted.clientRef = none := by
    rw [hfree] at hrow
    exact Option.not_isSome_iff_eq_none.mp (by rw [← hrow]; simp)
  have hofId : base.ofId x.id = db.ofId x.id := hagree (.series x.id) hseries
  have hmem' : x ∈ db.series := by
    rw [hbase.ofId_eq hmem] at hofId
    exact (ofId_eq_some hofId.symm).1
  have hsame : (base.row previousClientRef).map ApplicationRow.stored =
      (db.row previousClientRef).map ApplicationRow.stored :=
    hagree (.stored previousClientRef .application) hheld rfl
  rw [hprevious, Option.map_some] at hsame
  obtain ⟨standing, hstanding, hunchanged⟩ := Option.map_eq_some_iff.mp hsame.symm
  exact fine_replace hdb ⟨x, hmem', hlatest, standing, hstanding, moment, positions,
    hunchanged ▸ hresolved, hunchanged ▸ hamendable, r, hr.clientRef, hfree', clientId, now, rfl⟩
    hr hclientRef hstored hseries

end

/-! ### Status changes -/

/-- The changes processes store keep the names of the application. -/
theorem GrantProcess.change_names {p : GrantProcess} {a b : Application} {data : EventData}
    {now : String} {change : Application → EventData → String → Except GrantFailure Application}
    (hp : p.change = some change) (h : change a data now = .ok b) :
    b.clientRef = a.clientRef ∧ b.code = a.code := by
  cases p <;> cases hp
  · unfold addedAgreement Application.addAgreement at h
    split at h <;> cases h
    exact ⟨rfl, rfl⟩
  · unfold acceptedAgreement Application.changeAgreement at h
    split at h <;> cases h
    exact ⟨rfl, rfl⟩
  · unfold cancelledAgreement Application.changeAgreement at h
    split at h <;> cases h
    exact ⟨rfl, rfl⟩
  · unfold withdrawnAgreement at h
    split at h <;> cases h
    exact ⟨rfl, rfl⟩
  · unfold terminatedAgreement Application.changeAgreement at h
    split at h <;> cases h
    exact ⟨rfl, rfl⟩

/-- Processes keep the names of the application. -/
theorem Effects.names {c : SideEffectContext} {ps : List GrantProcess} {a b : Application}
    (h : Effects c ps a b) : b.clientRef = a.clientRef ∧ b.code = a.code := by
  induction h with
  | nil => exact ⟨rfl, rfl⟩
  | @cons p ps a b d hp _ ih =>
    have hstep : b.clientRef = a.clientRef ∧ b.code = a.code := by
      cases hp with
      | published _ => exact ⟨rfl, rfl⟩
      | requested _ => exact ⟨rfl, rfl⟩
      | withdrawn _ => exact ⟨rfl, rfl⟩
      | stored hchange _ hstored => exact GrantProcess.change_names hchange hstored
    exact ⟨ih.1.trans hstep.1, ih.2.trans hstep.2⟩

/-- A move keeps the names of the application. -/
theorem MovedBy.names {grant : Grant} {command : StatusCommand} {a b : Application}
    (h : MovedBy grant command a b) : b.clientRef = a.clientRef ∧ b.code = a.code := by
  obtain ⟨target, _, ⟨_, rfl⟩ | ⟨_, _, _, _, heffects⟩⟩ := h
  · exact ⟨rfl, rfl⟩
  · exact heffects.names

section
variable {code : String} {catalogue : Nat → SeriesCatalogue} {db s : SeriesStore}
  {request : SeriesRequest} {c version : String}

/-- What is stored of an application once it has been written to. -/
theorem stored_of_writes {f : GrantStore → GrantStore} {write : SeriesStore → SeriesStore}
    (hw : (applicationPart c).Writes (RowChange c) f write) :
    ((write db).row c).map ApplicationRow.stored = ((db.row c).map ApplicationRow.stored).map f :=
  hw.part db

/-- A write that keeps the names of the application keeps its row named. -/
theorem named_of_writes (hdb : Kept code db) {f : GrantStore → GrantStore}
    {write : SeriesStore → SeriesStore}
    (hw : (applicationPart c).Writes (RowChange c) f write)
    (hf : ∀ g, g.application.application.clientRef = c → g.application.application.code = code →
      (f g).application.application.clientRef = c ∧ (f g).application.application.code = code) :
    ∀ r, (write db).row c = some r → r.stored.application.application.clientRef = c ∧
      r.stored.application.application.code = code := by
  intro r hr
  have hstored := @stored_of_writes db c f write hw
  rw [hr, Option.map_some] at hstored
  cases hrow : db.row c with
  | none =>
    rw [hrow] at hstored
    cases hstored
  | some q =>
    rw [hrow] at hstored
    obtain ⟨hq, rfl⟩ := row_eq_some hrow
    obtain ⟨hclientRef, hcode⟩ := hdb.named q hq
    rw [Option.some.inj hstored]
    exact hf _ hclientRef hcode

/-- A write that keeps the names of the application is in order with its document taken, or
when it changes nothing. -/
theorem fine_writes (hdb : Kept code db)
    (hrequest : ∀ after, RowChange c db after → request.Changes catalogue db after)
    {f : GrantStore → GrantStore} {write : SeriesStore → SeriesStore} {held : List SeriesKey}
    (hw : (applicationPart c).Writes (RowChange c) f write)
    (hf : ∀ g, g.application.application.clientRef = c → g.application.application.code = code →
      (f g).application.application.clientRef = c ∧ (f g).application.application.code = code)
    (hheld : .stored c .application ∈ held ∨ ∀ g, f g = g) :
    Fine (seriesRely code) (seriesPromise code catalogue request).guar db (write db) held := by
  apply fine_rowChange hdb (hw.frame db) (hrequest _ (hw.frame db)) (named_of_writes hdb hw hf)
  rcases hheld with hheld | hsame
  · exact .inl hheld
  · refine .inr ?_
    rw [stored_of_writes hw, funext hsame, Option.map_id']

/-- Writing a version to an application is in order. -/
theorem fine_version {clientRef code' : String} (hdb : Kept code db)
    (hrequest : ∀ after, RowChange c db after → request.Changes catalogue db after) :
    let act := Act.within (applicationPart c)
      (updateCurrentConfigVersion clientRef code' version) db
    Fine (seriesRely code) (seriesPromise code catalogue request).guar db (act.write db)
      act.touch := by
  have hlawful := applicationPart_lawful c
  unfold Act.within
  cases hget : (applicationPart c).get db with
  | none =>
    exact fine_writes hdb hrequest hlawful.writes_id (fun _ hclientRef hcode ↦ ⟨hclientRef, hcode⟩)
      (.inr fun _ ↦ rfl)
  | some g =>
    dsimp only
    unfold updateCurrentConfigVersion
    by_cases hfind : (findByClientRefAndCode clientRef code' g).isSome = true
    · rw [if_pos hfind]
      exact fine_writes hdb hrequest (hlawful.writes_modify hlawful.writes_id _)
        (fun _ hclientRef hcode ↦ ⟨hclientRef, hcode⟩) (.inl (List.mem_singleton_self _))
    · rw [if_neg hfind]
      exact fine_writes hdb hrequest (hlawful.writes_modify hlawful.writes_id _)
        (fun _ hclientRef hcode ↦ ⟨hclientRef, hcode⟩) (.inr fun _ ↦ rfl)

theorem persistResolvedVersion_series_ok {clientRef : String} :
    (SeriesRequest.run catalogue code (.persistResolvedVersion clientRef version)).Ok
      (seriesRely code)
      (seriesPromise code catalogue (.persistResolvedVersion clientRef version)) [] s := by
  intro db hdb _
  have hrequest : ∀ after, RowChange clientRef db after →
      (SeriesRequest.persistResolvedVersion clientRef version).Changes catalogue db after :=
    fun _ h ↦ h
  exact ⟨fine_version hdb hrequest, fun _ _ _ ↦ trivial⟩

/-- The session of a status change is in order on an application that is stored. -/
theorem applyBody_ok {command : StatusCommand} {a : Application} {grant : Grant}
    {failure : GrantFailure} {own : List (SeriesStore × SeriesStore)}
    (hnames : a.clientRef = command.clientRef ∧ a.code = code)
    (hrow : (s.row command.clientRef).isSome = true) :
    Callback.Ok (seriesRely code) (seriesPromise code catalogue (.apply command)).guar
      (seriesPromise code catalogue (.apply command)).allow
      (fun result own s ↦ UseCase.Ok (seriesRely code)
        (seriesPromise code catalogue (.apply command)) (.ret result : SeriesUseCase) own s) own
      (Callback.within (applicationPart command.clientRef) SeriesOutside.grant failure
        (.body (some a) (applyInSession a grant command) : GrantCallback)) s := by
  intro base hbase hle _
  have hlawful := applicationPart_lawful command.clientRef
  obtain ⟨r, hr⟩ := Option.isSome_iff_exists.mp (hle _ hrow)
  have hget : (applicationPart command.clientRef).get base = some r.stored := by
    change (base.row command.clientRef).map _ = _
    rw [hr, Option.map_some]
  have hx := @applyInSession_writes r.stored a grant command
  unfold Writes at hx
  rw [apply_empty] at hx
  apply Session.leads_within hlawful hget hx hlawful.writes_id
  intro result held write write' hw hresult db hdb _
  cases result with
  | error _ => exact fun _ _ _ ↦ trivial
  | ok outcome =>
    intro _
    refine ⟨?_, fun _ _ _ ↦ trivial⟩
    obtain ⟨δ, rfl, hleft⟩ := hresult
    have hrequest : ∀ after, RowChange command.clientRef db after →
        (SeriesRequest.apply command).Changes catalogue db after := fun _ h ↦ h
    rcases hleft with rfl | ⟨hheld, _, b, hb, hmoved⟩
    · rw [apply_empty] at hw
      exact fine_writes hdb hrequest hw (fun _ hclientRef hcode ↦ ⟨hclientRef, hcode⟩)
        (.inr fun _ ↦ rfl)
    · refine fine_writes hdb hrequest hw (fun g _ _ ↦ ?_) (.inl (List.mem_map_of_mem hheld))
      rw [Delta.apply, hb, Option.getD_some, hmoved.names.1, hmoved.names.2]
      exact hnames

theorem apply_ok {command : StatusCommand} :
    (SeriesRequest.run catalogue code (.apply command)).Ok (seriesRely code)
      (seriesPromise code catalogue (.apply command)) [] s := by
  have hrefused : ∀ (failure : GrantFailure) (db : SeriesStore),
      Callback.Ok (seriesRely code) (seriesPromise code catalogue (.apply command)).guar
        (seriesPromise code catalogue (.apply command)).allow
        (fun result own s ↦ UseCase.Ok (seriesRely code)
          (seriesPromise code catalogue (.apply command)) (.ret result : SeriesUseCase) own s) []
        (.fail failure : Callback SeriesKey SeriesStore SeriesOutside GrantFailure
          (Option Application) GrantOutcome) db :=
    fun _ _ _ _ _ _ _ _ ↦ trivial
  simp only [SeriesRequest.run, UseCase.Ok, applyCallback, Callback.within, Callback.Ok]
  intro db seen hdb _ hseen hle _
  cases hget : (applicationPart command.clientRef).get seen with
  | none => exact hrefused _ db
  | some g =>
    obtain ⟨r, hr, rfl⟩ := Option.map_eq_some_iff.mp hget
    have hrow : (db.row command.clientRef).isSome = true :=
      hle _ (Option.isSome_iff_exists.mpr ⟨r, hr⟩)
    dsimp only
    cases hfind : findByClientRefAndCode command.clientRef command.code r.stored with
    | none => exact hrefused _ db
    | some a =>
      obtain ⟨hmem, _⟩ := row_eq_some hr
      obtain ⟨rfl, hclientRef, _⟩ := findByClientRefAndCode_eq_some hfind
      have hnames := And.intro hclientRef (hseen.named r hmem).2
      intro outside
      dsimp only
      cases (catalogue outside.grant.moment).currentGrant
          r.stored.application.application.pinnedVersion with
      | error failure =>
        dsimp only
        exact hrefused failure db
      | ok resolved =>
        obtain ⟨grant, resolvedVersion⟩ := resolved
        cases grant with
        | none =>
          dsimp only
          exact hrefused _ db
        | some grant =>
          dsimp only
          unfold persistResolvedVersion
          cases resolvedVersion with
          | none => exact applyBody_ok hnames hrow
          | some version =>
            dsimp only
            by_cases hsame : version = "" ∨
                some version = r.stored.application.application.currentConfigVersion
            · rw [if_pos hsame]
              exact applyBody_ok hnames hrow
            · rw [if_neg hsame]
              simp only [Callback.within, Callback.Ok]
              intro db' hdb' hle'
              have hrequest : ∀ after, RowChange command.clientRef db' after →
                  (SeriesRequest.apply command).Changes catalogue db' after := fun _ h ↦ h
              have hfine := @fine_version code catalogue db' (.apply command) command.clientRef
                version r.stored.application.application.clientRef
                r.stored.application.application.code hdb' hrequest
              refine ⟨hfine, ?_⟩
              obtain ⟨q, hq⟩ := Option.isSome_iff_exists.mp (hle' _ hrow)
              have hget' : (applicationPart command.clientRef).get db' = some q.stored := by
                change (db'.row command.clientRef).map _ = _
                rw [hq, Option.map_some]
              simp only [hget']
              exact applyBody_ok hnames (hfine.le _ (hle' _ hrow))

end

/-! ### Every run -/

/-- The application a request replaces. -/
def SeriesRequest.replaces : SeriesRequest → Option String
  | .replace previousClientRef _ => some previousClientRef
  | _ => none

/-- The application is in a series whose latest is another. -/
def Superseded (c : String) (s : SeriesStore) : Prop :=
  ∃ x ∈ s.series, c ∈ x.clientRefs ∧ x.latestClientRef ≠ c

section
variable {code c previousClientRef : String} {catalogue : Nat → SeriesCatalogue}
  {s before after : SeriesStore} {submitted : SubmittedApplication} {request : SeriesRequest}

theorem series_run_ok (request : SeriesRequest) :
    (request.run catalogue code).Ok (seriesRely code)
      (seriesPromise code catalogue request) [] s := by
  cases request with
  | submit submitted => exact submit_ok
  | replace previousClientRef submitted => exact replace_ok
  | apply command => exact apply_ok
  | persistResolvedVersion clientRef version => exact persistResolvedVersion_series_ok

theorem isReplaced_eq_true {x : ApplicationSeries} :
    x.isReplaced c = true ↔ c ∈ x.clientRefs ∧ x.latestClientRef ≠ c := by
  simp [ApplicationSeries.isReplaced]

theorem mem_addClientRef {x : ApplicationSeries} {clientRef clientId now : String}
    (h : c ∈ x.clientRefs) : c ∈ (x.addClientRef clientRef clientId now).clientRefs := by
  unfold ApplicationSeries.addClientRef
  dsimp only
  split
  · exact h
  · exact List.mem_append_left _ h

/-- A replacement is of an application that has not been replaced, and has been then. -/
theorem Replacement.superseded (hbefore : Kept code before)
    (h : Replacement catalogue previousClientRef submitted before after) :
    ¬ Superseded previousClientRef before ∧ Superseded previousClientRef after := by
  have hmember := hbefore.latest _ h.mem
  rw [h.latest] at hmember
  constructor
  · rintro ⟨x, hx, hmem, hne⟩
    rw [hbefore.apart x hx h.series h.mem previousClientRef hmem hmember] at hne
    exact hne h.latest
  · have hother : submitted.clientRef ≠ previousClientRef := by
      intro heq
      have hfresh := h.fresh
      rw [heq, h.found] at hfresh
      cases hfresh
    have hseries := @Kept.mem_replaced code before h.row h.series hbefore
      (h.series.addClientRef submitted.clientRef h.clientId h.now)
      (h.series.addClientRef submitted.clientRef h.clientId h.now) h.mem rfl
    rw [h.eq]
    exact ⟨_, hseries.mpr (.inl rfl), mem_addClientRef hmember, hother⟩

/-- Who has been replaced stays replaced. -/
theorem Superseded.kept (hbefore : Kept code before)
    (hchange : request.Changes catalogue before after) (h : Superseded c before) :
    Superseded c after := by
  obtain ⟨x, hx, hmem, hne⟩ := h
  cases request with
  | submit submitted =>
    obtain ⟨_, r, id, clientId, now, _, rfl⟩ := hchange
    exact ⟨x, mem_insertSeries.mpr (.inl hx), hmem, hne⟩
  | replace previousClientRef submitted =>
    obtain ⟨replacement⟩ := hchange
    rw [replacement.eq]
    have hseries := fun y ↦ @Kept.mem_replaced code before replacement.row replacement.series
      hbefore (replacement.series.addClientRef submitted.clientRef replacement.clientId
        replacement.now) y replacement.mem rfl
    by_cases hsame : x = replacement.series
    · refine ⟨_, (hseries _).mpr (.inl rfl), mem_addClientRef (hsame ▸ hmem), fun hlatest ↦ ?_⟩
      have hfree := hbefore.ne_of_member replacement.fresh hx
      exact hfree ((show submitted.clientRef = c from hlatest) ▸ hmem)
    · exact ⟨x, (hseries x).mpr (.inr ⟨hx, hsame⟩), hmem, hne⟩
  | apply command => exact ⟨x, hchange.series ▸ hx, hmem, hne⟩
  | persistResolvedVersion clientRef version => exact ⟨x, hchange.series ▸ hx, hmem, hne⟩

end

section
variable {T : Type} [DecidableEq T]

/-- In every run of submissions, replacements and status changes, from a store in order: each
application is in one series, whose members are applications and whose latest is one of them; it
has been replaced exactly when it is not the latest; it has a ref of every application of its
series; no application is replaced twice; and each replacement is of the latest of its series,
standing at an amendable position when it is committed. -/
theorem series_kept (code : String) (catalogue : Nat → SeriesCatalogue)
    (requests : T → SeriesRequest) {s₀ : SeriesStore} (h₀ : Kept code s₀)
    {ls : List (T × Store.Move SeriesOutside)}
    {s : System SeriesKey SeriesStore SeriesOutside GrantFailure (Option Application) GrantOutcome
      (Except GrantFailure GrantOutcome) T}
    (h : Run System.step anyStep
      (System.start s₀ fun t ↦ (requests t).run catalogue code) ls s) :
    (∀ r ∈ s.db.applications, ∃! x, x ∈ s.db.series ∧ r.clientRef ∈ x.clientRefs) ∧
    (∀ x ∈ s.db.series, x.clientRefs.Nodup ∧ x.latestClientRef ∈ x.clientRefs ∧
      ∀ c ∈ x.clientRefs, ∃ r, s.db.row c = some r ∧
        ((∃ y ∈ s.db.series, y.isReplaced c = true) ↔ x.latestClientRef ≠ c) ∧
        ∀ d ∈ x.clientRefs, toRef "ref" d ∈ r.refs) ∧
    (∀ c, s.log.countP (fun change ↦ (requests change.thread).replaces = some c) ≤ 1) ∧
    ∀ change ∈ s.log, ∀ previousClientRef submitted,
      requests change.thread = .replace previousClientRef submitted →
      Nonempty (Replacement catalogue previousClientRef submitted change.before change.after) := by
  have hsound : Sound (seriesRely code) (fun t ↦ seriesPromise code catalogue (requests t)) s₀ s :=
    run_sound h₀ (fun t ↦ series_run_ok (requests t))
      (run_admitted (p := fun t ↦ seriesPromise code catalogue (requests t))
        (fun _ _ _ ↦ trivial) h)
  have hkept : Kept code s.db := hsound.inv
  have hlog := hsound.log
  refine ⟨fun r hr ↦ ?_, fun x hx ↦ ⟨hkept.distinct x hx, hkept.latest x hx, fun c hc ↦ ?_⟩,
    fun c ↦ ?_, fun change hchange previousClientRef submitted hrequest ↦ ?_⟩
  · obtain ⟨x, hx, hmem⟩ := hkept.covered r hr
    exact ⟨x, ⟨hx, hmem⟩, fun y hy ↦ hkept.apart y hy.1 x hx _ hy.2 hmem⟩
  · obtain ⟨r, hr, rfl⟩ := hkept.members x hx c hc
    refine ⟨r, hkept.row_eq hr, ?_, hkept.linked x hx r hr hc⟩
    constructor
    · rintro ⟨y, hy, hreplaced⟩
      obtain ⟨hmem, hne⟩ := isReplaced_eq_true.mp hreplaced
      rwa [hkept.apart y hy x hx _ hmem hc] at hne
    · exact fun hne ↦ ⟨x, hx, isReplaced_eq_true.mpr ⟨hc, hne⟩⟩
  · have hchain : Chained s₀ s.log s.db := hsound.chain
    apply hchain.once (P := Superseded c)
    · exact fun change hchange ↦ Superseded.kept (hlog change hchange).1 (hlog change hchange).2
    · intro change hchange hbrings
      obtain ⟨hbefore, hguar⟩ := hlog change hchange
      cases hrequest : requests change.thread with
      | replace previousClientRef submitted =>
        rw [hrequest] at hguar hbrings
        obtain ⟨replacement⟩ := hguar
        obtain rfl : previousClientRef = c := by simpa [SeriesRequest.replaces] using hbrings
        exact replacement.superseded hbefore
      | submit submitted => simp [hrequest, SeriesRequest.replaces] at hbrings
      | apply command => simp [hrequest, SeriesRequest.replaces] at hbrings
      | persistResolvedVersion clientRef version =>
        simp [hrequest, SeriesRequest.replaces] at hbrings
  · have hguar := (hlog change hchange).2
    rw [hrequest] at hguar
    exact hguar

end

/-- A grant whose applications are received at its only position. -/
def receivingGrant : Grant where
  code := "woodland"
  phases := [⟨"PRE_AWARD", [⟨"ASSESSMENT", [⟨"APPLICATION_RECEIVED", [], []⟩]⟩]⟩]
  externalStatusMap := []
  entitlementTemplates := []
  onClaimApproval := none

/-- The catalogue with that grant, amendable where it receives applications. -/
def receivingCatalogue : SeriesCatalogue where
  currentGrant _ := .ok (some receivingGrant, some "1.0.0")
  paymentDefined _ := false
  amendablePositions _ := ["PRE_AWARD:ASSESSMENT:APPLICATION_RECEIVED"]

/-- An application submitted under a reference. -/
def submittedAs (clientRef : String) (valid : validClientRef clientRef = true) :
    SubmittedApplication :=
  ⟨clientRef, ⟨"106284736", "1102838829", "1105658066"⟩, valid⟩

/-- An application, and two that replace it. -/
def twoReplacements : Fin 3 → SeriesRequest
  | 0 => .submit (submittedAs "ref-a" (by decide))
  | 1 => .replace "ref-a" (submittedAs "ref-b" (by decide))
  | 2 => .replace "ref-a" (submittedAs "ref-c" (by decide))

/-- What the world answers a request that draws an id. -/
def answerOf (id : String) : SeriesOutside :=
  ⟨⟨0, "2026-10-01", none, id, none, []⟩, .ok (receivingGrant, "1.0.0")⟩

/-- The application is submitted, and then the replacements race: the second reads the
application before the first is committed, aborts at the series, and starts again. -/
def racedReplacements : List (Fin 3 × Store.Move SeriesOutside) :=
  let submit := [.go, .go, .ask (answerOf "id-a"), .ask (answerOf "id-a"), .go,
    .ask (answerOf "id-a"), .ask (answerOf "id-s"), .go, .ask (answerOf "id-s"), .go]
  let create := fun id ↦ [.go, .go, .go, .ask (answerOf id), .ask (answerOf id),
    .ask (answerOf id), .go, .ask (answerOf id), .go, .ask (answerOf id)]
  submit.map (fun move ↦ (0, move)) ++ (create "id-b").map (fun move ↦ (1, move)) ++
    (create "id-c").map (fun move ↦ (2, move)) ++
    [(1, .go), (1, .go), (1, .ask (answerOf "id-b")), (1, .go), (2, .abort)]

/-- The race leaves one series, of the application and the replacement that was committed. -/
theorem series_kept_raced :
    ∃ s, exec System.step (System.start (T := Fin 3) ⟨[], []⟩ fun t ↦
        (twoReplacements t).run (fun _ ↦ receivingCatalogue) "woodland") racedReplacements =
        some s ∧
      s.db.series.map (fun x ↦ (x.clientRefs, x.latestClientRef)) =
        [(["ref-a", "ref-b"], "ref-b")] ∧
      s.log.countP
        (fun change ↦ (twoReplacements change.thread).replaces = some "ref-a") ≤ 1 := by
  have hexec : (exec System.step (System.start (T := Fin 3) ⟨[], []⟩ fun t ↦
      (twoReplacements t).run (fun _ ↦ receivingCatalogue) "woodland") racedReplacements).map
      (fun s ↦ s.db.series.map fun x ↦ (x.clientRefs, x.latestClientRef)) =
      some [(["ref-a", "ref-b"], "ref-b")] := by
    decide +kernel
  obtain ⟨s, hs, hseries⟩ := Option.map_eq_some_iff.mp hexec
  have hkept := series_kept "woodland" (fun _ ↦ receivingCatalogue) twoReplacements
    (kept_empty "woodland") (Run.of_exec hs)
  exact ⟨s, hs, hseries, hkept.2.2.1 "ref-a"⟩

end FgGas.Grants
