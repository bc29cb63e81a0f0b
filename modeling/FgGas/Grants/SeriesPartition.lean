import FgGas.Grants.Series

/-!
# The partition of the applications into series

Each application is in one series, and has a ref of each application of it. What a submission, a
replacement and a write to one application make of this.
-/

namespace FgGas.Grants

open Store

/-! ### Refs -/

section
variable {c d : String}

/-- A client reference has no upper case. -/
theorem toLower_eq (h : validClientRef c = true) : c.toLower = c := by
  have hall := (Bool.and_eq_true_iff.mp h).2
  rw [List.all_eq_true] at hall
  apply String.ext
  show (c.map Char.toLower).toList = c.toList
  rw [String.toList_map]
  conv_rhs => rw [← List.map_id c.toList]
  apply List.map_congr_left
  intro x hx
  have hlower : ¬ (x.val ≥ 'A'.val ∧ x.val ≤ 'Z'.val) := by
    rintro ⟨hA, hZ⟩
    have hx := hall x hx
    simp only [Bool.or_eq_true, Bool.and_eq_true, decide_eq_true_eq] at hx
    rcases hx with (⟨ha, _⟩ | ⟨_, h9⟩) | rfl
    · exact absurd (UInt32.le_trans ha hZ) (by decide)
    · exact absurd (UInt32.le_trans hA h9) (by decide)
    · exact absurd hA (by decide)
  exact dif_neg hlower

/-- The refs of client references tell them apart. -/
theorem toRef_injective (hc : validClientRef c = true) (hd : validClientRef d = true)
    (h : toRef "ref" c = toRef "ref" d) : c = d := by
  rw [toRef, toRef, toLower_eq hc, toLower_eq hd] at h
  exact (String.append_right_inj _).mp h

/-- A ref of a client reference is none of another kind. -/
theorem toRef_ne {kind value : String} (hkind : kind.toList.head? ≠ some 'r') :
    toRef "ref" c ≠ toRef kind value := by
  intro h
  have hhead := congrArg (fun ref : String ↦ ref.toList.head?) h
  cases hlist : kind.toList with
  | nil => simp [toRef, hlist] at hhead
  | cons first rest =>
    rw [hlist, List.head?_cons] at hkind
    have hr : some 'r' = some first := by simpa [toRef, hlist] using hhead
    exact hkind hr.symm

/-- The only ref of a client reference among an application's own is that of its own. -/
theorem toRef_mem_applicationRefs {identifiers : Identifiers}
    {agreements : List ApplicationAgreement}
    (h : toRef "ref" c ∈ applicationRefs d identifiers agreements) :
    toRef "ref" c = toRef "ref" d := by
  rw [applicationRefs, List.mem_eraseDups] at h
  simp only [List.cons_append, List.nil_append, List.mem_cons, List.mem_map] at h
  rcases h with h | h | h | h | ⟨agreement, _, h⟩
  · exact h
  · exact absurd h (toRef_ne (by decide))
  · exact absurd h (toRef_ne (by decide))
  · exact absurd h (toRef_ne (by decide))
  · exact absurd h.symm (toRef_ne (by decide))

theorem mem_applicationRefs {identifiers : Identifiers} {agreements : List ApplicationAgreement} :
    toRef "ref" c ∈ applicationRefs c identifiers agreements := by
  simp [applicationRefs]

theorem mem_seriesRefs {clientRefs : List String} {ref : String} :
    ref ∈ seriesRefs clientRefs ↔ ∃ c ∈ clientRefs, toRef "ref" c = ref := by
  simp [seriesRefs]

theorem mem_addToSet {refs each : List String} {ref : String} :
    ref ∈ addToSet refs each ↔ ref ∈ refs ∨ ref ∈ each := by
  rw [addToSet, List.mem_append, List.mem_filter, decide_eq_true_eq]
  by_cases h : ref ∈ refs <;> simp [h]

end

/-! ### The invariant -/

/-- The applications of the code and their series: each application in one series, with the
refs of all in it. -/
structure Kept (code : String) (s : SeriesStore) : Prop where
  rows : (s.applications.map ApplicationRow.clientRef).Nodup
  valid : ∀ r ∈ s.applications, validClientRef r.clientRef = true
  named : ∀ r ∈ s.applications, r.stored.application.application.clientRef = r.clientRef ∧
    r.stored.application.application.code = code
  ids : (s.series.map ApplicationSeries.id).Nodup
  covered : ∀ r ∈ s.applications, ∃ x ∈ s.series, r.clientRef ∈ x.clientRefs
  members : ∀ x ∈ s.series, ∀ c ∈ x.clientRefs, ∃ r ∈ s.applications, r.clientRef = c
  apart : ∀ x ∈ s.series, ∀ y ∈ s.series, ∀ c ∈ x.clientRefs, c ∈ y.clientRefs → x = y
  distinct : ∀ x ∈ s.series, x.clientRefs.Nodup
  latest : ∀ x ∈ s.series, x.latestClientRef ∈ x.clientRefs
  linked : ∀ x ∈ s.series, ∀ r ∈ s.applications, r.clientRef ∈ x.clientRefs →
    ∀ c ∈ x.clientRefs, toRef "ref" c ∈ r.refs
  known : ∀ r ∈ s.applications, ∀ c, validClientRef c = true → toRef "ref" c ∈ r.refs →
    ∃ q ∈ s.applications, q.clientRef = c

/-- Nothing stored. -/
theorem kept_empty (code : String) : Kept code ⟨[], []⟩ := by
  constructor <;> simp

section
variable {code c : String} {s s' : SeriesStore} {r : ApplicationRow} {x : ApplicationSeries}

theorem row_eq_some (h : s.row c = some r) : r ∈ s.applications ∧ r.clientRef = c :=
  ⟨List.mem_of_find?_eq_some h, by simpa using List.find?_some h⟩

theorem row_eq_none : s.row c = none ↔ ∀ r ∈ s.applications, r.clientRef ≠ c := by
  simp [SeriesStore.row]

theorem row_isSome : (s.row c).isSome = true ↔ ∃ r ∈ s.applications, r.clientRef = c := by
  simp [SeriesStore.row]

/-- The row of an application. -/
theorem Kept.row_eq (h : Kept code s) (hr : r ∈ s.applications) : s.row r.clientRef = some r := by
  cases hfind : s.row r.clientRef with
  | none => exact absurd rfl (row_eq_none.mp hfind r hr)
  | some q =>
    have hq := row_eq_some hfind
    rw [List.inj_on_of_nodup_map h.rows hq.1 hr hq.2]

theorem ofId_eq_some {id : String} (h : s.ofId id = some x) : x ∈ s.series ∧ x.id = id :=
  ⟨List.mem_of_find?_eq_some h, by simpa using List.find?_some h⟩

theorem Kept.ofId_eq (h : Kept code s) (hx : x ∈ s.series) : s.ofId x.id = some x := by
  cases hfind : s.ofId x.id with
  | none =>
    have hnone := List.find?_eq_none.mp hfind x hx
    simp at hnone
  | some y =>
    have hy := ofId_eq_some hfind
    rw [List.inj_on_of_nodup_map h.ids hy.1 hx hy.2]

@[simp] theorem mem_insertApplication {q : ApplicationRow} :
    q ∈ (s.insertApplication r).applications ↔ q ∈ s.applications ∨ q = r := by
  simp [SeriesStore.insertApplication]

@[simp] theorem mem_insertSeries {y : ApplicationSeries} :
    y ∈ (s.insertSeries x).series ↔ y ∈ s.series ∨ y = x := by
  simp [SeriesStore.insertSeries]

/-- A member of a series stored is not the reference of a new application. -/
theorem Kept.ne_of_member (h : Kept code s) (hfree : s.row c = none) (hx : x ∈ s.series) :
    c ∉ x.clientRefs := by
  intro hmem
  obtain ⟨q, hq, hqc⟩ := h.members x hx c hmem
  exact row_eq_none.mp hfree q hq hqc

/-- The references stay apart with a new one. -/
theorem Kept.rows_insert (h : Kept code s) (hfree : s.row r.clientRef = none) :
    ((s.insertApplication r).applications.map ApplicationRow.clientRef).Nodup := by
  have hnew : r.clientRef ∉ s.applications.map ApplicationRow.clientRef := by
    intro hmem
    obtain ⟨q, hq, hqc⟩ := List.mem_map.mp hmem
    exact row_eq_none.mp hfree q hq hqc
  rw [SeriesStore.insertApplication, List.map_append, List.map_singleton]
  exact List.nodup_append_comm.mp (List.nodup_cons.mpr ⟨hnew, h.rows⟩)

/-- A submission keeps the invariant. -/
theorem Kept.submit (h : Kept code s) {latestClientId id now : String}
    (hvalid : validClientRef r.clientRef = true)
    (hnamed : r.stored.application.application.clientRef = r.clientRef ∧
      r.stored.application.application.code = code)
    (hrefs : r.refs = r.own) (hfree : s.row r.clientRef = none) (hid : s.ofId id = none) :
    Kept code ((s.insertApplication r).insertSeries (.new id latestClientId r.clientRef now)) where
  rows := h.rows_insert hfree
  valid := by
    intro q hq
    rcases mem_insertApplication.mp hq with hq | rfl
    · exact h.valid q hq
    · exact hvalid
  named := by
    intro q hq
    rcases mem_insertApplication.mp hq with hq | rfl
    · exact h.named q hq
    · exact hnamed
  ids := by
    have hnew : id ∉ s.series.map ApplicationSeries.id := by
      intro hmem
      obtain ⟨y, hy, rfl⟩ := List.mem_map.mp hmem
      rw [h.ofId_eq hy] at hid
      cases hid
    rw [SeriesStore.insertSeries, List.map_append]
    exact List.nodup_append_comm.mp (List.nodup_cons.mpr ⟨hnew, h.ids⟩)
  covered := by
    intro q hq
    rcases mem_insertApplication.mp hq with hq | rfl
    · obtain ⟨x, hx, hmem⟩ := h.covered q hq
      exact ⟨x, mem_insertSeries.mpr (.inl hx), hmem⟩
    · exact ⟨_, mem_insertSeries.mpr (.inr rfl), List.mem_singleton_self _⟩
  members := by
    intro x hx c hc
    rcases mem_insertSeries.mp hx with hx | rfl
    · obtain ⟨q, hq, hqc⟩ := h.members x hx c hc
      exact ⟨q, mem_insertApplication.mpr (.inl hq), hqc⟩
    · exact ⟨r, mem_insertApplication.mpr (.inr rfl), (List.mem_singleton.mp hc).symm⟩
  apart := by
    intro x hx y hy c hcx hcy
    rcases mem_insertSeries.mp hx with hx | rfl <;> rcases mem_insertSeries.mp hy with hy | rfl
    · exact h.apart x hx y hy c hcx hcy
    · exact absurd (List.mem_singleton.mp hcy ▸ hcx) (h.ne_of_member hfree hx)
    · exact absurd (List.mem_singleton.mp hcx ▸ hcy) (h.ne_of_member hfree hy)
    · rfl
  distinct := by
    intro x hx
    rcases mem_insertSeries.mp hx with hx | rfl
    · exact h.distinct x hx
    · exact List.nodup_singleton _
  latest := by
    intro x hx
    rcases mem_insertSeries.mp hx with hx | rfl
    · exact h.latest x hx
    · exact List.mem_singleton_self _
  linked := by
    intro x hx q hq hmem c hc
    rcases mem_insertSeries.mp hx with hx | rfl
    · rcases mem_insertApplication.mp hq with hq | rfl
      · exact h.linked x hx q hq hmem c hc
      · exact absurd hmem (h.ne_of_member hfree hx)
    · rcases mem_insertApplication.mp hq with hq | rfl
      · exact absurd (List.mem_singleton.mp hmem) (row_eq_none.mp hfree q hq)
      · rw [List.mem_singleton.mp hc, hrefs]
        exact mem_applicationRefs
  known := by
    intro q hq c hc hmem
    rcases mem_insertApplication.mp hq with hq | rfl
    · obtain ⟨p, hp, hpc⟩ := h.known q hq c hc hmem
      exact ⟨p, mem_insertApplication.mpr (.inl hp), hpc⟩
    · rw [hrefs] at hmem
      have hsame := toRef_injective hc hvalid (toRef_mem_applicationRefs hmem)
      exact ⟨q, mem_insertApplication.mpr (.inr rfl), hsame.symm⟩

/-- The store once an application has been replaced by a new one. -/
def SeriesStore.replaced (s : SeriesStore) (r : ApplicationRow) (x : ApplicationSeries) :
    SeriesStore :=
  ((s.insertApplication r).replaceSeries x).link x.clientRefs

/-- A row with the refs of its series, if it is in it. -/
def ApplicationRow.linkIn (clientRefs : List String) (r : ApplicationRow) : ApplicationRow :=
  if r.clientRef ∈ clientRefs then r.link (seriesRefs clientRefs) else r

@[simp] theorem linkIn_clientRef {clientRefs : List String} :
    (r.linkIn clientRefs).clientRef = r.clientRef := by
  unfold ApplicationRow.linkIn
  split <;> rfl

@[simp] theorem linkIn_stored {clientRefs : List String} :
    (r.linkIn clientRefs).stored = r.stored := by
  unfold ApplicationRow.linkIn
  split <;> rfl

theorem mem_linkIn_refs {clientRefs : List String} {ref : String} :
    ref ∈ (r.linkIn clientRefs).refs ↔ ref ∈ r.refs ∨
      r.clientRef ∈ clientRefs ∧ ref ∈ seriesRefs clientRefs := by
  unfold ApplicationRow.linkIn
  by_cases hmem : r.clientRef ∈ clientRefs
  · simp [hmem, ApplicationRow.link, mem_addToSet]
  · simp [hmem]

theorem replaced_applications : (s.replaced r x).applications =
    (s.insertApplication r).applications.map (ApplicationRow.linkIn x.clientRefs) := rfl

/-- The series are those before, with the one of the replacement in its place. -/
theorem Kept.mem_replaced (h : Kept code s) {x' y : ApplicationSeries} (hx : x ∈ s.series)
    (hid : x'.id = x.id) :
    y ∈ (s.replaced r x').series ↔ y = x' ∨ y ∈ s.series ∧ y ≠ x := by
  have hseries : (s.replaced r x').series =
      s.series.map fun y ↦ if y.id = x.id then x' else y := by
    rw [← hid]
    rfl
  rw [hseries, List.mem_map]
  constructor
  · rintro ⟨z, hz, rfl⟩
    by_cases hsame : z.id = x.id
    · rw [if_pos hsame]
      exact .inl rfl
    · rw [if_neg hsame]
      exact .inr ⟨hz, fun heq ↦ hsame (heq ▸ rfl)⟩
  · rintro (rfl | ⟨hy, hne⟩)
    · exact ⟨x, hx, if_pos rfl⟩
    · refine ⟨y, hy, if_neg fun hsame ↦ ?_⟩
      exact hne (List.inj_on_of_nodup_map h.ids hy hx hsame)

/-- A replacement keeps the invariant. -/
theorem Kept.replace (h : Kept code s) {clientId now : String}
    (hvalid : validClientRef r.clientRef = true)
    (hnamed : r.stored.application.application.clientRef = r.clientRef ∧
      r.stored.application.application.code = code)
    (hrefs : r.refs = r.own) (hfree : s.row r.clientRef = none) (hx : x ∈ s.series) :
    Kept code (s.replaced r (x.addClientRef r.clientRef clientId now)) := by
  generalize hx' : x.addClientRef r.clientRef clientId now = x'
  have hid : x'.id = x.id := by rw [← hx']; rfl
  have hclientRefs : x'.clientRefs = x.clientRefs ++ [r.clientRef] := by
    rw [← hx', ApplicationSeries.addClientRef, if_neg (h.ne_of_member hfree hx)]
  have hlatest : x'.latestClientRef = r.clientRef := by rw [← hx']; rfl
  have hseries := fun y ↦ @Kept.mem_replaced code s r x h x' y hx hid
  have hrow : ∀ q, q ∈ (s.replaced r x').applications ↔
      ∃ p, (p ∈ s.applications ∨ p = r) ∧ p.linkIn x'.clientRefs = q := by
    intro q
    rw [replaced_applications, List.mem_map]
    simp only [mem_insertApplication]
  have hin : ∀ c, c ∈ x'.clientRefs ↔ c ∈ x.clientRefs ∨ c = r.clientRef := by
    intro c
    rw [hclientRefs, List.mem_append, List.mem_singleton]
  have hexists : ∀ c, (∃ p, (p ∈ s.applications ∨ p = r) ∧ p.clientRef = c) →
      ∃ q ∈ (s.replaced r x').applications, q.clientRef = c := by
    rintro c ⟨p, hp, rfl⟩
    exact ⟨_, (hrow _).mpr ⟨p, hp, rfl⟩, linkIn_clientRef⟩
  -- no other series has a member in common with the one of the replacement
  have hother : ∀ y ∈ s.series, y ≠ x → ∀ c ∈ y.clientRefs, c ∉ x'.clientRefs := by
    intro y hy hne c hc hc'
    rcases (hin c).mp hc' with hc' | rfl
    · exact hne (h.apart y hy x hx c hc hc')
    · exact h.ne_of_member hfree hy hc
  have hmember : ∀ c ∈ x'.clientRefs, ∃ p, (p ∈ s.applications ∨ p = r) ∧ p.clientRef = c := by
    intro c hc
    rcases (hin c).mp hc with hc | rfl
    · obtain ⟨p, hp, hpc⟩ := h.members x hx c hc
      exact ⟨p, .inl hp, hpc⟩
    · exact ⟨r, .inr rfl, rfl⟩
  constructor
  case rows =>
    rw [replaced_applications, List.map_map]
    have hsame : ApplicationRow.clientRef ∘ ApplicationRow.linkIn x'.clientRefs =
        ApplicationRow.clientRef := by
      funext p
      exact linkIn_clientRef
    rw [hsame]
    exact h.rows_insert hfree
  case valid =>
    intro q hq
    obtain ⟨p, hp, rfl⟩ := (hrow q).mp hq
    rw [linkIn_clientRef]
    rcases hp with hp | rfl
    · exact h.valid p hp
    · exact hvalid
  case named =>
    intro q hq
    obtain ⟨p, hp, rfl⟩ := (hrow q).mp hq
    rw [linkIn_clientRef, linkIn_stored]
    rcases hp with hp | rfl
    · exact h.named p hp
    · exact hnamed
  case ids =>
    have hmap : (s.replaced r x').series.map ApplicationSeries.id =
        s.series.map ApplicationSeries.id := by
      change (s.series.map _).map _ = _
      rw [List.map_map]
      refine List.map_congr_left fun y _ ↦ ?_
      rw [Function.comp_apply]
      split
      · next hsame => exact hsame.symm
      · rfl
    rw [hmap]
    exact h.ids
  case covered =>
    intro q hq
    obtain ⟨p, hp, rfl⟩ := (hrow q).mp hq
    rw [linkIn_clientRef]
    rcases hp with hp | rfl
    · obtain ⟨y, hy, hmem⟩ := h.covered p hp
      by_cases hsame : y = x
      · exact ⟨x', (hseries x').mpr (.inl rfl), (hin _).mpr (.inl (hsame ▸ hmem))⟩
      · exact ⟨y, (hseries y).mpr (.inr ⟨hy, hsame⟩), hmem⟩
    · exact ⟨x', (hseries x').mpr (.inl rfl), (hin _).mpr (.inr rfl)⟩
  case members =>
    intro y hy c hc
    apply hexists
    rcases (hseries y).mp hy with rfl | ⟨hy, _⟩
    · exact hmember c hc
    · obtain ⟨p, hp, hpc⟩ := h.members y hy c hc
      exact ⟨p, .inl hp, hpc⟩
  case apart =>
    intro y hy z hz c hcy hcz
    rcases (hseries y).mp hy with rfl | ⟨hold, hyx⟩ <;>
      rcases (hseries z).mp hz with rfl | ⟨hold', hzx⟩
    · rfl
    · exact absurd hcy (hother z hold' hzx c hcz)
    · exact absurd hcz (hother y hold hyx c hcy)
    · exact h.apart y hold z hold' c hcy hcz
  case distinct =>
    intro y hy
    rcases (hseries y).mp hy with rfl | ⟨hy, _⟩
    · rw [hclientRefs]
      refine List.nodup_append_comm.mp (List.nodup_cons.mpr ⟨h.ne_of_member hfree hx, ?_⟩)
      exact h.distinct x hx
    · exact h.distinct y hy
  case latest =>
    intro y hy
    rcases (hseries y).mp hy with rfl | ⟨hy, _⟩
    · rw [hlatest]
      exact (hin _).mpr (.inr rfl)
    · exact h.latest y hy
  case linked =>
    intro y hy q hq hmem c hc
    obtain ⟨p, hp, rfl⟩ := (hrow q).mp hq
    rw [linkIn_clientRef] at hmem
    rw [mem_linkIn_refs]
    rcases (hseries y).mp hy with rfl | ⟨hold, _⟩
    · exact .inr ⟨hmem, mem_seriesRefs.mpr ⟨c, hc, rfl⟩⟩
    · rcases hp with hp | rfl
      · exact .inl (h.linked y hold p hp hmem c hc)
      · exact absurd hmem (h.ne_of_member hfree hold)
  case known =>
    intro q hq c hc hmem
    obtain ⟨p, hp, rfl⟩ := (hrow q).mp hq
    apply hexists
    rcases mem_linkIn_refs.mp hmem with hmem | ⟨_, hmem⟩
    · rcases hp with hp | rfl
      · obtain ⟨o, ho, hoc⟩ := h.known p hp c hc hmem
        exact ⟨o, .inl ho, hoc⟩
      · rw [hrefs] at hmem
        have hsame := toRef_injective hc hvalid (toRef_mem_applicationRefs hmem)
        exact ⟨p, .inr rfl, hsame.symm⟩
    · obtain ⟨d, hd, hsame⟩ := mem_seriesRefs.mp hmem
      obtain ⟨o, ho, rfl⟩ := hmember d hd
      have hvalid' : validClientRef o.clientRef = true := by
        rcases ho with ho | rfl
        · exact h.valid o ho
        · exact hvalid
      exact ⟨o, ho, toRef_injective hvalid' hc hsame⟩

/-- What a write to what is stored of one application may change: that row, whose refs it may
add to with refs of its own. -/
structure RowChange (c : String) (s s' : SeriesStore) : Prop where
  series : s'.series = s.series
  rows : ∃ g : ApplicationRow → ApplicationRow, s'.applications = s.applications.map g ∧
    ∀ r, (g r).clientRef = r.clientRef ∧ (g r).identifiers = r.identifiers ∧
      (r.clientRef ≠ c → g r = r) ∧ (∀ ref ∈ r.refs, ref ∈ (g r).refs) ∧
      ∀ ref ∈ (g r).refs, ref ∈ r.refs ∨
        ∃ agreements, ref ∈ applicationRefs r.clientRef r.identifiers agreements

theorem write_refs {f : GrantStore → GrantStore} {ref : String} (h : ref ∈ (r.write f).refs) :
    ref ∈ r.refs ∨ ∃ agreements, ref ∈ applicationRefs r.clientRef r.identifiers agreements :=
  (mem_addToSet.mp h).imp_right fun hmem ↦ ⟨_, hmem⟩

theorem refs_subset_write {f : GrantStore → GrantStore} {ref : String} (h : ref ∈ r.refs) :
    ref ∈ (r.write f).refs :=
  mem_addToSet.mpr (.inl h)

@[simp] theorem write_clientRef {f : GrantStore → GrantStore} :
    (r.write f).clientRef = r.clientRef := rfl

@[simp] theorem write_stored {f : GrantStore → GrantStore} : (r.write f).stored = f r.stored := rfl

@[simp] theorem write_identifiers {f : GrantStore → GrantStore} :
    (r.write f).identifiers = r.identifiers := rfl

/-- The row of a reference once all rows have been changed that keep their references. -/
theorem row_map {g : ApplicationRow → ApplicationRow}
    (hg : ∀ r, (g r).clientRef = r.clientRef) (h : s'.applications = s.applications.map g) :
    s'.row c = (s.row c).map g := by
  rw [SeriesStore.row, h, List.find?_map, SeriesStore.row]
  have hsame : ((fun r : ApplicationRow ↦ decide (r.clientRef = c)) ∘ g) =
      fun r : ApplicationRow ↦ decide (r.clientRef = c) := by
    funext r
    simp only [Function.comp_apply, hg]
  rw [hsame]

theorem RowChange.refl (s : SeriesStore) : RowChange c s s :=
  ⟨rfl, id, (List.map_id _).symm, fun _ ↦
    ⟨rfl, rfl, fun _ ↦ rfl, fun _ hmem ↦ hmem, fun _ hmem ↦ .inl hmem⟩⟩

theorem RowChange.trans {s₁ s₂ s₃ : SeriesStore} (h : RowChange c s₁ s₂)
    (h' : RowChange c s₂ s₃) : RowChange c s₁ s₃ := by
  obtain ⟨g, hg, hkeeps⟩ := h.rows
  obtain ⟨g', hg', hkeeps'⟩ := h'.rows
  refine ⟨h'.series.trans h.series, g' ∘ g, by rw [hg', hg, List.map_map], fun r ↦ ?_⟩
  obtain ⟨href, hident, hsame, hsub, hown⟩ := hkeeps r
  obtain ⟨href', hident', hsame', hsub', hown'⟩ := hkeeps' (g r)
  refine ⟨href'.trans href, hident'.trans hident, fun hne ↦ ?_,
    fun ref hmem ↦ hsub' ref (hsub ref hmem), fun ref hmem ↦ ?_⟩
  · rw [Function.comp_apply, hsame' (href ▸ hne), hsame hne]
  · rcases hown' ref hmem with hmem | ⟨agreements, hmem⟩
    · exact hown ref hmem
    · rw [href, hident] at hmem
      exact .inr ⟨agreements, hmem⟩

/-- What is stored of an application is a part of the store. -/
theorem applicationPart_lawful (c : String) : (applicationPart c).Lawful (RowChange c) where
  get_modify f s := by
    have hrow := @row_map c s ((applicationPart c).modify f s)
      (fun r ↦ if r.clientRef = c then r.write f else r)
      (fun r ↦ by split <;> simp) rfl
    change (((applicationPart c).modify f s).row c).map _ = ((s.row c).map _).map f
    rw [hrow, Option.map_map, Option.map_map]
    cases hfind : s.row c with
    | none => rfl
    | some r => simp [(row_eq_some hfind).2]
  frame_modify f s := by
    refine ⟨rfl, fun r ↦ if r.clientRef = c then r.write f else r, rfl, fun r ↦ ?_⟩
    dsimp only
    by_cases hc : r.clientRef = c
    · rw [if_pos hc]
      exact ⟨write_clientRef, write_identifiers, fun hne ↦ absurd hc hne,
        fun _ hmem ↦ refs_subset_write hmem, fun _ hmem ↦ write_refs hmem⟩
    · rw [if_neg hc]
      exact ⟨rfl, rfl, fun _ ↦ rfl, fun _ hmem ↦ hmem, fun _ hmem ↦ .inl hmem⟩
  frame_refl := .refl
  frame_trans := .trans

/-- A change of one row that leaves it named keeps the invariant. -/
theorem Kept.rowChange (h : Kept code s) (hchange : RowChange c s s')
    (hnamed : ∀ r, s'.row c = some r → r.stored.application.application.clientRef = c ∧
      r.stored.application.application.code = code) : Kept code s' := by
  obtain ⟨g, hg, hkeeps⟩ := hchange.rows
  have hseries := hchange.series
  have href : ∀ r, (g r).clientRef = r.clientRef := fun r ↦ (hkeeps r).1
  have hrow : ∀ q, q ∈ s'.applications ↔ ∃ p ∈ s.applications, g p = q := by
    intro q
    rw [hg, List.mem_map]
  have hexists : ∀ c, (∃ p ∈ s.applications, p.clientRef = c) →
      ∃ q ∈ s'.applications, q.clientRef = c := by
    rintro c ⟨p, hp, rfl⟩
    exact ⟨g p, (hrow _).mpr ⟨p, hp, rfl⟩, href p⟩
  constructor
  case rows =>
    have hsame : ApplicationRow.clientRef ∘ g = ApplicationRow.clientRef := funext href
    rw [hg, List.map_map, hsame]
    exact h.rows
  case valid =>
    intro q hq
    obtain ⟨p, hp, rfl⟩ := (hrow q).mp hq
    rw [href]
    exact h.valid p hp
  case named =>
    intro q hq
    obtain ⟨p, hp, rfl⟩ := (hrow q).mp hq
    by_cases hc : p.clientRef = c
    · have hfound : s'.row c = some (g p) := by
        rw [row_map href hg, ← hc, h.row_eq hp, Option.map_some]
      rw [href, hc]
      exact hnamed _ hfound
    · rw [(hkeeps p).2.2.1 hc]
      exact h.named p hp
  case ids => rw [hseries]; exact h.ids
  case covered =>
    intro q hq
    obtain ⟨p, hp, rfl⟩ := (hrow q).mp hq
    rw [hseries, href]
    exact h.covered p hp
  case members =>
    rw [hseries]
    intro x hx c hc
    exact hexists c (h.members x hx c hc)
  case apart => rw [hseries]; exact h.apart
  case distinct => rw [hseries]; exact h.distinct
  case latest => rw [hseries]; exact h.latest
  case linked =>
    rw [hseries]
    intro x hx q hq hmem d hd
    obtain ⟨p, hp, rfl⟩ := (hrow q).mp hq
    rw [href] at hmem
    exact (hkeeps p).2.2.2.1 _ (h.linked x hx p hp hmem d hd)
  case known =>
    intro q hq d hd hmem
    obtain ⟨p, hp, rfl⟩ := (hrow q).mp hq
    apply hexists
    rcases (hkeeps p).2.2.2.2 _ hmem with hmem | ⟨agreements, hmem⟩
    · exact h.known p hp d hd hmem
    · have hsame := toRef_injective hd (h.valid p hp) (toRef_mem_applicationRefs hmem)
      exact ⟨p, hp, hsame.symm⟩

end

end FgGas.Grants
