import FgGas.Grants.InvokeAction
import FgGas.Machine.Lookup

/-!
# The URL of a call

What an action's URL template comes to: the params put in one after another, each at the first
`$name`, against every placeholder replaced by the param of its name and the other params sent as
the query. The two agree when no name is met anywhere but on its own placeholder.
-/

namespace FgGas.Grants

open Machine

/-- The code of a grant. -/
structure GrantCode where
  text : Characters
  plain : ∀ c ∈ text, (c.isLower || c.isDigit || c = '-') = true

/-- The params of a request, each under a name of its own. -/
structure Params where
  entries : List (Characters × Characters)
  named : ∀ p ∈ entries, urlMarks.IsName p.1
  distinct : (entries.map Prod.fst).Nodup

/-- The names of the params. -/
def Params.names (params : Params) : List Characters := params.entries.map Prod.fst

/-- What the placeholder of a name is replaced by. -/
def Params.valueOf (params : Params) (name : Characters) : Characters :=
  ((params.entries.lookup name).map encodeURIComponent).getD []

/-- An action that the grant of a code declares, to be called with GET or POST. -/
structure Declared (findByCode : Characters → Option (List GrantAction)) where
  code : GrantCode
  actions : List GrantAction
  action : GrantAction
  found : findByCode code.text = some actions
  declared : (actions.find? fun e ↦ e.method = action.method ∧ e.name = action.name) = some action
  callable : action.method = .GET ∨ action.method = .POST

variable {findByCode : Characters → Option (List GrantAction)} {π : Type}

/-- The action invoked with these params. -/
def Declared.invocation (d : Declared findByCode) (payload : π) (params : Params) :
    Invocation π where
  code := d.code.text
  name := d.action.name
  method := d.action.method
  payload := payload
  params := params.entries

/-! ## What is asked -/

/-- Some placeholder has no param. -/
def Missing (params : Params) (url : Characters) : Prop :=
  ∃ name ∈ urlMarks.placeholders url, name ∉ params.names

/-- The template with every placeholder replaced. -/
def filledUrl (params : Params) (url : Characters) : Characters :=
  urlMarks.fill params.valueOf url

/-- The grant's own code, and the params that name no placeholder. -/
def askedFields (code : GrantCode) (params : Params) (url : Characters) :
    List (Characters × Characters) :=
  ("code".toList, code.text) ::
    params.entries.filter fun p ↦ !(urlMarks.placeholders url).contains p.1

/-- The call is refused when a placeholder has no param, and is otherwise made at the filled URL
with the asked fields as its query, in whichever order the params are sent. -/
def InvokedAsTold (d : Declared findByCode) (payload : π) (params : Params) : Prop :=
  ∀ cdpEnvironment : Characters, '$' ∉ cdpEnvironment →
    ∀ sent : Params, sent.entries.Perm params.entries →
      ((∃ refusal, invokeAction cdpEnvironment findByCode (d.invocation payload sent) =
          .error refusal) ↔ Missing params d.action.url) ∧
      (¬ Missing params d.action.url →
        ∃ fields, fields.Perm (askedFields d.code params d.action.url) ∧
          invokeAction cdpEnvironment findByCode (d.invocation payload sent) =
            callWreck (d.invocation payload sent) (updateUrlForEnvironment cdpEnvironment
              (filledUrl params d.action.url ++ '?' :: queryString fields)))

/-- No param is met anywhere but on its own placeholder; and, when no placeholder is without a
param, none occurs twice, no empty value is right before a `$name`, and a param named `code` or
`__proto__` names a placeholder. -/
structure Unambiguous (params : Params) (url : Characters) : Prop where
  owns : ∀ name ∈ params.names, urlMarks.OwnsAfter name false url
  once : ¬ Missing params url → (urlMarks.placeholders url).Nodup
  clear : ¬ Missing params url → urlMarks.clearAfter params.valueOf false url = true
  reserved : ¬ Missing params url →
    ∀ name ∈ params.names, name = "code".toList ∨ name = "__proto__".toList →
      name ∈ urlMarks.placeholders url

/-! ## The fields of the query -/

section
variable {fields : List (Characters × Characters)} {key value : Characters}

theorem setField_of_new (hproto : key ≠ "__proto__".toList) (hnew : key ∉ fields.map Prod.fst) :
    setField fields key value = fields ++ [(key, value)] := by
  rw [setField, if_neg hproto, if_neg hnew]

theorem names_setField (fields : List (Characters × Characters)) (key value : Characters) :
    (setField fields key value).map Prod.fst = fields.map Prod.fst ∨
      key ≠ "__proto__".toList ∧ key ∉ fields.map Prod.fst ∧
        (setField fields key value).map Prod.fst = fields.map Prod.fst ++ [key] := by
  unfold setField
  split
  · exact .inl rfl
  · next hproto =>
    split
    · left
      rw [List.map_map]
      apply List.map_congr_left
      intro f _
      rw [Function.comp_apply]
      split
      · next hf => exact hf.symm
      · rfl
    · next hnew => exact .inr ⟨hproto, hnew, List.map_append⟩

theorem mem_setField {f : Characters × Characters} (h : f ∈ setField fields key value) :
    f ∈ fields ∨ f = (key, value) := by
  unfold setField at h
  split at h
  · exact .inl h
  · split at h
    · obtain ⟨g, hg, rfl⟩ := List.mem_map.mp h
      split
      · exact .inr rfl
      · exact .inl hg
    · exact (List.mem_append.mp h).imp_right List.mem_singleton.mp

end

/-- The fields of the query, when the grant's code and these params are set one after another. -/
def fieldsOf (code : Characters) (params : List (Characters × Characters)) :
    List (Characters × Characters) :=
  params.foldl (fun fields p ↦ setField fields p.1 p.2)
    [("code".toList, encodeURIComponent code)]

/-- What a set of fields may hold. -/
structure FieldsFrom (base params fields : List (Characters × Characters)) : Prop where
  distinct : (fields.map Prod.fst).Nodup
  no_proto : "__proto__".toList ∉ fields.map Prod.fst
  from_params : ∀ f ∈ fields, f ∈ base ∨ f ∈ params

theorem FieldsFrom.foldl {base params fields : List (Characters × Characters)}
    (h : FieldsFrom base params fields) (rest : List (Characters × Characters)) :
    FieldsFrom base (params ++ rest)
      (rest.foldl (fun fields p ↦ setField fields p.1 p.2) fields) := by
  induction rest generalizing params fields with
  | nil => rwa [List.append_nil]
  | cons p rest ih =>
    rw [List.foldl_cons, ← List.singleton_append, ← List.append_assoc]
    apply ih
    constructor
    · rcases names_setField fields p.1 p.2 with hn | ⟨-, hnew, hn⟩
      · exact hn ▸ h.distinct
      · rw [hn, List.nodup_append]
        refine ⟨h.distinct, List.nodup_singleton _, ?_⟩
        rintro a ha b hb rfl
        exact hnew (List.mem_singleton.mp hb ▸ ha)
    · rcases names_setField fields p.1 p.2 with hn | ⟨hp, -, hn⟩
      · exact hn ▸ h.no_proto
      · rw [hn, List.mem_append, List.mem_singleton]
        exact not_or.mpr ⟨h.no_proto, hp.symm⟩
    · intro f hf
      rcases mem_setField hf with hf | rfl
      · exact (h.from_params f hf).imp_right fun hf ↦ List.mem_append_left _ hf
      · exact .inr (List.mem_append_right _ List.mem_cons_self)

theorem fieldsFrom_fieldsOf (code : Characters) (params : List (Characters × Characters)) :
    FieldsFrom [("code".toList, encodeURIComponent code)] params (fieldsOf code params) := by
  have hbase : FieldsFrom [("code".toList, encodeURIComponent code)] []
      [("code".toList, encodeURIComponent code)] :=
    ⟨List.nodup_singleton _, show "__proto__".toList ∉ ["code".toList] by decide,
      fun f hf ↦ .inl hf⟩
  exact hbase.foldl params

theorem fieldsOf_ne_nil (code : Characters) (params : List (Characters × Characters)) :
    fieldsOf code params ≠ [] := by
  have key : ∀ fields : List (Characters × Characters), fields ≠ [] →
      params.foldl (fun fields p ↦ setField fields p.1 p.2) fields ≠ [] := by
    induction params with
    | nil => exact fun _ h ↦ h
    | cons p params ih =>
      intro fields h
      apply ih
      intro (hnil : setField fields p.1 p.2 = [])
      rcases names_setField fields p.1 p.2 with hn | ⟨-, -, hn⟩
      · rw [hnil] at hn
        exact h (List.map_eq_nil_iff.mp hn.symm)
      · rw [hnil] at hn
        exact List.cons_ne_nil _ _ (List.append_eq_nil_iff.mp hn.symm).2
  exact key _ (List.cons_ne_nil _ _)

/-- With names of their own, none of them reserved, all fields are set. -/
theorem fieldsOf_eq {code : Characters} {params : List (Characters × Characters)}
    (hdistinct : (params.map Prod.fst).Nodup)
    (hreserved : ∀ p ∈ params, p.1 ≠ "code".toList ∧ p.1 ≠ "__proto__".toList) :
    fieldsOf code params = ("code".toList, encodeURIComponent code) :: params := by
  have key : ∀ fields : List (Characters × Characters),
      (∀ p ∈ params, p.1 ∉ fields.map Prod.fst) →
        params.foldl (fun fields p ↦ setField fields p.1 p.2) fields = fields ++ params := by
    induction params with
    | nil => exact fun fields _ ↦ (List.append_nil fields).symm
    | cons p params ih =>
      intro fields hnew
      rw [List.map_cons, List.nodup_cons] at hdistinct
      rw [List.foldl_cons, setField_of_new (hreserved p List.mem_cons_self).2
        (hnew p List.mem_cons_self), ih hdistinct.2
        (fun q hq ↦ hreserved q (List.mem_cons_of_mem _ hq)), List.append_assoc]
      · rfl
      · intro q hq
        rw [List.map_append, List.mem_append, not_or]
        refine ⟨hnew q (List.mem_cons_of_mem _ hq), fun hmem ↦ ?_⟩
        rw [List.map_singleton, List.mem_singleton] at hmem
        exact hdistinct.1 (hmem ▸ List.mem_map_of_mem hq)
  exact key _ fun p hp hmem ↦ (hreserved p hp).1 (List.mem_singleton.mp hmem)

/-! ## What the call comes to -/

section
variable {params : List (Characters × Characters)} {code url : Characters}

/-- The loop over the params, as what it writes and what it leaves. -/
theorem updateUrlAndExtractQueryParam_eq (params : List (Characters × Characters))
    (code url : Characters) :
    updateUrlAndExtractQueryParam params code url =
      (fieldsOf code (urlMarks.left encodeURIComponent url params),
        urlMarks.written encodeURIComponent url params) := by
  unfold updateUrlAndExtractQueryParam fieldsOf
  generalize [("code".toList, encodeURIComponent code)] = fields
  induction params generalizing url fields with
  | nil => rfl
  | cons p params ih =>
    obtain ⟨key, value⟩ := p
    rw [List.foldl_cons, Marks.left, Marks.written]
    by_cases hin : '$' :: key <:+: url
    · rw [if_pos (show urlMarks.mark :: key <:+: url from hin),
        if_pos (show urlMarks.mark :: key <:+: url from hin), ← ih]
      simp only [if_pos hin]
      rfl
    · rw [if_neg (show ¬ urlMarks.mark :: key <:+: url from hin),
        if_neg (show ¬ urlMarks.mark :: key <:+: url from hin), List.foldl_cons, ← ih]
      simp only [if_neg hin]

theorem parameterisedUrl_ok
    (h : urlMarks.placeholders (urlMarks.written encodeURIComponent url params) = []) :
    parameterisedUrl params url code =
      .ok (urlMarks.written encodeURIComponent url params ++ '?' ::
        queryString (fieldsOf code (urlMarks.left encodeURIComponent url params))) := by
  have hlen := List.length_pos_of_ne_nil
    (fieldsOf_ne_nil code (urlMarks.left encodeURIComponent url params))
  rw [parameterisedUrl, updateUrlAndExtractQueryParam_eq]
  simp only [errorIfUnassignedPlaceholders, h, addQueryParams, if_pos hlen]
  rfl

theorem parameterisedUrl_error (code : Characters)
    (h : urlMarks.placeholders (urlMarks.written encodeURIComponent url params) ≠ []) :
    ∃ refusal, parameterisedUrl params url code = .error refusal := by
  obtain ⟨name, names, hnames⟩ := List.exists_cons_of_ne_nil h
  rw [parameterisedUrl, updateUrlAndExtractQueryParam_eq]
  simp only [errorIfUnassignedPlaceholders, hnames]
  exact ⟨_, rfl⟩

end

/-- An action that is declared is called at its URL. -/
theorem Declared.invokeAction_eq (d : Declared findByCode) (payload : π) (params : Params)
    (cdpEnvironment : Characters) :
    invokeAction cdpEnvironment findByCode (d.invocation payload params) =
      (parameterisedUrl params.entries d.action.url d.code.text).bind fun url ↦
        callWreck (d.invocation payload params) (updateUrlForEnvironment cdpEnvironment url) := by
  unfold invokeAction Declared.invocation
  rw [d.found]
  dsimp only
  rw [d.declared]

theorem Declared.callWreck_ok (d : Declared findByCode) (payload : π) (params : Params)
    (url : Characters) : ∃ call, callWreck (d.invocation payload params) url = .ok call := by
  unfold callWreck Declared.invocation
  rcases d.callable with h | h <;> simp [h]

theorem Declared.callWreck_inj (d : Declared findByCode) (payload : π) (params : Params)
    {url url' : Characters} (h : callWreck (d.invocation payload params) url =
      callWreck (d.invocation payload params) url') : url = url' := by
  unfold callWreck Declared.invocation at h
  rcases d.callable with hm | hm <;> simpa [hm] using h

/-- A code needs no encoding. -/
theorem GrantCode.encoded (code : GrantCode) : encodeURIComponent code.text = code.text := by
  apply encodeURIComponent_eq_self
  intro c hc
  have hplain := code.plain c hc
  unfold uriPlain
  rw [if_pos]
  rw [Bool.or_eq_true, Bool.or_eq_true, decide_eq_true_eq] at hplain
  rcases hplain with (h | h) | rfl
  · have halpha : c.isAlpha = (c.isUpper || c.isLower) := rfl
    simp [Char.isAlphanum, halpha, h]
  · simp [Char.isAlphanum, h]
  · decide

section
variable {params sent : Params} {url : Characters}

/-- The value of a name that is sent. -/
theorem Params.valueOf_of_mem (params : Params) {p : Characters × Characters}
    (hp : p ∈ params.entries) : params.valueOf p.1 = encodeURIComponent p.2 := by
  rw [Params.valueOf, lookup_of_mem params.distinct hp]
  rfl

theorem Params.clean_valueOf (params : Params) (name : Characters) :
    urlMarks.Clean (params.valueOf name) := by
  unfold Params.valueOf
  cases params.entries.lookup name with
  | none => exact fun _ h ↦ absurd h List.not_mem_nil
  | some value => exact clean_encodeURIComponent value

theorem mem_names_of_perm (h : sent.entries.Perm params.entries) {name : Characters} :
    name ∈ sent.names ↔ name ∈ params.names :=
  (h.map Prod.fst).mem_iff

/-- A placeholder without a param refuses the call when no param is met elsewhere. -/
theorem parameterisedUrl_of_missing (code : Characters)
    (howns : ∀ name ∈ params.names, urlMarks.OwnsAfter name false url)
    (hsent : sent.entries.Perm params.entries) (hmissing : Missing params url) :
    ∃ refusal, parameterisedUrl sent.entries url code = .error refusal := by
  obtain ⟨name, hname, hnot⟩ := hmissing
  have hkept := Marks.mem_placeholders_written clean_encodeURIComponent sent.named sent.distinct
    (fun p hp ↦ howns p.1 ((mem_names_of_perm hsent).mp (List.mem_map_of_mem hp))) hname
    (mt (mem_names_of_perm hsent).mp hnot)
  exact parameterisedUrl_error _ (List.ne_nil_of_mem hkept)

theorem askedFields_eq : askedFields code params url = ("code".toList, code.text) ::
    params.entries.filter fun p ↦ p.1 ∉ urlMarks.placeholders url := by
  simp [askedFields]

/-- With every placeholder given and no param met elsewhere, the URL is the filled one. -/
theorem parameterisedUrl_of_unambiguous (code : GrantCode) (h : Unambiguous params url)
    (hall : ¬ Missing params url) (hsent : sent.entries.Perm params.entries) :
    ∃ fields, fields.Perm (askedFields code params url) ∧
      parameterisedUrl sent.entries url code.text =
        .ok (filledUrl params url ++ '?' :: queryString fields) := by
  have hsub : urlMarks.placeholders url ⊆ sent.names := fun name hname ↦ by
    by_contra hnot
    exact hall ⟨name, hname, mt (mem_names_of_perm hsent).mpr hnot⟩
  have hclear : urlMarks.placeholders (filledUrl params url) = [] :=
    (Marks.placeholdersAfter_fillAfter params.clean_valueOf (by simp)).mpr (h.clear hall)
  obtain ⟨hwritten, hleft⟩ := Marks.written_eq_fill clean_encodeURIComponent
    params.clean_valueOf (fun p hp ↦ params.valueOf_of_mem (hsent.mem_iff.mp hp)) sent.named
    sent.distinct
    (fun p hp ↦ h.owns p.1 ((mem_names_of_perm hsent).mp (List.mem_map_of_mem hp)))
    (h.once hall) hsub hclear
  have hfields : fieldsOf code.text (urlMarks.left encodeURIComponent url sent.entries) =
      ("code".toList, encodeURIComponent code.text) ::
        urlMarks.left encodeURIComponent url sent.entries := fieldsOf_eq
    (sent.distinct.sublist ((Marks.left_sublist url).map Prod.fst)) fun p hp ↦ by
      rw [hleft, List.mem_filter, decide_eq_true_eq] at hp
      have hnot := mt (h.reserved hall p.1
        ((mem_names_of_perm hsent).mp (List.mem_map_of_mem hp.1))) hp.2
      exact not_or.mp hnot
  refine ⟨fieldsOf code.text (urlMarks.left encodeURIComponent url sent.entries), ?_, ?_⟩
  · rw [hfields, hleft, code.encoded, askedFields_eq]
    exact (hsent.filter _).cons _
  · rw [parameterisedUrl_ok (by rw [hwritten]; exact hclear), hwritten]
    rfl

end

/-! ## What a call as told says of the params -/

/-- What follows the last of a symbol is told apart. -/
theorem eq_of_append_stop {α : Type} {stop : α} {a b r r' : List α} (hr : stop ∉ r)
    (hr' : stop ∉ r') (h : a ++ stop :: r = b ++ stop :: r') : a = b ∧ r = r' := by
  rcases List.append_eq_append_iff.mp h with ⟨t, rfl, ht⟩ | ⟨t, rfl, ht⟩
  · cases t with
    | nil => exact ⟨(List.append_nil _).symm, (List.cons.inj ht).2⟩
    | cons c t =>
      rw [(List.cons.inj ht).2] at hr
      exact absurd (List.mem_append_right _ List.mem_cons_self) hr
  · cases t with
    | nil => exact ⟨List.append_nil _, (List.cons.inj ht).2.symm⟩
    | cons c t =>
      rw [(List.cons.inj ht).2] at hr'
      exact absurd (List.mem_append_right _ List.mem_cons_self) hr'

section
variable {d : Declared findByCode} {payload : π} {params sent : Params}

/-- A call that is due and is as told: the URL is filled and the fields are the asked ones. -/
theorem InvokedAsTold.written (h : InvokedAsTold d payload params)
    (hall : ¬ Missing params d.action.url) (hsent : sent.entries.Perm params.entries) :
    urlMarks.placeholders (urlMarks.written encodeURIComponent d.action.url sent.entries) = [] ∧
      urlMarks.written encodeURIComponent d.action.url sent.entries =
        filledUrl params d.action.url ∧
      (fieldsOf d.code.text (urlMarks.left encodeURIComponent d.action.url sent.entries)).Perm
        (askedFields d.code params d.action.url) := by
  obtain ⟨-, hcall⟩ := h "%ENVIRONMENT%".toList (by decide) sent hsent
  obtain ⟨fields, hfields, hcall⟩ := hcall hall
  rw [d.invokeAction_eq] at hcall
  by_cases hnone :
      urlMarks.placeholders (urlMarks.written encodeURIComponent d.action.url sent.entries) = []
  · rw [parameterisedUrl_ok hnone] at hcall
    have hurl := d.callWreck_inj payload sent hcall
    unfold updateUrlForEnvironment at hurl
    rw [replaceFirst_self, replaceFirst_self] at hurl
    obtain ⟨hfilled, hquery⟩ := eq_of_append_stop (not_mem_queryString _) (not_mem_queryString _)
      hurl
    have hne : fields ≠ [] := fun hnil ↦ by
      rw [hnil, List.nil_perm] at hfields
      cases hfields
    refine ⟨hnone, hfilled, ?_⟩
    rw [queryString_inj (fieldsOf_ne_nil _ _) hne hquery]
    exact hfields
  · obtain ⟨refusal, hrefusal⟩ := parameterisedUrl_error d.code.text hnone
    obtain ⟨call, hok⟩ := d.callWreck_ok payload sent (updateUrlForEnvironment
      "%ENVIRONMENT%".toList (filledUrl params d.action.url ++ '?' :: queryString fields))
    rw [hrefusal, hok] at hcall
    cases hcall

/-- The names of the asked fields are distinct, and none is `__proto__`. -/
theorem InvokedAsTold.asked (h : InvokedAsTold d payload params)
    (hall : ¬ Missing params d.action.url) :
    ((askedFields d.code params d.action.url).map Prod.fst).Nodup ∧
      "__proto__".toList ∉ (askedFields d.code params d.action.url).map Prod.fst := by
  have hfields := (h.written hall (List.Perm.refl _)).2.2.map Prod.fst
  have hfrom := fieldsFrom_fieldsOf d.code.text
    (urlMarks.left encodeURIComponent d.action.url params.entries)
  exact ⟨hfields.nodup_iff.mp hfrom.distinct, mt hfields.mem_iff.mpr hfrom.no_proto⟩

/-- A reserved name is that of a placeholder. -/
theorem InvokedAsTold.reserved (h : InvokedAsTold d payload params)
    (hall : ¬ Missing params d.action.url) {name : Characters} (hname : name ∈ params.names)
    (hreserved : name = "code".toList ∨ name = "__proto__".toList) :
    name ∈ urlMarks.placeholders d.action.url := by
  obtain ⟨hnodup, hproto⟩ := h.asked hall
  obtain ⟨p, hp, rfl⟩ := List.mem_map.mp hname
  by_contra hnot
  have hasked : p ∈ params.entries.filter
      fun p ↦ p.1 ∉ urlMarks.placeholders d.action.url :=
    List.mem_filter.mpr ⟨hp, decide_eq_true hnot⟩
  rw [askedFields_eq, List.map_cons] at hnodup hproto
  have hnames := List.mem_map_of_mem (f := Prod.fst) hasked
  rcases hreserved with hcode | hcode
  · rw [hcode] at hnames
    exact (List.nodup_cons.mp hnodup).1 hnames
  · rw [hcode] at hnames
    exact hproto (List.mem_cons_of_mem _ hnames)

/-- Only names of placeholders find a place. -/
theorem InvokedAsTold.placed_subset (h : InvokedAsTold d payload params)
    (hall : ¬ Missing params d.action.url) (hsent : sent.entries.Perm params.entries) :
    (urlMarks.placed encodeURIComponent d.action.url sent.entries).map Prod.fst ⊆
      urlMarks.placeholders d.action.url := by
  intro name hname
  have hperm : ((urlMarks.placed encodeURIComponent d.action.url sent.entries).map Prod.fst ++
      (urlMarks.left encodeURIComponent d.action.url sent.entries).map Prod.fst).Perm
        (sent.entries.map Prod.fst) := Marks.placed_append_left d.action.url
  have hdisjoint := List.nodup_append.mp (hperm.nodup_iff.mpr sent.distinct)
  have hmem : name ∈ params.names :=
    (mem_names_of_perm hsent).mp (hperm.subset (List.mem_append_left _ hname))
  obtain ⟨p, hp, rfl⟩ := List.mem_map.mp hmem
  by_contra hnot
  have hasked : p ∈ askedFields d.code params d.action.url :=
    List.mem_cons_of_mem _ (List.mem_filter.mpr ⟨hp, by simpa using hnot⟩)
  have hfrom := (fieldsFrom_fieldsOf d.code.text _).from_params p
    ((h.written hall hsent).2.2.mem_iff.mpr hasked)
  rcases hfrom with hbase | hleft
  · rw [List.mem_singleton] at hbase
    exact hnot (h.reserved hall hmem (.inl (by rw [hbase])))
  · exact hdisjoint.2.2 _ hname _ (List.mem_map_of_mem hleft) rfl

/-- As many names find a place as there are placeholders. -/
theorem InvokedAsTold.placed_length (h : InvokedAsTold d payload params)
    (hall : ¬ Missing params d.action.url) (hsent : sent.entries.Perm params.entries) :
    (urlMarks.placed encodeURIComponent d.action.url sent.entries).length =
      (urlMarks.placeholders d.action.url).length := by
  have hwritten := Marks.count_written clean_encodeURIComponent sent.named d.action.url
  have hfilled := Marks.count_fillAfter params.clean_valueOf false false d.action.url
  rw [(h.written hall hsent).2.1] at hwritten
  unfold filledUrl Marks.fill at hwritten
  unfold Marks.placeholders
  omega

/-- Each name that finds a place finds its own placeholder, and none occurs twice. -/
theorem InvokedAsTold.placed_own (h : InvokedAsTold d payload params)
    (hall : ¬ Missing params d.action.url) (hsent : sent.entries.Perm params.entries) :
    (∀ x ∈ urlMarks.placed encodeURIComponent d.action.url sent.entries,
        x.2 = (true, x.1) ∧ x.1 ≠ []) ∧ (urlMarks.placeholders d.action.url).Nodup := by
  have hlen := h.placed_length hall hsent
  obtain ⟨hled, hruns⟩ := Marks.placed_perm clean_encodeURIComponent sent.named
    (h.written hall hsent).1 hlen.le
  have hnodup : ((urlMarks.placed encodeURIComponent d.action.url sent.entries).map
      Prod.fst).Nodup :=
    (List.nodup_append.mp ((Marks.placed_append_left d.action.url).nodup_iff.mpr
      sent.distinct)).1
  have hnames := (hnodup.subperm (h.placed_subset hall hsent)).perm_of_length_le
    (by rw [List.length_map]; exact hlen.ge)
  have hown := Marks.eq_of_isPrefix_of_perm
    (Marks.isPrefix_of_mem_placed sent.named d.action.url) (hnames.trans hruns.symm)
  refine ⟨fun x hx ↦ ?_, hnames.nodup_iff.mp hnodup⟩
  rw [hown x hx]
  exact ⟨Prod.ext (hled x hx).1 rfl, (hled x hx).2⟩

/-- A param is met on its own placeholder, if anywhere. -/
theorem InvokedAsTold.owns (h : InvokedAsTold d payload params)
    (hall : ¬ Missing params d.action.url) {name : Characters} (hname : name ∈ params.names) :
    urlMarks.OwnsAfter name false d.action.url := by
  obtain ⟨p, hp, rfl⟩ := List.mem_map.mp hname
  -- Sent first, the param is put in where the template first has its name.
  have hfirst := List.perm_cons_erase hp
  let sent : Params :=
    { entries := p :: params.entries.erase p
      named := fun q hq ↦ params.named q (hfirst.mem_iff.mpr hq)
      distinct := (hfirst.map Prod.fst).nodup_iff.mp params.distinct }
  intro x hx
  have hin : urlMarks.mark :: p.1 <:+: d.action.url :=
    Marks.met_isSome_iff.mp (Option.isSome_iff_exists.mpr ⟨x, hx⟩)
  have hmem : (p.1, x) ∈ urlMarks.placed encodeURIComponent d.action.url sent.entries := by
    show (p.1, x) ∈ urlMarks.placed encodeURIComponent d.action.url
      (p :: params.entries.erase p)
    rw [Marks.placed, if_pos hin, Option.mem_def.mp hx]
    exact List.mem_cons_self
  exact (h.placed_own hall hfirst.symm).1 (p.1, x) hmem

end

/-- A call is as told when no param is met anywhere but on its own placeholder; where no
placeholder is without a param, only then. -/
theorem invoked_as_told_iff (d : Declared findByCode) (payload : π) (params : Params) :
    (Unambiguous params d.action.url → InvokedAsTold d payload params) ∧
      (¬ Missing params d.action.url → InvokedAsTold d payload params →
        Unambiguous params d.action.url) := by
  constructor
  · intro h cdpEnvironment _ sent hsent
    rw [d.invokeAction_eq]
    by_cases hmissing : Missing params d.action.url
    · obtain ⟨refusal, hrefusal⟩ :=
        parameterisedUrl_of_missing d.code.text h.owns hsent hmissing
      rw [hrefusal]
      exact ⟨⟨fun _ ↦ hmissing, fun _ ↦ ⟨refusal, rfl⟩⟩, fun hall ↦ absurd hmissing hall⟩
    · obtain ⟨fields, hfields, hurl⟩ :=
        parameterisedUrl_of_unambiguous d.code h hmissing hsent
      rw [hurl]
      refine ⟨⟨?_, fun hmiss ↦ absurd hmiss hmissing⟩, fun _ ↦ ⟨fields, hfields, rfl⟩⟩
      rintro ⟨refusal, hrefusal⟩
      obtain ⟨call, hcall⟩ := d.callWreck_ok payload sent (updateUrlForEnvironment cdpEnvironment
        (filledUrl params d.action.url ++ '?' :: queryString fields))
      cases hcall.symm.trans hrefusal
  · intro hall h
    have hsent := List.Perm.refl params.entries
    refine ⟨fun name hname ↦ h.owns hall hname, fun _ ↦ (h.placed_own hall hsent).2, fun _ ↦ ?_,
      fun _ name hname hreserved ↦ h.reserved hall hname hreserved⟩
    obtain ⟨hnone, hfilled, -⟩ := h.written hall hsent
    rw [hfilled] at hnone
    exact (Marks.placeholdersAfter_fillAfter params.clean_valueOf (by simp)).mp hnone

/-- The grant `land`, with the action `area`. -/
def landGrants (code : Characters) : Option (List GrantAction) :=
  if code = "land".toList then
    some [{ name := "area", method := .GET, url := "http://h/area/$idx".toList }]
  else none

/-- The action `area` of the grant `land`. -/
def landArea : Declared landGrants where
  code := { text := "land".toList, plain := List.all_eq_true.mp (by decide) }
  actions := [{ name := "area", method := .GET, url := "http://h/area/$idx".toList }]
  action := { name := "area", method := .GET, url := "http://h/area/$idx".toList }
  found := by decide
  declared := by decide
  callable := .inl rfl

/-- The params `unit` and `idx`. -/
def unitAndIdx : Params where
  entries := [("unit".toList, "m²".toList), ("idx".toList, "a/7".toList)]
  named := by decide
  distinct := by decide

/-- The params `id` and `idx`. -/
def idAndIdx : Params where
  entries := [("id".toList, "3".toList), ("idx".toList, "7".toList)]
  named := by decide
  distinct := by decide

/-- The call is as told when each param is met on its own placeholder. -/
theorem invoked_as_told_area : InvokedAsTold landArea () unitAndIdx :=
  (invoked_as_told_iff landArea () unitAndIdx).1
    { owns := by decide +kernel
      once := fun _ ↦ by decide +kernel
      clear := fun _ ↦ by decide +kernel
      reserved := fun _ ↦ by decide +kernel }

/-- Sent first, `id` is put into the placeholder of `idx`, which is then sent in the query. -/
theorem invoked_not_as_told :
    invokeAction "prod".toList landGrants (landArea.invocation () idAndIdx) =
        .ok (.get "http://h/area/3x?code=land&idx=7".toList) ∧
      ¬ InvokedAsTold landArea () idAndIdx := by
  refine ⟨by decide +kernel, fun h ↦ ?_⟩
  have hall : ¬ Missing idAndIdx landArea.action.url := by
    unfold Missing
    decide +kernel
  have howns := h.owns hall (show "id".toList ∈ idAndIdx.names by decide +kernel)
  have hno : ¬ urlMarks.OwnsAfter "id".toList false landArea.action.url := by decide +kernel
  exact hno howns

end FgGas.Grants
