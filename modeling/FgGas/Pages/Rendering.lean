import FgGas.Pages.Components

/-!
# What a page is rendered from

Everything handed to jsonata while a page is rendered is written in the page, or in the content of
a template that is instantiated on the way; and the rendering ends unless templates are nested
without end.
-/

namespace FgGas.Pages

open Machine Processes

/-- A part of a value. -/
inductive Part (part : Data) : Data → Prop
  | here : Part part part
  | item {items : List Data} {item : Data} (hitem : item ∈ items) (h : Part part item) :
      Part part (.array items)
  | entry {entries : List (String × Data)} {entry : String × Data} (hentry : entry ∈ entries)
      (h : Part part entry.2) : Part part (.object entries)

/-- An expression that is written in a value: after its prefix in a string, as a reference in one,
as the condition of an object, or as a parameter of an address, which is handed over as it is. -/
inductive WrittenIn (expression : String) (value : Data) : Prop
  | expression {string : String} (h : Part (.string string) value)
      (hstring : isExpression string = true)
      (hwritten : expression = toExpression (withoutPrefix string))
  | reference {string reference : String} (h : Part (.string string) value)
      (hreference : reference ∈ findRefs string)
      (hwritten : expression = toExpression reference.toList)
  | condition {entries : List (String × Data)} {condition : String}
      (h : Part (.object entries) value)
      (hcondition : field entries "condition" = .string condition)
      (hwritten : expression = toExpression condition.toList)
  | param {entries : List (String × Data)} (h : Part (.object entries) value)
      (hparam : Part (.string expression) (field entries "params"))

/-- What is evaluated for a value in a scope. -/
structure EvaluatedAt (value : Data) (scope : Scope) (e : Evaluation) : Prop where
  written : WrittenIn e.mapping value
  context : e.context = scope.context
  row : e.row = scope.row

/-- What is evaluated for a value: against the context, but in the cells of a table against the
row. -/
inductive EvaluatedFor (value context : Data) (e : Evaluation) : Prop
  | own (written : WrittenIn e.mapping value) (hcontext : e.context = context)
  | cell {entries : List (String × Data)} (h : Part (.object entries) value)
      (hkind : kindOf entries = "table") (written : WrittenIn e.mapping (field entries "rows"))
      (hrow : e.context = e.row)

/-- An error of the code: not that the rendering is unfinished. -/
def Thrown (failure : Failure) : Prop := failure ≠ .unfinished

section
variable {part value value' : Data} {entries : List (String × Data)} {key expression : String}
  {scope : Scope} {context : Data} {e : Evaluation}

theorem Part.trans (h : Part part value) (h' : Part value value') : Part part value' := by
  induction h' with
  | here => exact h
  | item hitem _ ih => exact .item hitem ih
  | entry hentry _ ih => exact .entry hentry ih

/-- What is in a field is in the object. -/
theorem Part.of_field (h : Part part (field entries key)) (hpart : part ≠ .undefined) :
    Part part (.object entries) := by
  cases hvalue : entries.lookup key with
  | none =>
    rw [field, hvalue, Option.getD_none] at h
    cases h
    exact absurd rfl hpart
  | some value =>
    rw [field, hvalue, Option.getD_some] at h
    exact .entry (mem_of_lookup hvalue) h

/-- A field is kept, unless it is the one that is left out. -/
theorem part_field_without {other : String} (h : Part part (field (without key entries) other))
    (hpart : part ≠ .undefined) : Part part (field entries other) := by
  by_cases hother : other = key
  · rw [hother, field, lookup_without_self, Option.getD_none] at h
    cases h
    exact absurd rfl hpart
  · rwa [field_without hother] at h

theorem part_orElse (h : Part part (orElse value (.object []))) (hpart : part ≠ .object []) :
    Part part value := by
  have hempty (h : Part part (.object [])) : False := by
    cases h with
    | here => exact hpart rfl
    | entry hentry => exact List.not_mem_nil hentry
  unfold orElse at h
  split at h
  · exact (hempty h).elim
  · exact (hempty h).elim
  · exact h

theorem WrittenIn.mono (h : WrittenIn expression value) (hpart : Part value value') :
    WrittenIn expression value' := by
  cases h with
  | expression h hstring hwritten => exact .expression (h.trans hpart) hstring hwritten
  | reference h hreference hwritten => exact .reference (h.trans hpart) hreference hwritten
  | condition h hcondition hwritten => exact .condition (h.trans hpart) hcondition hwritten
  | param h hparam => exact .param (h.trans hpart) hparam

theorem WrittenIn.of_field (h : WrittenIn expression (field entries key)) :
    WrittenIn expression (.object entries) := by
  cases h with
  | expression h hstring hwritten =>
    exact .expression (h.of_field Data.noConfusion) hstring hwritten
  | reference h hreference hwritten =>
    exact .reference (h.of_field Data.noConfusion) hreference hwritten
  | condition h hcondition hwritten =>
    exact .condition (h.of_field Data.noConfusion) hcondition hwritten
  | param h hparam => exact .param (h.of_field Data.noConfusion) hparam

/-- What is left of an object is the object without a field, or in one of its fields. -/
theorem part_without {part : Data} (h : Part part (.object (without key entries))) :
    part = .object (without key entries) ∨ Part part (.object entries) := by
  cases h with
  | here => exact .inl rfl
  | entry hentry h => exact .inr (.entry (List.mem_of_mem_filter hentry) h)

/-- What is written in an object without a field is written in the object. -/
theorem WrittenIn.of_without (h : WrittenIn expression (.object (without key entries))) :
    WrittenIn expression (.object entries) := by
  cases h with
  | expression h hstring hwritten =>
    exact .expression ((part_without h).resolve_left Data.noConfusion) hstring hwritten
  | reference h hreference hwritten =>
    exact .reference ((part_without h).resolve_left Data.noConfusion) hreference hwritten
  | @condition fields condition h hcondition hwritten =>
    rcases part_without h with hfields | h
    · obtain rfl := Data.object.inj hfields
      refine .condition .here ?_ hwritten
      by_cases hkey : "condition" = key
      · rw [hkey, field, lookup_without_self] at hcondition
        cases hcondition
      · rwa [field_without hkey] at hcondition
    · exact .condition h hcondition hwritten
  | param h hparam =>
    rcases part_without h with hfields | h
    · obtain rfl := Data.object.inj hfields
      exact .param .here (part_field_without hparam Data.noConfusion)
    · exact .param h hparam

theorem EvaluatedAt.mono (h : EvaluatedAt value scope e) (hpart : Part value value') :
    EvaluatedAt value' scope e := ⟨h.written.mono hpart, h.context, h.row⟩

theorem EvaluatedAt.for (h : EvaluatedAt value scope e) : EvaluatedFor value scope.context e :=
  .own h.written h.context

theorem EvaluatedFor.mono (h : EvaluatedFor value context e) (hpart : Part value value') :
    EvaluatedFor value' context e := by
  cases h with
  | own written hcontext => exact .own (written.mono hpart) hcontext
  | cell h hkind written hrow => exact .cell (h.trans hpart) hkind written hrow

/-- What is evaluated for a field is evaluated for the object. -/
theorem EvaluatedFor.of_field (h : EvaluatedFor (field entries key) context e) :
    EvaluatedFor (.object entries) context e := by
  cases h with
  | own written hcontext => exact .own written.of_field hcontext
  | cell h hkind written hrow => exact .cell (h.of_field Data.noConfusion) hkind written hrow

theorem EvaluatedFor.of_without (h : EvaluatedFor (.object (without key entries)) context e)
    (hkey : "component" ≠ key) (hrows : "rows" ≠ key) :
    EvaluatedFor (.object entries) context e := by
  cases h with
  | own written hcontext => exact .own written.of_without hcontext
  | cell h hkind written hrow =>
    rcases part_without h with hfields | h
    · obtain rfl := Data.object.inj hfields
      rw [kindOf_without hkey] at hkind
      rw [field_without hrows] at written
      exact .cell .here hkind written hrow
    · exact .cell h hkind written hrow

end

/-! ### What content is resolved from -/

section
variable {o : Outside} {value : Data} {entries : List (String × Data)} {scope : Scope}
  {context : Data}

theorem thrown_mapError {ε α : Type} {x : Except ε α} {reword : ε → Failure}
    (hreword : ∀ error, Thrown (reword error)) :
    ∀ failure, x.mapError reword = .error failure → Thrown failure := by
  intro failure h
  cases x with
  | ok a => cases h
  | error error => exact Except.error.inj h ▸ hreword error

theorem thrown_require {condition : Bool} {failure : Failure} (hfailure : Thrown failure) :
    ∀ failure', require condition failure = .error failure' → Thrown failure' := by
  intro failure' h
  unfold require at h
  split at h
  · cases h
  · exact Except.error.inj h ▸ hfailure

theorem thrown_requireResolved {reference : String} :
    ∀ failure, requireResolved value reference = .error failure → Thrown failure := by
  intro failure h
  rw [requireResolved] at h
  rcases bind_eq_error.mp h with h | ⟨_, -, h⟩
  · exact thrown_require Failure.noConfusion _ h
  · cases h

theorem thrown_toText {reference : String} :
    ∀ failure, toText o reference value = .error failure → Thrown failure := by
  induction value using toText.induct with
  | case2 items ih =>
    intro failure h
    rw [toText] at h
    rcases bind_eq_error.mp h with h | ⟨_, -, h⟩
    · obtain ⟨item, -, h⟩ := mapM_eq_error h
      exact ih item failure h
    · cases h
  | case3 entries =>
    intro failure h
    rw [toText] at h
    cases h
    exact Failure.noConfusion
  | _ => intro failure h; rw [toText] at h; cases h

theorem thrown_applyFormats :
    ∀ failure, applyFormats o value = .error failure → Thrown failure := by
  induction value using applyFormats.induct with
  | case1 items ih =>
    intro failure h
    rw [applyFormats] at h
    rcases bind_eq_error.mp h with h | ⟨_, -, h⟩
    · obtain ⟨item, -, h⟩ := mapM_eq_error h
      exact ih item failure h
    · cases h
  | case2 entries ih =>
    intro failure h
    rw [applyFormats] at h
    rcases bind_eq_error.mp h with h | ⟨resolved, -, h⟩
    · obtain ⟨entry, -, h⟩ := mapM_eq_error h
      rcases bind_eq_error.mp h with h | ⟨_, -, h⟩
      · exact ih entry failure h
      · cases h
    · split at h
      · cases h
      · rcases bind_eq_error.mp h with h | ⟨_, -, h⟩
        · exact thrown_mapError (fun _ ↦ Failure.noConfusion) _ h
        · cases h
  | case3 literal harray hobject =>
    intro failure h
    rw [applyFormats] at h
    · cases h
    · exact harray
    · exact hobject

theorem thrown_applyTemplate {urlTemplate : String} {params : List (String × Data)} :
    ∀ failure, applyTemplate o urlTemplate params = .error failure → Thrown failure := by
  intro failure h
  rcases bind_eq_error.mp h with h | ⟨_, -, h⟩
  · obtain ⟨piece, -, h⟩ := mapM_eq_error h
    split at h
    · cases h
    · dsimp only at h
      split at h
      · cases h
        exact Failure.noConfusion
      · cases h
  · cases h

/-- An error of the code. -/
theorem thrown_error {α : Type} {failure : Failure} (h : Thrown failure) :
    ∀ failure', (.error failure : Except Failure α) = .error failure' → Thrown failure' :=
  fun _ h' ↦ Except.error.inj h' ▸ h

theorem thrown_itemsOf : ∀ failure, itemsOf value = .error failure → Thrown failure := by
  intro failure h
  unfold itemsOf at h
  split at h
  · cases h
  · exact thrown_error Failure.noConfusion _ h

theorem thrown_requireArray {component key : String} {ref : Data} :
    ∀ failure, requireArray o value component key ref = .error failure → Thrown failure := by
  intro failure h
  unfold requireArray at h
  split at h
  · cases h
  · exact thrown_error Failure.noConfusion _ h

theorem handOver_keeps {e : Evaluation} {P : Evaluation → Prop} (h : P e) :
    (handOver o e).Keeps P Thrown :=
  (Logged.keeps_note h).bind fun _ _ ↦
    Logged.keeps_lift (thrown_mapError fun _ ↦ Failure.noConfusion)

theorem evaluate_keeps {expression : List Char} (h : WrittenIn (toExpression expression) value) :
    (evaluate o expression scope).Keeps (EvaluatedAt value scope) Thrown :=
  handOver_keeps ⟨h, rfl, rfl⟩

theorem resolveText_keeps {text reference : String} (h : reference ∈ findRefs text) :
    (resolveText o scope reference).Keeps (EvaluatedAt (.string text) scope) Thrown := by
  refine (evaluate_keeps (.reference .here h rfl)).bind fun resolved _ ↦ ?_
  refine Logged.keeps_lift fun failure hfailure ↦ ?_
  rcases bind_eq_error.mp hfailure with hfailure | ⟨_, -, hfailure⟩
  · exact thrown_requireResolved _ hfailure
  · exact thrown_toText _ hfailure

theorem resolveString_keeps {text : String} :
    (resolveString o text scope).Keeps (EvaluatedAt (.string text) scope) Thrown := by
  have hself {expression : List Char}
      (h : WrittenIn (toExpression expression) (.string text)) : (do
        let found ← evaluate o expression scope
        Logged.lift (requireResolved found text)).Keeps (EvaluatedAt (.string text) scope)
          Thrown :=
    (evaluate_keeps h).bind fun _ _ ↦ Logged.keeps_lift thrown_requireResolved
  unfold resolveString
  split
  · next hexpression => exact hself (.expression .here hexpression rfl)
  · dsimp only
    split
    · exact Logged.keeps_pure
    · split
      · next hreference =>
        exact hself (.reference .here (hreference ▸ List.mem_singleton_self text) rfl)
      · refine Logged.Keeps.bind ?_ fun _ _ ↦ Logged.keeps_pure
        refine Logged.Keeps.bind (Logged.keeps_all fun l hl ↦ ?_) fun _ _ ↦ Logged.keeps_pure
        obtain ⟨reference, hreference, rfl⟩ := List.mem_map.mp hl
        exact resolveText_keeps hreference

theorem resolveRefs_keeps : (resolveRefs o value scope).Keeps (EvaluatedAt value scope) Thrown := by
  induction value using resolveRefs.induct with
  | case1 text =>
    rw [resolveRefs]
    exact resolveString_keeps
  | case2 items ih =>
    rw [resolveRefs]
    refine Logged.Keeps.bind (Logged.keeps_all fun l hl ↦ ?_) fun _ _ ↦ Logged.keeps_pure
    obtain ⟨item, hitem, rfl⟩ := List.mem_map.mp hl
    exact (ih item).mono (fun _ h ↦ h.mono (.item item.2 .here)) fun _ h ↦ h
  | case3 entries ih =>
    rw [resolveRefs]
    refine Logged.Keeps.bind (Logged.keeps_all fun l hl ↦ ?_) fun _ _ ↦ Logged.keeps_pure
    obtain ⟨entry, hentry, rfl⟩ := List.mem_map.mp hl
    refine Logged.Keeps.bind ?_ fun _ _ ↦ Logged.keeps_pure
    exact (ih entry).mono (fun _ h ↦ h.mono (.entry entry.2 .here)) fun _ h ↦ h
  | case4 literal hstring harray hobject =>
    rw [resolveRefs]
    · exact Logged.keeps_pure
    · exact hstring
    · exact harray
    · exact hobject

/-- A condition is evaluated for the object it is a condition of. -/
theorem resolveCondition_keeps : (resolveCondition o (field entries "condition") scope).Keeps
    (EvaluatedAt (.object entries) scope) Thrown := by
  unfold resolveCondition
  split
  · next condition hcondition =>
    refine (evaluate_keeps ?_).bind fun _ _ ↦ Logged.keeps_pure
    split
    · next hexpression =>
      have hwritten : WrittenIn (toExpression (withoutPrefix condition))
          (field entries "condition") := by
        rw [hcondition]
        exact .expression .here hexpression rfl
      exact hwritten.of_field
    · exact .condition .here hcondition rfl
  · exact Logged.keeps_lift (thrown_error Failure.noConfusion)

/-- The parameters of an address are handed over as they are. -/
theorem resolveEffectParams_keeps : (resolveEffectParams o value context).Keeps
    (fun e ↦ Part (.string e.mapping) value ∧ e.context = context) Thrown := by
  induction value using resolveEffectParams.induct with
  | case1 ref hstart =>
    rw [resolveEffectParams, if_pos hstart]
    refine (handOver_keeps ⟨.here, rfl⟩).bind fun resolved _ ↦ ?_
    exact (Logged.keeps_lift (thrown_require Failure.noConfusion)).bind fun _ _ ↦
      Logged.keeps_pure
  | case2 ref hstart =>
    rw [resolveEffectParams, if_neg hstart]
    exact Logged.keeps_pure
  | case3 items ih =>
    rw [resolveEffectParams]
    refine Logged.Keeps.bind (Logged.keeps_all fun l hl ↦ ?_) fun _ _ ↦ Logged.keeps_pure
    obtain ⟨item, hitem, rfl⟩ := List.mem_map.mp hl
    exact (ih item).mono (fun _ h ↦ ⟨.item item.2 h.1, h.2⟩) fun _ h ↦ h
  | case4 entries ih =>
    rw [resolveEffectParams]
    refine Logged.Keeps.bind (Logged.keeps_all fun l hl ↦ ?_) fun _ _ ↦ Logged.keeps_pure
    obtain ⟨entry, hentry, rfl⟩ := List.mem_map.mp hl
    refine Logged.Keeps.bind ?_ fun _ _ ↦ Logged.keeps_pure
    exact (ih entry).mono (fun _ h ↦ ⟨.entry entry.2 h.1, h.2⟩) fun _ h ↦ h
  | case5 literal hstring harray hobject =>
    rw [resolveEffectParams]
    · exact Logged.keeps_pure
    · exact hstring
    · exact harray
    · exact hobject

theorem resolvePageHref_keeps :
    (resolvePageHref o value context).Keeps (EvaluatedFor value context) Thrown := by
  have htype {α : Type} {P : Evaluation → Prop} :
      (Logged.lift (.error .typeError) : Rendered α).Keeps P Thrown :=
    Logged.keeps_lift (thrown_error Failure.noConfusion)
  unfold resolvePageHref
  split
  · exact Logged.keeps_pure
  · refine Logged.Keeps.bind (resolveEffectParams_keeps.mono (fun e h ↦ ?_) fun _ h ↦ h)
      fun _ _ ↦ ?_
    · exact .own (.param .here (part_orElse h.1 Data.noConfusion)) h.2
    · split
      · split
        · exact (Logged.keeps_lift thrown_applyTemplate).bind fun _ _ ↦ Logged.keeps_pure
        · exact htype
      · exact htype
  · exact htype

theorem resolveUrl_keeps : (resolveUrl o entries scope).Keeps
    (EvaluatedFor (.object entries) scope.context) Thrown := by
  unfold resolveUrl
  dsimp only
  refine Logged.Keeps.bind (Logged.Keeps.both ?_ ?_) fun _ _ ↦ ?_
  · exact resolveRefs_keeps.mono (fun _ h ↦ .own h.written.of_without h.context) fun _ h ↦ h
  · split
    · exact resolveRefs_keeps.mono (fun _ h ↦ h.for.of_field) fun _ h ↦ h
    · exact resolvePageHref_keeps.mono (fun _ h ↦ h.of_field) fun _ h ↦ h
  · split
    · exact Logged.keeps_lift thrown_applyFormats
    · exact Logged.keeps_lift (thrown_error Failure.noConfusion)

theorem resolveDisplayValue_keeps : (resolveDisplayValue o value scope).Keeps
    (EvaluatedFor value scope.context) Thrown := by
  induction value using resolveDisplayValue.induct with
  | case1 items ih =>
    rw [resolveDisplayValue]
    refine Logged.Keeps.bind (Logged.keeps_all fun l hl ↦ ?_) fun _ _ ↦ Logged.keeps_pure
    obtain ⟨item, hitem, rfl⟩ := List.mem_map.mp hl
    exact (ih item).mono (fun _ h ↦ h.mono (.item item.2 .here)) fun _ h ↦ h
  | case2 entries hkind =>
    rw [resolveDisplayValue, if_pos hkind]
    exact resolveUrl_keeps
  | case3 entries hkind ih =>
    rw [resolveDisplayValue, if_neg hkind]
    refine Logged.Keeps.bind (Logged.keeps_all fun l hl ↦ ?_) fun _ _ ↦ Logged.keeps_pure
    obtain ⟨entry, hentry, rfl⟩ := List.mem_map.mp hl
    refine Logged.Keeps.bind ?_ fun _ _ ↦ Logged.keeps_pure
    exact (ih entry).mono (fun _ h ↦ h.mono (.entry entry.2 .here)) fun _ h ↦ h
  | case4 literal harray hobject =>
    rw [resolveDisplayValue]
    · exact resolveRefs_keeps.mono (fun _ h ↦ h.for) fun _ h ↦ h
    · exact harray
    · exact hobject

theorem resolveDisplayComponent_keeps : (resolveDisplayComponent o entries scope).Keeps
    (EvaluatedFor (.object entries) scope.context) Thrown :=
  resolveDisplayValue_keeps.bind fun _ _ ↦
    (Logged.keeps_lift thrown_applyFormats).bind fun _ _ ↦ Logged.keeps_pure

/-- A cell is evaluated against its row. -/
theorem resolveRow_keeps {rowItem : Data} : (resolveRow o value rowItem).Keeps
    (EvaluatedAt value ⟨rowItem, rowItem⟩) Thrown := by
  unfold resolveRow
  refine (Logged.keeps_lift thrown_itemsOf).bind fun cells hcells ↦ ?_
  refine Logged.Keeps.bind (Logged.keeps_all fun l hl ↦ ?_) fun _ _ ↦ Logged.keeps_pure
  obtain ⟨cell, hcell, rfl⟩ := List.mem_map.mp hl
  refine Logged.Keeps.bind ?_ fun _ _ ↦ Logged.keeps_lift thrown_applyFormats
  refine resolveRefs_keeps.mono (fun e h ↦ h.mono ?_) fun _ h ↦ h
  cases value with
  | array items =>
    obtain rfl := Except.ok.inj hcells
    exact .item hcell .here
  | _ => cases hcells

theorem resolveTable_keeps (hkind : kindOf entries = "table") : (resolveTable o entries scope).Keeps
    (EvaluatedFor (.object entries) scope.context) Thrown := by
  unfold resolveTable
  dsimp only
  refine (Logged.keeps_lift (thrown_require Failure.noConfusion)).bind fun _ _ ↦ ?_
  refine Logged.Keeps.bind (Logged.Keeps.both ?_ ?_) fun _ _ ↦ ?_
  · refine resolveRefs_keeps.mono (fun e h ↦ ?_) fun _ h ↦ h
    exact .own h.written.of_without.of_without h.context
  · exact resolveRefs_keeps.mono (fun _ h ↦ h.for.of_field) fun _ h ↦ h
  · refine (Logged.keeps_lift thrown_requireArray).bind fun rowItems _ ↦ ?_
    refine Logged.Keeps.bind (Logged.keeps_all fun l hl ↦ ?_) fun rows _ ↦ ?_
    · obtain ⟨rowItem, -, rfl⟩ := List.mem_map.mp hl
      refine resolveRow_keeps.mono (fun e h ↦ ?_) fun _ h ↦ h
      exact .cell .here hkind h.written (h.context.trans h.row.symm)
    · refine (Logged.keeps_lift thrown_applyFormats).bind fun drawn _ ↦ ?_
      split
      · exact Logged.keeps_pure
      · exact Logged.keeps_lift (thrown_error Failure.noConfusion)

end

/-! ### Templates that are instantiated -/

section
variable {o : Outside} {context : Data} {page content components : List Data}

/-- Content in which a component instantiates a template: its `templateRef` resolves to an object
that has the template under a name, whatever the row and the name are. -/
def Instantiates (o : Outside) (context : Data) (content components : List Data) : Prop :=
  ∃ entries row templates key template, Part (.object entries) (.array content) ∧
    kindOf entries = "template" ∧
    (resolveRefs o (field entries "templateRef") ⟨context, row⟩).result = .ok templates ∧
    findTemplate o templates key = some template ∧ contentOf template = .ok components

/-- The content of a page, and of the templates that are instantiated for it. -/
inductive Available (o : Outside) (context : Data) (page : List Data) : List Data → Prop
  | page : Available o context page page
  | template {content components : List Data} (h : Available o context page content)
      (hinstantiates : Instantiates o context content components) :
      Available o context page components

/-- Content in which templates are nested at most so deep. -/
def Nested (o : Outside) (context : Data) : ℕ → List Data → Prop
  | 0, content => ∀ components, ¬ Instantiates o context content components
  | depth + 1, content =>
    ∀ components, Instantiates o context content components → Nested o context depth components

/-- What is evaluated for a page. -/
def EvaluatedInPage (o : Outside) (context : Data) (page : List Data) (e : Evaluation) : Prop :=
  ∃ content, Available o context page content ∧ EvaluatedFor (.array content) context e

/-- That the rendering is unfinished is not said where templates are nested no deeper. -/
def ThrownAt (o : Outside) (context : Data) (depth : ℕ) (content : List Data)
    (failure : Failure) : Prop :=
  failure = .unfinished → ¬ Nested o context depth content

end

section
variable {o : Outside} {content : Content} {entries : List (String × Data)} {scope : Scope}
  {P : Evaluation → Prop} {E : Failure → Prop}

/-- What the resolvers of components rely on: what is evaluated for the component may be, an error
of the code may be thrown, and so it is with the components it holds. -/
structure Relies (content : Content) (entries : List (String × Data)) (context : Data)
    (P : Evaluation → Prop) (E : Failure → Prop) : Prop where
  own : ∀ e, EvaluatedFor (.object entries) context e → P e
  thrown : ∀ failure, Thrown failure → E failure
  content : ∀ key scope, scope.context = context → (content key scope).Keeps P E

theorem Relies.field {key : String} {α : Type} {l : Rendered α}
    (h : Relies content entries scope.context P E)
    (hl : l.Keeps (EvaluatedAt (field entries key) scope) Thrown) : l.Keeps P E :=
  hl.mono (fun e he ↦ h.own e he.for.of_field) h.thrown

theorem Relies.lift {α : Type} {r : Except Failure α}
    (h : Relies content entries scope.context P E)
    (hr : ∀ failure, r = .error failure → Thrown failure) :
    (Logged.lift r : Rendered α).Keeps P E :=
  Logged.keeps_lift fun failure hfailure ↦ h.thrown _ (hr failure hfailure)

theorem requireComponents_keeps {key : String} {scope' : Scope}
    (h : Relies content entries scope.context P E) (hscope : scope'.context = scope.context) :
    (requireComponents content entries scope' key).Keeps P E := by
  refine Logged.Keeps.bind ?_ fun _ _ ↦ h.content key scope' hscope
  exact (h.lift thrown_itemsOf).bind fun _ _ ↦ Logged.keeps_pure

theorem optionalComponents_keeps {key : String} (h : Relies content entries scope.context P E) :
    (optionalComponents content entries scope key).Keeps P E := by
  unfold optionalComponents
  split
  · exact Logged.keeps_pure
  · exact Logged.keeps_pure
  · exact requireComponents_keeps h rfl

theorem resolveConditional_keeps (h : Relies content entries scope.context P E) :
    (resolveConditional o content entries scope).Keeps P E := by
  refine Logged.Keeps.bind ?_ fun holds _ ↦ ?_
  · exact resolveCondition_keeps.mono (fun e he ↦ h.own e he.for) h.thrown
  dsimp only
  split
  · exact Logged.keeps_pure
  · exact h.content _ scope rfl

theorem resolveRepeat_keeps (h : Relies content entries scope.context P E) :
    (resolveRepeat o content entries scope).Keeps P E := by
  unfold resolveRepeat
  dsimp only
  refine (h.field resolveRefs_keeps).bind fun resolved _ ↦ ?_
  refine (h.lift thrown_requireArray).bind fun items _ ↦ ?_
  split
  · exact optionalComponents_keeps h
  · refine (optionalComponents_keeps h).bind fun before _ ↦ ?_
    refine Logged.Keeps.bind (Logged.keeps_all fun l hl ↦ ?_) fun _ _ ↦ Logged.keeps_pure
    obtain ⟨item, -, rfl⟩ := List.mem_map.mp hl
    exact requireComponents_keeps h rfl

theorem requireTemplate_keeps (h : Relies content entries scope.context P E) :
    (requireTemplate o entries scope).Keeps P E := by
  unfold requireTemplate
  dsimp only
  refine ((h.field resolveRefs_keeps).both (h.field resolveRefs_keeps)).bind fun found _ ↦ ?_
  split
  · exact Logged.keeps_pure
  · exact h.lift (thrown_error Failure.noConfusion)

/-- The template found is one that the component's `templateRef` resolves to. -/
theorem requireTemplate_eq_ok {template : Data}
    (h : (requireTemplate o entries scope).result = .ok template) : ∃ templates key,
      (resolveRefs o (field entries "templateRef") scope).result = .ok templates ∧
        findTemplate o templates key = some template := by
  obtain ⟨⟨templates, key⟩, hfound, h⟩ := Logged.bind_eq_ok h
  refine ⟨templates, key, (Logged.both_eq_ok.mp hfound).1, ?_⟩
  dsimp only at h
  split at h
  · next hsome => exact hsome.trans (congrArg some (Except.ok.inj h))
  · cases h

theorem resolveTemplate_keeps {instantiate : List Data → Scope → Rendered (List Data)}
    (h : Relies content entries scope.context P E)
    (hinstantiate : ∀ components scope', scope'.context = scope.context →
      (∃ templates key template,
        (resolveRefs o (field entries "templateRef") scope).result = .ok templates ∧
          findTemplate o templates key = some template ∧ contentOf template = .ok components) →
        (instantiate components scope').Keeps P E) :
    (resolveTemplate o entries scope instantiate).Keeps P E := by
  refine (requireTemplate_keeps h).bind fun template htemplate ↦ ?_
  refine Logged.Keeps.bind ?_ fun row _ ↦ ?_
  · unfold resolveDataRef
    split
    · exact Logged.keeps_pure
    · exact h.field resolveRefs_keeps
  · refine (h.lift fun failure hfailure ↦ ?_).bind fun components hcomponents ↦ ?_
    · unfold contentOf at hfailure
      split at hfailure
      · exact thrown_itemsOf _ hfailure
      · exact thrown_error Failure.noConfusion _ hfailure
    · obtain ⟨templates, key, htemplates, hfind⟩ := requireTemplate_eq_ok htemplate
      exact hinstantiate components _ rfl ⟨templates, key, template, htemplates, hfind, hcomponents⟩

theorem resolveComponentTreeNode_keeps (h : Relies content entries scope.context P E) :
    (resolveComponentTreeNode o content entries scope).Keeps P E := by
  unfold resolveComponentTreeNode
  split
  · refine Logged.Keeps.bind (Logged.Keeps.both ?_ (h.content _ scope rfl)) fun found _ ↦ ?_
    · refine resolveDisplayValue_keeps.mono (fun e he ↦ h.own e ?_) h.thrown
      exact he.of_without (by decide) (by decide)
    · refine (h.lift thrown_applyFormats).bind fun drawn _ ↦ ?_
      split
      · exact Logged.keeps_pure
      · exact h.lift (thrown_error Failure.noConfusion)
  · exact h.lift (thrown_error Failure.noConfusion)

theorem isHidden_keeps (hown : ∀ e, EvaluatedFor (.object entries) scope.context e → P e)
    (hthrown : ∀ failure, Thrown failure → E failure) :
    (isHidden o entries scope).Keeps P E := by
  unfold isHidden
  split
  · exact Logged.keeps_pure
  · refine Logged.Keeps.bind ?_ fun _ _ ↦ Logged.keeps_pure
    exact resolveCondition_keeps.mono (fun e h ↦ hown e h.for) hthrown

theorem resolveKind_keeps {instantiate : List Data → Scope → Rendered (List Data)}
    (h : Relies content entries scope.context P E)
    (hinstantiate : kindOf entries = "template" → ∀ components scope',
      scope'.context = scope.context → (∃ templates key template,
        (resolveRefs o (field entries "templateRef") scope).result = .ok templates ∧
          findTemplate o templates key = some template ∧ contentOf template = .ok components) →
        (instantiate components scope').Keeps P E) :
    (resolveKind o content entries scope instantiate).Keeps P E := by
  have hown {α : Type} {l : Rendered α}
      (hl : l.Keeps (EvaluatedFor (.object entries) scope.context) Thrown) : l.Keeps P E :=
    hl.mono h.own h.thrown
  unfold resolveKind
  split
  · exact resolveConditional_keeps h
  · exact resolveRepeat_keeps h
  · next hkind => exact hown (resolveTable_keeps hkind)
  · next hkind => exact resolveTemplate_keeps h (hinstantiate hkind)
  · exact (hown resolveUrl_keeps).bind fun _ _ ↦ Logged.keeps_pure
  · exact requireComponents_keeps h rfl
  · exact resolveComponentTreeNode_keeps h
  · exact resolveComponentTreeNode_keeps h
  · exact resolveComponentTreeNode_keeps h
  · exact hown resolveDisplayComponent_keeps

end

/-! ### Rendering a page -/

section
variable {o : Outside} {context : Data} {page : List Data}

/-- The components under a name are parts of the object. -/
theorem part_of_mem_componentsAt {entries : List (String × Data)} {key : String} {child : Data}
    (h : child ∈ componentsAt entries key) (hfield : (entries.lookup key).isSome) :
    Part child (.object entries) := by
  obtain ⟨value, hvalue⟩ := Option.isSome_iff_exists.mp hfield
  refine Part.trans ?_ (.entry (mem_of_lookup hvalue) .here)
  rw [componentsAt, field, hvalue, Option.getD_some] at h
  split at h
  · exact .item h .here
  · exact List.mem_singleton.mp h ▸ .here

/-- What is rendered of the templates a component instantiates, one level further down. -/
def KeepsBelow (o : Outside) (context : Data) (page content : List Data) : ℕ → Prop
  | 0 => True
  | depth + 1 => ∀ components, Instantiates o context content components →
    ∀ child ∈ components, ∀ scope, scope.context = context →
      (resolveComponent o depth child scope).Keeps (EvaluatedInPage o context page)
        (ThrownAt o context depth components)

/-- The induction over a component is on its size; templates are left to the level below. -/
theorem resolveComponent_keeps_of_below {depth : ℕ} {content : List Data}
    (hbelow : KeepsBelow o context page content depth)
    (havailable : Available o context page content)
    (size : ℕ) (component : Data) (hsize : sizeOf component < size) (scope : Scope)
    (hscope : scope.context = context) (hpart : Part component (.array content)) :
    (resolveComponent o depth component scope).Keeps
      (EvaluatedInPage o context page) (ThrownAt o context depth content) := by
  have hthrown (failure : Failure) (hfailure : Thrown failure) :
      ThrownAt o context depth content failure := fun h ↦ absurd h hfailure
  induction size generalizing component scope with
  | zero => exact absurd hsize (Nat.not_lt_zero _)
  | succ size ih =>
    cases component with
    | object entries =>
      rw [resolveComponent]
      have hcontent (key : String) (scope' : Scope) (hscope' : scope'.context = scope.context) :
          (if _hfield : (entries.lookup key).isSome then (do
              return (← Logged.all <| (componentsAt entries key).attach.map fun component ↦
                resolveComponent o depth component.1 scope').flatten : Rendered (List Data))
            else return []).Keeps (EvaluatedInPage o context page)
              (ThrownAt o context depth content) := by
        split
        · next hfield =>
          refine Logged.Keeps.bind (Logged.keeps_all fun l hl ↦ ?_) fun _ _ ↦ Logged.keeps_pure
          obtain ⟨child, -, rfl⟩ := List.mem_map.mp hl
          have hlt := sizeOf_lt_of_mem_componentsAt child.2 hfield
          exact ih child.1 (by omega) scope' (hscope'.trans hscope)
            ((part_of_mem_componentsAt child.2 hfield).trans hpart)
        · exact Logged.keeps_pure
      have hown (e : Evaluation) (he : EvaluatedFor (.object entries) scope.context e) :
          EvaluatedInPage o context page e := ⟨content, havailable, (hscope ▸ he).mono hpart⟩
      split
      · exact resolveConditional_keeps ⟨hown, hthrown, hcontent⟩
      · refine (isHidden_keeps hown hthrown).bind fun hidden _ ↦ ?_
        split
        · exact Logged.keeps_pure
        · have hrest (e : Evaluation)
              (he : EvaluatedFor (.object (without "condition" entries)) scope.context e) :
              EvaluatedInPage o context page e :=
            hown e (he.of_without (by decide) (by decide))
          refine resolveKind_keeps ⟨hrest, hthrown, hcontent⟩ ?_
          rintro hkind components scope' hscope' ⟨templates, key, template, hfound⟩
          obtain ⟨htemplates, hfind, hcomponents⟩ := hfound
          rw [field_without (by decide)] at htemplates
          have hinstantiates : Instantiates o context content components :=
            ⟨entries, scope.row, templates, key, template, hpart,
              (kindOf_without (by decide)).symm.trans hkind, hscope ▸ htemplates, hfind,
              hcomponents⟩
          cases depth with
          | zero => exact Logged.keeps_lift fun _ _ _ hnested ↦ hnested components hinstantiates
          | succ depth =>
            refine Logged.Keeps.bind (Logged.keeps_all fun l hl ↦ ?_) fun _ _ ↦ Logged.keeps_pure
            obtain ⟨child, hchild, rfl⟩ := List.mem_map.mp hl
            refine (hbelow components hinstantiates child hchild scope'
              (hscope'.trans hscope)).mono (fun _ h ↦ h) fun failure h hunfinished hnested ↦ ?_
            exact h hunfinished (hnested components hinstantiates)
    | _ =>
      rw [resolveComponent]
      · exact Logged.keeps_lift fun _ h ↦ hthrown _ (thrown_error Failure.noConfusion _ h)
      · exact fun _ h ↦ by cases h

/-- A component's resolution hands to jsonata what is written in the page, or in the content of a
template that is instantiated for it, and is unfinished only where templates are nested deeper. -/
theorem resolveComponent_keeps {depth : ℕ} {content : List Data} {component : Data} {scope : Scope}
    (havailable : Available o context page content) (hscope : scope.context = context)
    (hpart : Part component (.array content)) : (resolveComponent o depth component scope).Keeps
      (EvaluatedInPage o context page) (ThrownAt o context depth content) := by
  have hbelow : KeepsBelow o context page content depth := by
    induction depth generalizing content component scope with
    | zero => trivial
    | succ depth ih =>
      intro components hinstantiates child hchild scope' hscope'
      have havailable' := Available.template havailable hinstantiates
      have hpart' := Part.item hchild .here
      exact resolveComponent_keeps_of_below (ih havailable' hscope' hpart') havailable' _ child
        (Nat.lt_succ_self _) scope' hscope' hpart'
  exact resolveComponent_keeps_of_below hbelow havailable _ component (Nat.lt_succ_self _) scope
    hscope hpart

/-- Whatever the data of a page is, each expression that is handed to jsonata while components of
the page are rendered is written in the page or in the content of a template that a component
instantiates. That content is what a `templateRef` resolves to, data if it refers to data; nothing
else that a reference resolves to is evaluated in turn. It is evaluated against the context of the
page, and in a cell of a table against the row. And templates nested no deeper than is looked, the
components are rendered or an error is thrown. -/
theorem resolveComponents_keeps {depth : ℕ} {components : List Data}
    (h : ∀ component ∈ components, Part component (.array page)) :
    (resolveComponents o depth components context).Keeps (EvaluatedInPage o context page)
      (ThrownAt o context depth page) := by
  refine Logged.Keeps.bind (Logged.keeps_all fun l hl ↦ ?_) fun _ _ ↦ Logged.keeps_pure
  obtain ⟨component, hcomponent, rfl⟩ := List.mem_map.mp hl
  exact resolveComponent_keeps .page rfl (h component hcomponent)

end

end FgGas.Pages
