import FgGas.Machine.Assign
import FgGas.Pages.PageModel

/-!
# What forms post to

Every form of a page that is shown posts to an action of the state the agreement is in, and lists
what the action requires; every button submits a form or leads to an action.
-/

namespace FgGas.Pages

open Machine Processes Agreements

/-- What binding goes through: items of arrays, the components of forms, and the entries of other
objects than forms and buttons. It is known whether that is within a form. -/
inductive Reaches (within : Bool) (part : Data) : Bool → Data → Prop
  | here : Reaches within part within part
  | item {withinForm : Bool} {items : List Data} {item : Data} (hitem : item ∈ items)
      (h : Reaches within part withinForm item) : Reaches within part withinForm (.array items)
  | form {withinForm : Bool} {entries : List (String × Data)} {components : Data}
      (hform : kindOf entries = "form")
      (hcomponents : entries.lookup "components" = some components)
      (h : Reaches within part true components) : Reaches within part withinForm (.object entries)
  | entry {withinForm : Bool} {entries : List (String × Data)} {entry : String × Data}
      (hform : kindOf entries ≠ "form") (hbutton : kindOf entries ≠ "button")
      (hentry : entry ∈ entries) (h : Reaches within part withinForm entry.2) :
      Reaches within part withinForm (.object entries)

/-- A form that posts to an action there is, and lists what it requires. -/
structure FormBound (c : ActionContext) (entries : List (String × Data)) : Prop where
  action : ∃ action resolved, c.resolveAction action = .ok resolved ∧
    entries.lookup "formAction" = some (.string (actionHref c.agreementNumber action)) ∧
    entries.lookup "submissionRequirements" =
      some (requirementsData (submissionRequirements resolved))
  method : entries.lookup "method" = some (.string "POST")
  unconfigured : entries.lookup "action" = none

/-- A button that submits its form, or leads to an action. -/
structure ButtonBound (c : ActionContext) (within : Bool) (entries : List (String × Data)) :
    Prop where
  submits : within = true → entries.lookup "submit" = some (.boolean true)
  leads : within = false → ∃ action, action ≠ "" ∧ trimText action = action ∧
    entries.lookup "href" = some (.string (actionHref c.agreementNumber action))
  unconfigured : entries.lookup "action" = none

/-- Every form and button that is reached is bound. -/
def Bound (c : ActionContext) (withinForm : Bool) (value : Data) : Prop :=
  ∀ within entries, Reaches within (.object entries) withinForm value →
    (kindOf entries = "form" → FormBound c entries) ∧
      (kindOf entries = "button" → ButtonBound c within entries)

section
variable {c : ActionContext} {withinForm : Bool} {value bound : Data}
  {entries entries' : List (String × Data)} {action : String}

theorem requireAction_eq_ok {component : String} {configured : Data}
    (h : requireAction configured component = .ok action) :
    action ≠ "" ∧ trimText action = action := by
  unfold requireAction at h
  split at h
  · next text =>
    obtain ⟨hne, h⟩ := andThen_eq_ok.mp h
    obtain rfl := Except.ok.inj h
    exact ⟨of_decide_eq_true (require_eq_ok.mp hne), trimText_trimText text⟩
  · cases h

/-! ### Kinds are kept -/

/-- Binding makes a text of a text alone. -/
theorem resolveComponentActions_eq_string {text : String}
    (h : resolveComponentActions c withinForm value = .ok bound) :
    bound = .string text ↔ value = .string text := by
  cases value with
  | array items =>
    rw [resolveComponentActions_array] at h
    obtain ⟨items', -, rfl⟩ := map_eq_ok.mp h
    exact iff_of_false Data.noConfusion Data.noConfusion
  | object entries =>
    by_cases hform : kindOf entries = "form"
    · rw [resolveComponentActions_form hform] at h
      obtain ⟨_, -, h⟩ := bind_eq_ok.mp h
      obtain ⟨_, -, h⟩ := bind_eq_ok.mp h
      obtain ⟨_, -, h⟩ := bind_eq_ok.mp h
      cases h
      exact iff_of_false Data.noConfusion Data.noConfusion
    · by_cases hbutton : kindOf entries = "button"
      · rw [resolveComponentActions_button hbutton] at h
        obtain ⟨_, -, h⟩ := bind_eq_ok.mp h
        cases h
        exact iff_of_false Data.noConfusion Data.noConfusion
      · rw [resolveComponentActions_other hform hbutton] at h
        obtain ⟨entries', -, rfl⟩ := map_eq_ok.mp h
        exact iff_of_false Data.noConfusion Data.noConfusion
  | _ =>
    rw [resolveComponentActions] at h
    · rw [Except.ok.inj h]
    · exact fun _ h ↦ by cases h
    · exact fun _ h ↦ by cases h

theorem resolveEntryActions_eq_ok {entry entry' : String × Data} :
    resolveEntryActions c withinForm entry = .ok entry' ↔
      entry'.1 = entry.1 ∧ resolveComponentActions c withinForm entry.2 = .ok entry'.2 := by
  rw [resolveEntryActions, bind_eq_ok]
  constructor
  · rintro ⟨bound, hbound, h⟩
    obtain rfl := Except.ok.inj h
    exact ⟨rfl, hbound⟩
  · rintro ⟨hname, hbound⟩
    exact ⟨entry'.2, hbound, congrArg Except.ok (Prod.ext hname.symm rfl)⟩

theorem kindOf_of_entries
    (h : List.Forall₂ (fun entry entry' ↦ resolveEntryActions c withinForm entry = .ok entry')
      entries entries') : kindOf entries' = kindOf entries := by
  refine kindOf_congr fun text ↦ ?_
  induction h with
  | nil => rfl
  | @cons entry entry' _ _ hentry _ ih =>
    obtain ⟨hname, hbound⟩ := resolveEntryActions_eq_ok.mp hentry
    rw [lookup_cons_eq, lookup_cons_eq, hname]
    split
    · rw [Option.some_inj, Option.some_inj]
      exact resolveComponentActions_eq_string hbound
    · exact ih

theorem lookup_boundForm {resolved : AgreementAction (List RequiredField)} {components : Data}
    {agreementNumber key : String} :
    (boundForm agreementNumber action resolved components entries).lookup key =
      ([("components", components), ("method", .string "POST"),
        ("formAction", .string (actionHref agreementNumber action)),
        ("hiddenFields", orElse (field entries "hiddenFields") (.array [])),
        ("submissionRequirements", requirementsData (submissionRequirements resolved))].lookup
          key).or ((without "action" entries).lookup key) := by
  rw [boundForm, lookup_assign_of_nodup (by simp)]

theorem kindOf_boundForm {resolved : AgreementAction (List RequiredField)} {components : Data}
    {agreementNumber : String} :
    kindOf (boundForm agreementNumber action resolved components entries) = kindOf entries := by
  refine kindOf_congr fun text ↦ ?_
  rw [lookup_boundForm, lookup_without (by decide)]
  rfl

theorem formBound_boundForm {resolved : AgreementAction (List RequiredField)} {components : Data}
    (h : c.resolveAction action = .ok resolved) :
    FormBound c (boundForm c.agreementNumber action resolved components entries) where
  action := ⟨action, resolved, h, by rw [lookup_boundForm]; rfl, by rw [lookup_boundForm]; rfl⟩
  method := by rw [lookup_boundForm]; rfl
  unconfigured := by rw [lookup_boundForm, lookup_without_self]; rfl

theorem kindOf_resolveButton (h : resolveButton c withinForm entries = .ok entries') :
    kindOf entries' = kindOf entries := by
  unfold resolveButton at h
  split at h
  · obtain rfl := Except.ok.inj h
    rw [kindOf_setEntry (by decide), kindOf_without (by decide)]
  · obtain ⟨action, -, h⟩ := bind_eq_ok.mp h
    obtain rfl := Except.ok.inj h
    rw [kindOf_setEntry (by decide), kindOf_without (by decide)]

theorem buttonBound_resolveButton (h : resolveButton c withinForm entries = .ok entries') :
    ButtonBound c withinForm entries' := by
  unfold resolveButton at h
  split at h
  · next hwithin =>
    obtain rfl := Except.ok.inj h
    refine ⟨fun _ ↦ lookup_setEntry_self, fun hnot ↦ ?_, ?_⟩
    · exact absurd hwithin (by rw [hnot]; exact Bool.false_ne_true)
    · rw [lookup_setEntry, lookup_without_self]
      rfl
  · next hwithin =>
    obtain ⟨action, haction, h⟩ := bind_eq_ok.mp h
    obtain rfl := Except.ok.inj h
    obtain ⟨hne, htrim⟩ := requireAction_eq_ok haction
    refine ⟨fun hin ↦ absurd hin hwithin,
      fun _ ↦ ⟨action, hne, htrim, lookup_setEntry_self⟩, ?_⟩
    rw [lookup_setEntry, lookup_without_self]
    rfl

/-- Binding binds every form and button: by induction over the content, as it is bound. -/
theorem bound_resolveComponentActions
    (h : resolveComponentActions c withinForm value = .ok bound) : Bound c withinForm bound := by
  intro within entries hreaches
  induction withinForm, value using resolveComponentActions.induct generalizing bound with
  | case1 withinForm items ih =>
    rw [resolveComponentActions_array] at h
    obtain ⟨items', hitems, rfl⟩ := map_eq_ok.mp h
    cases hreaches with
    | item hitem hreaches =>
      obtain ⟨item, hmem, hitem⟩ := exists_of_mem_mapM hitems hitem
      exact ih ⟨item, hmem⟩ hitem hreaches
  | case2 withinForm fields hform ih =>
    rw [resolveComponentActions_form hform] at h
    obtain ⟨action, haction, h⟩ := bind_eq_ok.mp h
    obtain ⟨resolved, hresolved, h⟩ := bind_eq_ok.mp h
    obtain ⟨components, hcomponents, h⟩ := bind_eq_ok.mp h
    obtain rfl := Except.ok.inj h
    have hkind : kindOf (boundForm c.agreementNumber action resolved components fields) = "form" :=
      kindOf_boundForm.trans hform
    cases hreaches with
    | here =>
      refine ⟨fun _ ↦ formBound_boundForm (mapError_ok_iff.mp hresolved), fun hbutton ↦ ?_⟩
      exact absurd (hkind.symm.trans hbutton) (by decide)
    | form _ hfield hreaches =>
      rw [lookup_boundForm] at hfield
      obtain rfl := Option.some.inj hfield
      cases hown : fields.lookup "components" with
      | some components' =>
        rw [field, hown, Option.getD_some] at hcomponents
        exact ih components' hown hcomponents hreaches
      | none =>
        rw [field, hown, Option.getD_none, resolveComponentActions] at hcomponents
        · obtain rfl := Except.ok.inj hcomponents
          cases hreaches
        · exact fun _ h ↦ by cases h
        · exact fun _ h ↦ by cases h
    | entry hother => exact absurd hkind hother
  | case3 withinForm fields _ hbutton =>
    rw [resolveComponentActions_button hbutton] at h
    obtain ⟨fields', hfields, h⟩ := bind_eq_ok.mp h
    obtain rfl := Except.ok.inj h
    have hkind := (kindOf_resolveButton hfields).trans hbutton
    cases hreaches with
    | here =>
      refine ⟨fun hform ↦ ?_, fun _ ↦ buttonBound_resolveButton hfields⟩
      exact absurd (hkind.symm.trans hform) (by decide)
    | form hform => exact absurd (hkind.symm.trans hform) (by decide)
    | entry _ hother => exact absurd hkind hother
  | case4 withinForm fields hform hbutton ih =>
    rw [resolveComponentActions_other hform hbutton] at h
    obtain ⟨fields', hfields, rfl⟩ := map_eq_ok.mp h
    have hkind := kindOf_of_entries (mapM_eq_ok.mp hfields)
    cases hreaches with
    | here =>
      exact ⟨fun h ↦ absurd (hkind.symm.trans h) hform,
        fun h ↦ absurd (hkind.symm.trans h) hbutton⟩
    | form h => exact absurd (hkind.symm.trans h) hform
    | entry _ _ hentry hreaches =>
      obtain ⟨entry, hmem, hentry⟩ := exists_of_mem_mapM hfields hentry
      exact ih ⟨entry, hmem⟩ (resolveEntryActions_eq_ok.mp hentry).2 hreaches
  | case5 withinForm literal harray hobject =>
    rw [resolveComponentActions] at h
    · obtain rfl := Except.ok.inj h
      cases hreaches with
      | here => exact (hobject _ rfl).elim
      | item => exact (harray _ rfl).elim
      | form => exact (hobject _ rfl).elim
      | entry => exact (hobject _ rfl).elim
    · exact harray
    · exact hobject

theorem bound_of_mapM {components components' : List Data}
    (h : components.mapM (resolveComponentActions c false) = .ok components') :
    Bound c false (.array components') := by
  have hbound : resolveComponentActions c false (.array components) = .ok (.array components') := by
    rw [resolveComponentActions_array, h]
    rfl
  exact bound_resolveComponentActions hbound

end

/-- Every form and button of a page model is bound. -/
structure BoundModel (c : ActionContext) (model : PageModel) : Prop where
  components : Bound c false (.array model.components)
  sections : ∀ s ∈ model.sections.getD [], Bound c false (.array s.components)

section
variable {o : Outside} {depth : ℕ} {d : PageLifecycle PageDefinition} {templates outputs : Data}
  {agreement : PageAgreement} {page : String} {includeSections : Bool}

theorem resolvePageActions_bound {c : ActionContext} {tree bound : PageTree}
    (h : resolvePageActions c tree = .ok bound) : Bound c false (.array bound.components) ∧
      ∀ s ∈ bound.sections, Bound c false (.array s.components) := by
  obtain ⟨components, hcomponents, h⟩ := bind_eq_ok.mp h
  obtain ⟨sections, hsections, h⟩ := bind_eq_ok.mp h
  obtain rfl := Except.ok.inj h
  refine ⟨bound_of_mapM hcomponents, fun s hs ↦ ?_⟩
  obtain ⟨s', -, hs⟩ := exists_of_mem_mapM hsections hs
  obtain ⟨components', hcomponents', hs⟩ := bind_eq_ok.mp hs
  obtain rfl := Except.ok.inj hs
  exact bound_of_mapM hcomponents'

/-- In a page that is built to be shown, on its own or as the document with its sections, every
form posts to an action that the agreement's state has, and lists the fields and values that this
action requires; every button in a form submits it, and every other leads to an action. -/
theorem buildPageModel_bound :
    (buildPageModel o depth d templates agreement outputs ⟨page, includeSections, false⟩).Ensures
      (fun _ ↦ True) (BoundModel (actionContext d agreement)) where
  log _ _ := trivial
  result model h := by
    unfold buildPageModel at h
    split at h
    · cases h
    · have h := mapError_ok_iff.mp h
      obtain ⟨⟨components, sections, metadata⟩, -, h⟩ := Logged.bind_eq_ok h
      obtain ⟨bound, hbound, h⟩ := Logged.bind_eq_ok h
      obtain rfl := Except.ok.inj h
      obtain ⟨hcomponents, hsections⟩ := resolvePageActions_bound hbound
      refine ⟨hcomponents, fun s hs ↦ ?_⟩
      cases includeSections with
      | true => exact hsections s hs
      | false => cases hs

end

end FgGas.Pages
