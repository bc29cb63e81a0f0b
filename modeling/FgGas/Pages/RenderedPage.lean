import FgGas.Pages.PageModel
import FgGas.Pages.Rendering

/-!
# Rendering page models

What is said of the components of a page holds of page models: of the sections and the back link
too, nothing but what is written in them is evaluated. And where the groups of templates do not
refer to each other in circles, no page is left unfinished.
-/

namespace FgGas.Pages

open Machine Processes Agreements

/-- The content of a section: what may be evaluated of it. -/
def sectionEntries (definition : SectionDefinition) : List (String × Data) :=
  [("condition", definition.condition), ("title", definition.title),
    ("components", .array definition.components)]

/-- The content of a page: what may be evaluated of it. -/
def pageContent (definition : PageDefinition) : List Data :=
  definition.backLink :: definition.components ++
    definition.sections.map fun s ↦ .object (sectionEntries s)

section
variable {o : Outside} {depth : ℕ} {context : Data} {page : List Data}

/-- What is evaluated for a part of the page is evaluated for the page. -/
theorem EvaluatedFor.inPage {value : Data} {e : Evaluation} (h : EvaluatedFor value context e)
    (hmem : value ∈ page) : EvaluatedInPage o context page e :=
  ⟨page, .page, h.mono (.item hmem .here)⟩

theorem Thrown.at {failure : Failure} (h : Thrown failure) :
    ThrownAt o context depth page failure := fun hunfinished ↦ absurd hunfinished h

theorem isShown_keeps (entries : List (String × Data)) :
    (isShown o (field entries "condition") ⟨context, .undefined⟩).Keeps
      (EvaluatedFor (.object entries) context) Thrown := by
  unfold isShown
  split
  · exact Logged.keeps_pure
  · exact resolveCondition_keeps.mono (fun _ he ↦ he.for) fun _ h ↦ h

theorem resolveSection_keeps {definition : SectionDefinition}
    (h : .object (sectionEntries definition) ∈ page) :
    (resolveSection o depth context definition).Keeps (EvaluatedInPage o context page)
      (ThrownAt o context depth page) := by
  unfold resolveSection
  dsimp only
  have hshown : (isShown o definition.condition ⟨context, .undefined⟩).Keeps
      (EvaluatedFor (.object (sectionEntries definition)) context) Thrown :=
    isShown_keeps (sectionEntries definition)
  have htitle : Part definition.title (.object (sectionEntries definition)) :=
    .entry (List.mem_cons_of_mem _ List.mem_cons_self) .here
  refine Logged.Keeps.bind (hshown.mono (fun _ he ↦ he.inPage h) fun _ hfailure ↦ hfailure.at)
    fun shown _ ↦ ?_
  split
  · refine Logged.Keeps.bind (Logged.Keeps.both ?_ ?_) fun _ _ ↦ Logged.keeps_pure
    · exact resolveRefs_keeps.mono (fun e he ↦ (he.for.mono htitle).inPage h)
        fun _ hfailure ↦ hfailure.at
    · have hcomponents : Part (.array definition.components)
          (.object (sectionEntries definition)) :=
        .entry (List.mem_cons_of_mem _ (List.mem_cons_of_mem _ List.mem_cons_self)) .here
      refine resolveComponents_keeps fun component hcomponent ↦ ?_
      exact .item h ((Part.item hcomponent .here).trans hcomponents)
  · exact Logged.keeps_pure

theorem resolvePageSections_keeps {includeSections : Bool} {sections : List SectionDefinition}
    (h : ∀ s ∈ sections, .object (sectionEntries s) ∈ page) :
    (resolvePageSections o depth context includeSections sections).Keeps
      (EvaluatedInPage o context page) (ThrownAt o context depth page) := by
  unfold resolvePageSections
  split
  · refine Logged.Keeps.bind (Logged.keeps_all fun l hl ↦ ?_) fun _ _ ↦ Logged.keeps_pure
    obtain ⟨definition, hdefinition, rfl⟩ := List.mem_map.mp hl
    exact resolveSection_keeps (h definition hdefinition)
  · exact Logged.keeps_pure

theorem resolveBackLink_keeps {backLink : Data} :
    (resolveBackLink o context backLink).Keeps (EvaluatedFor backLink context) Thrown := by
  unfold resolveBackLink
  split
  · exact Logged.keeps_pure
  · refine Logged.Keeps.bind (Logged.Keeps.both ?_ ?_) fun _ _ ↦ ?_
    · exact resolveRefs_keeps.mono (fun _ he ↦ .own he.written.of_without he.context) fun _ h ↦ h
    · exact resolvePageHref_keeps.mono (fun _ he ↦ he.of_field) fun _ h ↦ h
    · dsimp only
      split
      · exact Logged.keeps_pure
      · exact Logged.keeps_lift (thrown_error Failure.noConfusion)
  · exact Logged.keeps_lift (thrown_error Failure.noConfusion)

end

section
variable {o : Outside} {depth : ℕ} {d : PageLifecycle PageDefinition} {templates outputs : Data}
  {agreement : PageAgreement} {options : PageOptions}

theorem thrown_requireAction {action : Data} {component : String} :
    ∀ failure, requireAction action component = .error failure → Thrown failure := by
  intro failure h
  unfold requireAction at h
  split at h
  · rcases bind_eq_error.mp h with h | ⟨_, -, h⟩
    · exact thrown_require Failure.noConfusion _ h
    · cases h
  · exact thrown_error Failure.noConfusion _ h

/-- Binding the actions of a page may throw, but is never unfinished. -/
theorem thrown_resolveComponentActions {c : ActionContext} {withinForm : Bool} {value : Data} :
    ∀ failure, resolveComponentActions c withinForm value = .error failure → Thrown failure := by
  induction withinForm, value using resolveComponentActions.induct with
  | case1 withinForm items ih =>
    intro failure h
    rw [resolveComponentActions] at h
    rcases bind_eq_error.mp h with h | ⟨_, -, h⟩
    · obtain ⟨item, -, h⟩ := mapM_eq_error h
      exact ih item failure h
    · cases h
  | case2 withinForm entries hform ih =>
    intro failure h
    rw [resolveComponentActions_form hform] at h
    rcases bind_eq_error.mp h with h | ⟨action, -, h⟩
    · exact thrown_requireAction _ h
    rcases bind_eq_error.mp h with h | ⟨resolved, -, h⟩
    · exact thrown_mapError (fun _ ↦ Failure.noConfusion) _ h
    rcases bind_eq_error.mp h with h | ⟨_, -, h⟩
    · cases hfield : entries.lookup "components" with
      | some components =>
        rw [field, hfield, Option.getD_some] at h
        exact ih components hfield failure h
      | none =>
        rw [field, hfield, Option.getD_none, resolveComponentActions] at h
        · cases h
        · exact fun _ h ↦ by cases h
        · exact fun _ h ↦ by cases h
    · cases h
  | case3 withinForm entries _ hbutton =>
    intro failure h
    rw [resolveComponentActions_button hbutton] at h
    rcases bind_eq_error.mp h with h | ⟨_, -, h⟩
    · unfold resolveButton at h
      split at h
      · cases h
      · rcases bind_eq_error.mp h with h | ⟨_, -, h⟩
        · exact thrown_requireAction _ h
        · cases h
    · cases h
  | case4 withinForm entries hform hbutton ih =>
    intro failure h
    rw [resolveComponentActions, if_neg hform, if_neg hbutton] at h
    rcases bind_eq_error.mp h with h | ⟨_, -, h⟩
    · obtain ⟨entry, -, h⟩ := mapM_eq_error h
      rcases bind_eq_error.mp h with h | ⟨_, -, h⟩
      · exact ih entry failure h
      · cases h
    · cases h
  | case5 withinForm literal harray hobject =>
    intro failure h
    rw [resolveComponentActions] at h
    · cases h
    · exact harray
    · exact hobject

theorem thrown_resolvePageActions {c : ActionContext} {tree : PageTree} :
    ∀ failure, resolvePageActions c tree = .error failure → Thrown failure := by
  intro failure h
  rcases bind_eq_error.mp h with h | ⟨_, -, h⟩
  · obtain ⟨component, -, h⟩ := mapM_eq_error h
    exact thrown_resolveComponentActions _ h
  rcases bind_eq_error.mp h with h | ⟨_, -, h⟩
  · obtain ⟨s, -, h⟩ := mapM_eq_error h
    rcases bind_eq_error.mp h with h | ⟨_, -, h⟩
    · obtain ⟨component, -, h⟩ := mapM_eq_error h
      exact thrown_resolveComponentActions _ h
    · cases h
  · cases h

theorem thrown_removeActionNode {component : Data} :
    ∀ failure, removeActionNode component = .error failure → Thrown failure := by
  induction component using removeActionNode.induct with
  | case1 entries hbutton =>
    intro failure h
    rw [removeActionNode, if_pos hbutton] at h
    cases h
  | case2 entries hbutton components hfield ih =>
    intro failure h
    rw [removeActionNode, if_neg hbutton] at h
    split at h
    · next components' hfield' =>
      obtain rfl := Data.array.inj (Option.some.inj (hfield'.symm.trans hfield))
      rcases bind_eq_error.mp h with h | ⟨_, -, h⟩
      · obtain ⟨child, -, h⟩ := mapM_eq_error h
        exact ih child failure h
      · cases h
    · cases h
  | case3 entries hbutton hnone =>
    intro failure h
    rw [removeActionNode, if_neg hbutton] at h
    split at h
    · next components hfield => exact absurd hfield (hnone components)
    · cases h
  | case4 component hliteral =>
    intro failure h
    rw [removeActionNode] at h
    · rcases bind_eq_error.mp h with h | ⟨_, -, h⟩
      · exact thrown_require Failure.noConfusion _ h
      · cases h
    · exact hliteral

theorem thrown_removeActionNodes {components : List Data} :
    ∀ failure, removeActionNodes components = .error failure → Thrown failure := by
  intro failure h
  rcases bind_eq_error.mp h with h | ⟨_, -, h⟩
  · obtain ⟨component, -, h⟩ := mapM_eq_error h
    exact thrown_removeActionNode _ h
  · cases h

theorem thrown_withoutPageActions {tree : PageTree} {removeActions : Bool} :
    ∀ failure, withoutPageActions tree removeActions = .error failure → Thrown failure := by
  intro failure h
  unfold withoutPageActions at h
  split at h
  · rcases bind_eq_error.mp h with h | ⟨_, -, h⟩
    · exact thrown_removeActionNodes _ h
    rcases bind_eq_error.mp h with h | ⟨_, -, h⟩
    · obtain ⟨s, -, h⟩ := mapM_eq_error h
      rcases bind_eq_error.mp h with h | ⟨_, -, h⟩
      · exact thrown_removeActionNodes _ h
      · cases h
    · cases h
  · cases h

/-- What may be evaluated for a page of a definition. -/
def contentOfPage (d : PageLifecycle PageDefinition) (page : String) : List Data :=
  ((d.pages.lookup page).map pageContent).getD []

theorem tryPageModel_keeps {definition : PageDefinition} :
    (tryPageModel o depth d templates agreement definition outputs options).Keeps
      (EvaluatedInPage o (pageContext agreement templates outputs) (pageContent definition))
      (ThrownAt o (pageContext agreement templates outputs) depth (pageContent definition)) := by
  unfold tryPageModel
  dsimp only
  refine Logged.Keeps.bind (Logged.Keeps.both ?_ (Logged.Keeps.both ?_ ?_)) fun _ _ ↦ ?_
  · refine resolveComponents_keeps fun component hcomponent ↦ .item ?_ .here
    exact List.mem_append_left _ (List.mem_cons_of_mem _ hcomponent)
  · exact resolvePageSections_keeps fun s hs ↦ List.mem_append_right _ (List.mem_map_of_mem hs)
  · refine Logged.Keeps.bind ?_ fun _ _ ↦ Logged.keeps_pure
    exact resolveBackLink_keeps.mono (fun e he ↦ he.inPage List.mem_cons_self) fun _ h ↦ h.at
  · refine Logged.Keeps.bind (Logged.keeps_lift fun failure hfailure ↦ ?_) fun _ _ ↦ ?_
    · exact (thrown_resolvePageActions failure hfailure).at
    · refine Logged.Keeps.bind (Logged.keeps_lift fun failure hfailure ↦ ?_) fun _ _ ↦
        Logged.keeps_pure
      exact (thrown_withoutPageActions failure hfailure).at

/-- Whatever an agreement and the outputs of a page's processes hold, each expression that is handed
to jsonata while the page model is built is written in the page, its sections and its back link, or
in the content of a template that a component instantiates, which is what its `templateRef` resolves
to; and templates nested no deeper than is looked, the page model is built or an error is thrown. -/
theorem buildPageModel_keeps : (buildPageModel o depth d templates agreement outputs options).Keeps
    (EvaluatedInPage o (pageContext agreement templates outputs) (contentOfPage d options.page))
    (ThrownAt o (pageContext agreement templates outputs) depth
      (contentOfPage d options.page)) := by
  unfold buildPageModel contentOfPage
  split
  · exact Logged.keeps_lift fun failure h ↦ (thrown_error Failure.noConfusion failure h).at
  · next definition hpage =>
    rw [hpage, Option.map_some, Option.getD_some]
    refine Logged.Keeps.mapError tryPageModel_keeps fun failure hfailure ↦ ?_
    cases failure with
    | unfinished => exact hfailure
    | _ => exact Thrown.at Failure.noConfusion

end

/-! ### Groups of templates -/

/-- The reference of a group of templates. -/
def groupRef (name : String) : String := "$.definition.templates." ++ name

/-- Content that instantiates templates of such groups only as are ranked below a bound. -/
def CallsBelow (rank : String → ℕ) (bound : ℕ) (content : List Data) : Prop :=
  ∀ entries, Part (.object entries) (.array content) → kindOf entries = "template" →
    ∃ name, field entries "templateRef" = .string (groupRef name) ∧ rank name < bound

/-- Groups of templates that are ranked: the templates of a group instantiate such of groups with
a lower rank only. -/
def Ranked (o : Outside) (groups : List (String × Data)) (rank : String → ℕ) : Prop :=
  ∀ name group key template content, groups.lookup name = some group →
    findTemplate o group key = some template → contentOf template = .ok content →
      CallsBelow rank (rank name) content

/-- That the references of groups point at the groups, whatever the row is. -/
def AnswersGroups (o : Outside) (context : Data) (groups : List (String × Data))
    (called : String → Prop) : Prop :=
  ∀ name row group, called name → PointsAt o ⟨context, row⟩ (groupRef name) group →
    groups.lookup name = some group

section
variable {o : Outside} {context : Data} {groups : List (String × Data)} {rank : String → ℕ}
  {content components : List Data} {depth bound bound' : ℕ}

theorem isExpression_groupRef (name : String) : isExpression (groupRef name) = false := by
  have href : "$.definition.templates.".toList = '$' :: ".definition.templates.".toList := rfl
  have hstart : "jsonata:".toList = 'j' :: "sonata:".toList := rfl
  unfold isExpression groupRef jsonataPrefix
  rw [String.toList_append, href, hstart, List.cons_append, List.isPrefixOf_cons_cons]
  rfl

theorem CallsBelow.mono (h : CallsBelow rank bound content) (hbound : bound ≤ bound') :
    CallsBelow rank bound' content := fun entries hpart hkind ↦
  let ⟨name, href, hrank⟩ := h entries hpart hkind
  ⟨name, href, hrank.trans_le hbound⟩

/-- What is instantiated is content of a template of a group that is referred to. -/
theorem exists_group_of_instantiates
    (hgroups : AnswersGroups o context groups fun name ↦ rank name < bound)
    (hcalls : CallsBelow rank bound content) (h : Instantiates o context content components) :
    ∃ name group key template, rank name < bound ∧ groups.lookup name = some group ∧
      findTemplate o group key = some template ∧ contentOf template = .ok components := by
  obtain ⟨entries, row, templates, key, template, hpart, hkind, htemplates, hfind, hcontent⟩ := h
  obtain ⟨name, href, hrank⟩ := hcalls entries hpart hkind
  rw [href, resolveRefs, resolveString_reads (isExpression_groupRef name)] at htemplates
  obtain ⟨parts, -, ⟨-, hpoints⟩ | ⟨-, texts, -, rfl⟩⟩ := htemplates
  · exact ⟨name, templates, key, template, hrank, hgroups name row templates hrank hpoints,
      hfind, hcontent⟩
  · cases hfind

/-- Ranked templates are nested no deeper than the ranks go down. -/
theorem nested_of_ranked
    (hgroups : AnswersGroups o context groups fun name ↦ rank name < depth)
    (hranked : Ranked o groups rank) (hcalls : CallsBelow rank depth content) :
    Nested o context depth content := by
  induction depth generalizing content with
  | zero =>
    intro components h
    obtain ⟨name, -, -, -, hrank, -⟩ := exists_group_of_instantiates hgroups hcalls h
    exact absurd hrank (Nat.not_lt_zero _)
  | succ depth ih =>
    intro components h
    obtain ⟨name, group, key, template, hrank, hlookup, hfind, hcontent⟩ :=
      exists_group_of_instantiates hgroups hcalls h
    have hgroups' : AnswersGroups o context groups fun name ↦ rank name < depth :=
      fun name row group hname ↦ hgroups name row group (hname.trans (Nat.lt_succ_self depth))
    exact ih hgroups' ((hranked name group key template components hlookup hfind hcontent).mono
      (Nat.le_of_lt_succ hrank))

/-- A definition whose groups of templates do not refer to each other in circles has no page that
is left unfinished: however its conditions, rows and items turn out, each page model is built, or
an error is thrown, in as many levels as its components' groups are ranked. -/
theorem buildPageModel_finishes (rank : String → ℕ) {d : PageLifecycle PageDefinition}
    {agreement : PageAgreement} {outputs : Data} {options : PageOptions}
    (hgroups : AnswersGroups o (pageContext agreement (.object groups) outputs) groups fun name ↦
      rank name < depth)
    (hranked : Ranked o groups rank)
    (hcalls : CallsBelow rank depth (contentOfPage d options.page)) :
    (buildPageModel o depth d (.object groups) agreement outputs options).result ≠
      .error .unfinished := fun h ↦
  buildPageModel_keeps.throws _ h rfl (nested_of_ranked hgroups hranked hcalls)

/-- An object of strings has no other object in it. -/
theorem eq_of_part {entries fields : List (String × Data)}
    (hfields : ∀ entry ∈ fields, ∃ text, entry.2 = .string text)
    (h : Part (.object entries) (.object fields)) : entries = fields := by
  cases h with
  | here => rfl
  | entry hentry h =>
    obtain ⟨text, htext⟩ := hfields _ hentry
    rw [htext] at h
    cases h

/-- The component that stands for a parcel. -/
def parcelComponent : List (String × Data) :=
  [("component", .string "template"), ("templateRef", .string (groupRef "parcels")),
    ("templateKey", .string "parcel")]

/-- What is drawn of a parcel. -/
def parcelParagraph : List (String × Data) :=
  [("component", .string "paragraph"), ("text", .string "$.agreement.parcel")]

/-- A group with the template of a parcel. -/
def parcelGroup : Data :=
  .object [("parcel", .object [("content", .array [.object parcelParagraph])])]

/-- A page that shows a parcel. -/
def parcelPage : PageDefinition where
  title := .undefined
  layout := .undefined
  contents := .undefined
  print := .undefined
  watermarks := []
  backLink := .undefined
  components := [.object parcelComponent]
  sections := []

/-- A definition with the page. -/
def parcelLifecycle : PageLifecycle PageDefinition where
  code := "woodland"
  createTarget := "offered"
  states := []
  configVersion := none
  pages := [("parcels", parcelPage)]

/-- The agreement that is shown. -/
def parcelAgreement : PageAgreement :=
  ⟨"FPTT1", "offered", .object [("parcel", .string "Long Meadow")]⟩

/-- What the page is rendered with: what its references point at in its context. -/
def parcelOutside : Outside where
  jsonata := ⟨fun _ ↦ .ok (.object [("type", .string "path")]), fun expression _ _ ↦ .ok <|
    if expression = groupRef "parcels" then parcelGroup
    else if expression = "$.agreement.parcel" then .string "Long Meadow"
    else .undefined⟩
  digits _ := ⟨0, 0⟩
  applyFormat value _ := .ok value

theorem buildPageModel_parcels :
    (buildPageModel parcelOutside 1 parcelLifecycle (.object [("parcels", parcelGroup)])
      parcelAgreement (.object []) ⟨"parcels", false, false⟩).result ≠ .error .unfinished := by
  refine buildPageModel_finishes (fun name ↦ if name = "parcels" then 0 else 1) ?_ ?_ ?_
  · rintro name row group hname ⟨hevaluated, -⟩
    have hparcels : name = "parcels" := by
      by_contra hother
      rw [if_neg hother] at hname
      exact absurd hname (Nat.lt_irrefl 1)
    subst hparcels
    obtain rfl := Except.ok.inj hevaluated
    rfl
  · intro name group key template content hgroup hfind hcontent entries hpart hkind
    rw [lookup_cons_eq] at hgroup
    split at hgroup
    · obtain rfl := Option.some.inj hgroup
      obtain ⟨hlookup, -⟩ := Option.filter_eq_some_iff.mp hfind
      rw [lookup_cons_eq] at hlookup
      split at hlookup
      · obtain rfl := Option.some.inj hlookup
        obtain rfl := Except.ok.inj hcontent
        cases hpart with
        | item hitem hpart =>
          obtain rfl := List.mem_singleton.mp hitem
          obtain rfl := eq_of_part (by simp [parcelParagraph]) hpart
          exact absurd hkind (by decide)
      · cases hlookup
    · cases hgroup
  · rintro entries hpart hkind
    cases hpart with
    | item hitem hpart =>
      rcases List.mem_cons.mp hitem with rfl | hitem
      · cases hpart
      · obtain rfl := List.mem_singleton.mp hitem
        obtain rfl := eq_of_part (by simp [parcelComponent]) hpart
        exact ⟨"parcels", rfl, by decide⟩

end

end FgGas.Pages
