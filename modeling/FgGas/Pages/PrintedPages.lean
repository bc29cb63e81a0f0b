import FgGas.Machine.Assign
import FgGas.Pages.PageModel

/-!
# Pages that are printed

A page that is printed is the page that is shown, without its buttons, without the frames of its
forms and without containers that nothing is left in. What is left stands in the same order, in
the same containers. Only the arrays of `components` are gone through; where one holds nothing,
null or undefined, there is no page to print.
-/

namespace FgGas.Pages

open Machine Processes Agreements

/-- A component that may be printed: no button, no form that holds components, and no container
that is empty or holds what may not be printed. -/
inductive Printed : Data → Prop
  | literal {component : Data} (h : ∀ entries, component ≠ .object entries)
      (hsome : isNothing component = false) : Printed component
  | leaf {entries : List (String × Data)} (hbutton : kindOf entries ≠ "button")
      (hleaf : ∀ components, entries.lookup "components" ≠ some (.array components)) :
      Printed (.object entries)
  | container {entries : List (String × Data)} {components : List Data}
      (hbutton : kindOf entries ≠ "button") (hform : kindOf entries ≠ "form")
      (hcomponents : entries.lookup "components" = some (.array components))
      (hsome : components ≠ []) (h : ∀ component ∈ components, Printed component) :
      Printed (.object entries)

/-- What is left of a component, each with the fields of the containers it stands in. -/
def outlineOf (above : List (List (String × Data))) (component : Data) :
    List (List (List (String × Data)) × Data) :=
  match component with
  | .object entries =>
    if kindOf entries = "button" then []
    else match _hfield : entries.lookup "components" with
      | some (.array components) =>
        let above := if kindOf entries = "form" then above
          else above ++ [without "components" entries]
        components.attach.flatMap fun child ↦ outlineOf above child.1
      | _ => [(above, .object entries)]
  | component => [(above, component)]
termination_by sizeOf component
decreasing_by
  have hmem := List.sizeOf_lt_of_mem child.2
  have hlt := sizeOf_lt_of_mem (mem_of_lookup _hfield)
  simp only [Data.array.sizeOf_spec] at hlt
  omega

/-- What is left of components. -/
def outline (components : List Data) : List (List (List (String × Data)) × Data) :=
  components.flatMap (outlineOf [])

section
variable {entries : List (String × Data)} {components lefts : List Data} {component : Data}
  {above : List (List (String × Data))}

theorem flatMap_attach {α β : Type} (xs : List α) (f : α → List β) :
    xs.attach.flatMap (fun x ↦ f x.1) = xs.flatMap f := by
  rw [List.flatMap_subtype fun _ _ ↦ rfl, List.unattach_attach]

theorem removeActionNode_button (h : kindOf entries = "button") :
    removeActionNode (.object entries) = .ok [] := by
  rw [removeActionNode, if_pos h]
  rfl

theorem removeActionNode_leaf (hbutton : kindOf entries ≠ "button")
    (hleaf : ∀ components, entries.lookup "components" ≠ some (.array components)) :
    removeActionNode (.object entries) = .ok [.object entries] := by
  rw [removeActionNode, if_neg hbutton]
  split
  · next components hfield => exact absurd hfield (hleaf components)
  · rfl

theorem removeActionNode_components (hbutton : kindOf entries ≠ "button")
    (hfield : entries.lookup "components" = some (.array components)) :
    removeActionNode (.object entries) =
      (removeActionNodes components).map (removeNestedActionNodes entries) := by
  rw [removeActionNode, if_neg hbutton]
  split
  · next components' hfield' =>
    obtain rfl := Data.array.inj (Option.some.inj (hfield'.symm.trans hfield))
    rw [List.mapM_subtype (g := removeActionNode) (fun _ _ ↦ rfl), List.unattach_attach,
      removeActionNodes, map_bind]
    rfl
  · next hnone => exact absurd hfield (hnone components)

theorem removeActionNode_literal (h : ∀ entries, component ≠ .object entries) :
    removeActionNode component = .ok lefts ↔ isNothing component = false ∧ [component] = lefts := by
  rw [removeActionNode, andThen_eq_ok, require_eq_ok, Bool.not_eq_true']
  · exact and_congr_right fun _ ↦ ⟨Except.ok.inj, congrArg _⟩
  · exact h

theorem outlineOf_components (hbutton : kindOf entries ≠ "button")
    (hfield : entries.lookup "components" = some (.array components)) :
    outlineOf above (.object entries) = components.flatMap
      (outlineOf (if kindOf entries = "form" then above
        else above ++ [without "components" entries])) := by
  rw [outlineOf, if_neg hbutton]
  split
  · next components' hfield' =>
    obtain rfl := Data.array.inj (Option.some.inj (hfield'.symm.trans hfield))
    exact flatMap_attach _ _
  · next hnone => exact absurd hfield (hnone components)

theorem outlineOf_literal (h : ∀ entries, component ≠ .object entries) :
    outlineOf above component = [(above, component)] := by
  rw [outlineOf]
  exact h

theorem removeActionNodes_eq_ok : removeActionNodes components = .ok lefts ↔
    ∃ each, List.Forall₂ (fun child left ↦ removeActionNode child = .ok left) components each ∧
      each.flatten = lefts := by
  rw [removeActionNodes, bind_eq_ok]
  exact exists_congr fun each ↦ and_congr mapM_eq_ok ⟨Except.ok.inj, congrArg _⟩

/-- What is left of a component is left of the components. -/
theorem exists_of_mem_removeActionNodes (h : removeActionNodes components = .ok lefts) {left : Data}
    (hleft : left ∈ lefts) : ∃ child ∈ components, ∃ own, removeActionNode child = .ok own ∧
      left ∈ own := by
  obtain ⟨each, heach, h⟩ := bind_eq_ok.mp h
  obtain rfl := Except.ok.inj h
  obtain ⟨own, hown, hleft⟩ := List.mem_flatten.mp hleft
  obtain ⟨child, hchild, howned⟩ := exists_of_mem_mapM heach hown
  exact ⟨child, hchild, own, howned, hleft⟩

/-- Actions are removed from components when they are from each. -/
theorem exists_removeActionNodes_iff : (∃ lefts, removeActionNodes components = .ok lefts) ↔
    ∀ child ∈ components, ∃ left, removeActionNode child = .ok left := by
  rw [← exists_mapM_iff]
  constructor
  · rintro ⟨lefts, h⟩
    exact (bind_eq_ok.mp h).imp fun _ ↦ And.left
  · rintro ⟨each, h⟩
    exact ⟨each.flatten, bind_eq_ok.mpr ⟨each, h, rfl⟩⟩

/-- What holds of what is left of each component holds of what is left of them. -/
theorem flatMap_of_removeActionNodes {β : Type} {f g : Data → List β}
    (h : removeActionNodes components = .ok lefts)
    (heach : ∀ child ∈ components, ∀ left, removeActionNode child = .ok left →
      left.flatMap f = g child) : lefts.flatMap f = components.flatMap g := by
  obtain ⟨each, hall, rfl⟩ := removeActionNodes_eq_ok.mp h
  clear h
  induction hall with
  | nil => rfl
  | cons hleft _ ih =>
    rw [List.flatten_cons, List.flatMap_append, List.flatMap_cons,
      heach _ List.mem_cons_self _ hleft,
      ih fun other hother ↦ heach other (List.mem_cons_of_mem _ hother)]

/-- Induction over components, as their actions are removed. -/
theorem component_induction {motive : Data → Prop}
    (literal : ∀ component, (∀ entries, component ≠ .object entries) → motive component)
    (button : ∀ entries, kindOf entries = "button" → motive (.object entries))
    (leaf : ∀ entries, kindOf entries ≠ "button" →
      (∀ components, entries.lookup "components" ≠ some (.array components)) →
        motive (.object entries))
    (container : ∀ entries components, kindOf entries ≠ "button" →
      entries.lookup "components" = some (.array components) →
        (∀ child ∈ components, motive child) → motive (.object entries))
    (component : Data) : motive component := by
  induction component using removeActionNode.induct with
  | case1 entries hbutton => exact button entries hbutton
  | case2 entries hbutton components hfield ih =>
    exact container entries components hbutton hfield fun child hchild ↦ ih ⟨child, hchild⟩
  | case3 entries hbutton hnone => exact leaf entries hbutton hnone
  | case4 component hliteral => exact literal component hliteral

/-! ### What is printed -/

/-- Where there is neither a button nor a form nor an empty container, nothing is removed. -/
theorem removeActionNodes_of_kept
    (h : ∀ component ∈ components, removeActionNode component = .ok [component]) :
    removeActionNodes components = .ok components := by
  refine removeActionNodes_eq_ok.mpr ⟨components.map fun component ↦ [component], ?_, ?_⟩
  · exact List.forall₂_map_right_iff.mpr (List.forall₂_same.mpr h)
  · rw [← List.flatMap_def, List.flatMap_singleton']

theorem Printed.removeActionNode_eq (h : Printed component) :
    removeActionNode component = .ok [component] := by
  induction h with
  | literal h hsome => exact (removeActionNode_literal h).mpr ⟨hsome, rfl⟩
  | leaf hbutton hleaf => exact removeActionNode_leaf hbutton hleaf
  | @container entries components hbutton hform hcomponents hsome _ ih =>
    rw [removeActionNode_components hbutton hcomponents, removeActionNodes_of_kept ih]
    change Except.ok (removeNestedActionNodes entries components) = _
    rw [removeNestedActionNodes, if_neg hform, if_neg (by simpa using hsome),
      setEntry_of_lookup hcomponents]

theorem removeActionNodes_eq_self (h : ∀ component ∈ components, Printed component) :
    removeActionNodes components = .ok components :=
  removeActionNodes_of_kept fun component hcomponent ↦ (h component hcomponent).removeActionNode_eq

/-- What is left of a container may be printed, when what is left of its children may be. -/
theorem printed_of_mem_removeNestedActionNodes {children : List Data} {left : Data}
    (hbutton : kindOf entries ≠ "button") (hchildren : ∀ child ∈ children, Printed child)
    (h : left ∈ removeNestedActionNodes entries children) : Printed left := by
  unfold removeNestedActionNodes at h
  split at h
  · exact hchildren left h
  · next hform =>
    split at h
    · exact absurd h List.not_mem_nil
    · next hsome =>
      obtain rfl := List.mem_singleton.mp h
      have hkind {value : Data} : kindOf (setEntry "components" value entries) = kindOf entries :=
        kindOf_setEntry (by decide)
      exact .container (hkind ▸ hbutton) (hkind ▸ hform) lookup_setEntry_self
        (fun hnil ↦ hsome (List.isEmpty_iff.mpr hnil)) hchildren

/-- What is left of a component may be printed. -/
theorem printed_of_mem_removeActionNode (h : removeActionNode component = .ok lefts) {left : Data}
    (hleft : left ∈ lefts) : Printed left := by
  induction component using component_induction generalizing lefts left with
  | literal component hliteral =>
    obtain ⟨hsome, rfl⟩ := (removeActionNode_literal hliteral).mp h
    exact List.mem_singleton.mp hleft ▸ .literal hliteral hsome
  | button entries hbutton =>
    rw [removeActionNode_button hbutton] at h
    obtain rfl := Except.ok.inj h
    exact absurd hleft List.not_mem_nil
  | leaf entries hbutton hleaf =>
    rw [removeActionNode_leaf hbutton hleaf] at h
    obtain rfl := Except.ok.inj h
    exact List.mem_singleton.mp hleft ▸ .leaf hbutton hleaf
  | container entries components hbutton hfield ih =>
    rw [removeActionNode_components hbutton hfield] at h
    obtain ⟨children, hchildren, rfl⟩ := map_eq_ok.mp h
    refine printed_of_mem_removeNestedActionNodes hbutton (fun child hchild ↦ ?_) hleft
    obtain ⟨parent, hparent, own, hown, hchild⟩ := exists_of_mem_removeActionNodes hchildren hchild
    exact ih parent hparent hown hchild

theorem printed_removeActionNodes (h : removeActionNodes components = .ok lefts) :
    ∀ left ∈ lefts, Printed left := fun _ hleft ↦
  let ⟨_, _, _, hown, hleft⟩ := exists_of_mem_removeActionNodes h hleft
  printed_of_mem_removeActionNode hown hleft

/-! ### What is left -/

theorem without_setEntry {key : String} {value : Data} :
    without key (setEntry key value entries) = without key entries := by
  induction entries with
  | nil => simp [setEntry, without]
  | cons entry entries ih =>
    unfold setEntry
    split
    · next hfirst => simp [without, eq_of_beq hfirst]
    · next hfirst =>
      have hne : entry.1 ≠ key := fun h ↦ hfirst (beq_iff_eq.mpr h)
      rw [without, List.filter_cons_of_pos (by simpa using hne)]
      rw [without, List.filter_cons_of_pos (by simpa using hne)]
      exact congrArg _ ih

/-- What is left of the children stands in their container, if it is no form. -/
theorem outlineOf_removeNestedActionNodes {children : List Data}
    (hbutton : kindOf entries ≠ "button") :
    (removeNestedActionNodes entries children).flatMap (outlineOf above) = children.flatMap
      (outlineOf (if kindOf entries = "form" then above
        else above ++ [without "components" entries])) := by
  unfold removeNestedActionNodes
  split
  · rfl
  · next hform =>
    have hkind {value : Data} : kindOf (setEntry "components" value entries) = kindOf entries :=
      kindOf_setEntry (by decide)
    split
    · next hnil => rw [List.isEmpty_iff.mp hnil, List.flatMap_nil, List.flatMap_nil]
    · rw [List.flatMap_singleton, outlineOf_components (hkind ▸ hbutton) lookup_setEntry_self,
        if_neg (hkind ▸ hform), without_setEntry]

/-- What is left stands where it stood. -/
theorem outlineOf_removeActionNode (h : removeActionNode component = .ok lefts) :
    lefts.flatMap (outlineOf above) = outlineOf above component := by
  induction component using component_induction generalizing lefts above with
  | literal component hliteral =>
    obtain ⟨-, rfl⟩ := (removeActionNode_literal hliteral).mp h
    rw [List.flatMap_singleton]
  | button entries hbutton =>
    rw [removeActionNode_button hbutton] at h
    obtain rfl := Except.ok.inj h
    rw [outlineOf, if_pos hbutton]
    rfl
  | leaf entries hbutton hleaf =>
    rw [removeActionNode_leaf hbutton hleaf] at h
    obtain rfl := Except.ok.inj h
    rw [List.flatMap_singleton]
  | container entries components hbutton hfield ih =>
    rw [removeActionNode_components hbutton hfield] at h
    obtain ⟨children, hchildren, rfl⟩ := map_eq_ok.mp h
    rw [outlineOf_removeNestedActionNodes hbutton, outlineOf_components hbutton hfield]
    exact flatMap_of_removeActionNodes hchildren fun child hchild _ hown ↦ ih child hchild hown

theorem outline_removeActionNodes (h : removeActionNodes components = .ok lefts) :
    outline lefts = outline components :=
  flatMap_of_removeActionNodes h fun _ _ _ ↦ outlineOf_removeActionNode

/-- Actions are removed unless one of what would be left is nothing. -/
theorem exists_removeActionNode_iff : (∃ lefts, removeActionNode component = .ok lefts) ↔
    ∀ left ∈ outlineOf above component, isNothing left.2 = false := by
  induction component using component_induction generalizing above with
  | literal component hliteral =>
    rw [outlineOf_literal hliteral, List.forall_mem_singleton]
    exact ⟨fun ⟨_, h⟩ ↦ ((removeActionNode_literal hliteral).mp h).1,
      fun h ↦ ⟨_, (removeActionNode_literal hliteral).mpr ⟨h, rfl⟩⟩⟩
  | button entries hbutton =>
    rw [outlineOf, if_pos hbutton]
    exact iff_of_true ⟨_, removeActionNode_button hbutton⟩ fun _ h ↦ absurd h List.not_mem_nil
  | leaf entries hbutton hleaf =>
    have hself : outlineOf above (.object entries) = [(above, .object entries)] := by
      rw [outlineOf, if_neg hbutton]
      split
      · next components hfield => exact absurd hfield (hleaf components)
      · rfl
    rw [hself, List.forall_mem_singleton]
    exact iff_of_true ⟨_, removeActionNode_leaf hbutton hleaf⟩ rfl
  | container entries components hbutton hfield ih =>
    have hnested : (∃ lefts, removeActionNode (.object entries) = .ok lefts) ↔
        ∃ children, removeActionNodes components = .ok children := by
      rw [removeActionNode_components hbutton hfield]
      exact ⟨fun ⟨_, h⟩ ↦ (map_eq_ok.mp h).imp fun _ ↦ And.left,
        fun ⟨children, h⟩ ↦ ⟨_, map_eq_ok.mpr ⟨children, h, rfl⟩⟩⟩
    rw [hnested, exists_removeActionNodes_iff, outlineOf_components hbutton hfield,
      List.forall_mem_flatMap]
    exact forall₂_congr fun child hchild ↦ ih child hchild

end

/-! ### Page models -/

/-- A page model, as it is printed. -/
def printedModel (model : PageModel) : Except Failure PageModel := do
  return { model with components := ← removeActionNodes model.components }

section
variable {o : Outside} {depth : ℕ} {d : PageLifecycle PageDefinition} {templates outputs : Data}
  {agreement : PageAgreement} {page : String} {model printed : PageModel}

/-- Without sections there are none to bind. -/
theorem sections_eq_nil {c : ActionContext} {components : List Data} {bound : PageTree}
    (h : resolvePageActions c ⟨components, []⟩ = .ok bound) : bound.sections = [] := by
  obtain ⟨_, -, h⟩ := bind_eq_ok.mp h
  obtain ⟨_, hsections, h⟩ := bind_eq_ok.mp h
  obtain rfl := Except.ok.inj h
  exact (Except.ok.inj hsections).symm

theorem tryPageModel_print {definition : PageDefinition} :
    (tryPageModel o depth d templates agreement definition outputs ⟨page, false, true⟩).result =
      (tryPageModel o depth d templates agreement definition outputs
        ⟨page, false, false⟩).result >>= printedModel := by
  unfold tryPageModel
  dsimp only
  simp only [Logged.result_bind, bind_assoc]
  refine bind_congr_ok fun ⟨components, sections, metadata⟩ hresolved ↦ ?_
  have hsections := (Logged.both_eq_ok.mp (Logged.both_eq_ok.mp hresolved).2).1
  obtain rfl := Except.ok.inj hsections
  refine bind_congr_ok fun ⟨components', sections'⟩ hbound ↦ ?_
  obtain rfl := sections_eq_nil hbound
  change (removePageActionNodes ⟨components', []⟩ >>= _) = printedModel _
  rw [removePageActionNodes, printedModel, bind_assoc]
  rfl

theorem buildPageModel_print : (buildPageModel o depth d templates agreement outputs
      ⟨page, false, true⟩).result = (do
    let model ← (buildPageModel o depth d templates agreement outputs ⟨page, false, false⟩).result
    (printedModel model).mapError (pageFailure page agreement.agreementNumber)) := by
  unfold buildPageModel
  dsimp only
  split
  · rfl
  · exact (congrArg _ tryPageModel_print).trans mapError_bind

theorem printedModel_eq_ok : printedModel model = .ok printed ↔
    removeActionNodes model.components = .ok printed.components ∧
      printed = { model with components := printed.components } := by
  rw [printedModel, bind_eq_ok]
  constructor
  · rintro ⟨components, h, hprinted⟩
    obtain rfl := Except.ok.inj hprinted
    exact ⟨h, rfl⟩
  · rintro ⟨h, hprinted⟩
    exact ⟨printed.components, h, congrArg Except.ok hprinted.symm⟩

/-- The page that is printed is the page that is shown, without what acts: neither a button nor a
form that holds components nor an empty container is left, and all the rest is, in the same order
and in the same containers. It is printed just when all the rest is something; where a container
holds nothing, null or undefined, printing throws. -/
theorem buildAgreementPageModel_print (outputs : Except Failure Data) :
    (buildAgreementPageModel o depth d templates outputs agreement page "print").result = (do
        let model ←
          (buildAgreementPageModel o depth d templates outputs agreement page "view").result
        (printedModel model).mapError (pageFailure page agreement.agreementNumber)) ∧
      ∀ model : PageModel,
        ((∃ printed, printedModel model = .ok printed) ↔
          ∀ left ∈ outline model.components, isNothing left.2 = false) ∧
        ∀ printed, printedModel model = .ok printed →
          (∀ component ∈ printed.components, Printed component) ∧
            outline printed.components = outline model.components ∧
              printedModel printed = .ok printed := by
  refine ⟨?_, fun model ↦ ⟨?_, fun printed hprinted ↦ ?_⟩⟩
  · unfold buildAgreementPageModel
    simp only [Logged.result_bind, bind_assoc]
    refine bind_congr fun _ ↦ bind_congr fun _ ↦ bind_congr fun outputs ↦ ?_
    exact buildPageModel_print
  · rw [outline, List.forall_mem_flatMap]
    refine Iff.trans ?_ (exists_removeActionNodes_iff.trans
      (forall₂_congr fun _ _ ↦ exists_removeActionNode_iff))
    exact ⟨fun ⟨printed, h⟩ ↦ ⟨_, (printedModel_eq_ok.mp h).1⟩,
      fun ⟨components, h⟩ ↦ ⟨{ model with components }, printedModel_eq_ok.mpr ⟨h, rfl⟩⟩⟩
  · obtain ⟨hcomponents, -⟩ := printedModel_eq_ok.mp hprinted
    have hall := printed_removeActionNodes hcomponents
    exact ⟨hall, outline_removeActionNodes hcomponents,
      printedModel_eq_ok.mpr ⟨removeActionNodes_eq_self hall, rfl⟩⟩

end

end FgGas.Pages
