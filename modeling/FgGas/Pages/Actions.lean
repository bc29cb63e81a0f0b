import FgGas.Agreements.Validate
import FgGas.Machine.Trim
import FgGas.Pages.Components

/-!
# Actions on pages

The forms and buttons of a resolved page are bound to the actions of the agreement's state
(`src/agreements/services/resolve-page-actions.js`). What is submitted to an action is checked
against its requirements (`src/agreements/models/agreement-action.js`), and a page that is printed
has no actions (`src/agreements/services/build-agreement-page-model.js`).
-/

namespace FgGas.Pages

open Machine Processes Agreements

/-! ### What an action requires -/

/-- A field that an action requires, and the value it is to have. -/
structure RequiredField where
  name : String
  value : String
  href : String
  message : String
  deriving DecidableEq, Repr

/-- A definition as pages see it: what an action requires, and the content of pages. -/
abbrev PageLifecycle (P : Type) := LifecycleDefinition P (List RequiredField)

/-- `a === b`, of values that are not the same object. -/
def strictEquals : Data → Data → Bool
  | .undefined, .undefined => true
  | .null, .null => true
  | .boolean a, .boolean b => a = b
  | .number a, .number b => a = b
  | .string a, .string b => a = b
  | _, _ => false

/-- `matchesConfiguredValue`. -/
def matchesConfiguredValue (actual expected : Data) : Bool :=
  match actual with
  | .array items => items.any (strictEquals · expected)
  | actual => strictEquals actual expected

/-- `submissionRequirements`. -/
def submissionRequirements (action : AgreementAction (List RequiredField)) :
    List (String × String) :=
  (action.validation.getD []).map fun requirement ↦ (requirement.name, requirement.value)

/-- `collectValidationErrors`. -/
def collectValidationErrors (requirements : List RequiredField) (values : List (String × Data)) :
    List RequiredField :=
  requirements.filter fun requirement ↦
    !matchesConfiguredValue (field values requirement.name) (.string requirement.value)

/-- The errors of `validate`: none when the values are valid. -/
def validationErrors (action : AgreementAction (List RequiredField))
    (values : List (String × Data)) : List RequiredField :=
  collectValidationErrors (action.validation.getD []) values

/-! ### Binding forms and buttons -/

/-- What forms and buttons are bound to. -/
structure ActionContext where
  agreementNumber : String
  resolveAction : String → Except Refusal (AgreementAction (List RequiredField))

/-- `actionHref`. -/
def actionHref (agreementNumber action : String) : String :=
  "/agreements/" ++ agreementNumber ++ "/actions/" ++ action

/-- `requireAction`. -/
def requireAction (action : Data) (component : String) : Except Failure String :=
  let failure : Failure := .error (component ++ " must configure an action")
  match action with
  | .string action => do
    require (trimText action ≠ "") failure
    return trimText action
  | _ => .error failure

/-- The message of a refusal. -/
def refusalMessage : Refusal → String
  | .invalidTransition text => text
  | .other text => text

/-- The requirements, as they are listed in a form. -/
def requirementsData (requirements : List (String × String)) : Data :=
  .array <| requirements.map fun (name, value) ↦
    .object [("name", .string name), ("value", .string value)]

/-- The form that `resolveForm` makes, once its action and its components are resolved. -/
def boundForm (agreementNumber : String) (action : String)
    (resolved : AgreementAction (List RequiredField)) (components : Data)
    (entries : List (String × Data)) : List (String × Data) :=
  assign (without "action" entries) [("components", components), ("method", .string "POST"),
    ("formAction", .string (actionHref agreementNumber action)),
    ("hiddenFields", orElse (field entries "hiddenFields") (.array [])),
    ("submissionRequirements", requirementsData (submissionRequirements resolved))]

/-- `resolveButton`. -/
def resolveButton (c : ActionContext) (withinForm : Bool) (entries : List (String × Data)) :
    Except Failure (List (String × Data)) :=
  if withinForm then return setEntry "submit" (.boolean true) (without "action" entries)
  else do
    let action ← requireAction (field entries "action") "A standalone \"button\" component"
    return setEntry "href" (.string (actionHref c.agreementNumber action))
      (without "action" entries)

/-- `resolveComponentActions`. -/
def resolveComponentActions (c : ActionContext) (withinForm : Bool) (value : Data) :
    Except Failure Data :=
  match value with
  | .array items => do
    return .array (← items.attach.mapM fun item ↦ resolveComponentActions c withinForm item.1)
  | .object entries =>
    if kindOf entries = "form" then do
      let action ← requireAction (field entries "action") "A \"form\" component"
      let resolved ← (c.resolveAction action).mapError fun refusal ↦ .error (refusalMessage refusal)
      let components ← match _hfield : entries.lookup "components" with
        | some components => resolveComponentActions c true components
        | none => pure .undefined
      return .object (boundForm c.agreementNumber action resolved components entries)
    else if kindOf entries = "button" then do
      return .object (← resolveButton c withinForm entries)
    else do
      return .object <| ← entries.attach.mapM fun entry ↦ do
        return (entry.1.1, ← resolveComponentActions c withinForm entry.1.2)
  | literal => return literal
termination_by sizeOf value
decreasing_by
  · have := List.sizeOf_lt_of_mem item.2
    simp only [Data.array.sizeOf_spec]
    omega
  · exact sizeOf_lt_of_mem (mem_of_lookup _hfield)
  · exact sizeOf_lt_of_mem entry.2

section
variable {c : ActionContext} {withinForm : Bool} {entries : List (String × Data)}

/-- A form is bound to its action, and its components are resolved within it. -/
theorem resolveComponentActions_form (h : kindOf entries = "form") :
    resolveComponentActions c withinForm (.object entries) = do
      let action ← requireAction (field entries "action") "A \"form\" component"
      let resolved ← (c.resolveAction action).mapError fun refusal ↦ .error (refusalMessage refusal)
      let components ← resolveComponentActions c true (field entries "components")
      return .object (boundForm c.agreementNumber action resolved components entries) := by
  rw [resolveComponentActions, if_pos h]
  refine bind_congr fun action ↦ bind_congr fun resolved ↦ ?_
  split
  · next components hfield => rw [field, hfield, Option.getD_some]
  · next hfield =>
    rw [field, hfield, Option.getD_none, resolveComponentActions]
    · exact fun _ h ↦ by cases h
    · exact fun _ h ↦ by cases h

theorem resolveComponentActions_button (h : kindOf entries = "button") :
    resolveComponentActions c withinForm (.object entries) = do
      return .object (← resolveButton c withinForm entries) := by
  rw [resolveComponentActions, if_neg (by rw [h]; decide), if_pos h]

/-- An entry of an object that is no form and no button. -/
def resolveEntryActions (c : ActionContext) (withinForm : Bool) (entry : String × Data) :
    Except Failure (String × Data) := do
  return (entry.1, ← resolveComponentActions c withinForm entry.2)

theorem resolveComponentActions_other (hform : kindOf entries ≠ "form")
    (hbutton : kindOf entries ≠ "button") :
    resolveComponentActions c withinForm (.object entries) =
      (entries.mapM (resolveEntryActions c withinForm)).map .object := by
  rw [resolveComponentActions, if_neg hform, if_neg hbutton,
    List.mapM_subtype (g := resolveEntryActions c withinForm) (fun _ _ ↦ rfl), List.unattach_attach]
  rfl

theorem resolveComponentActions_array {items : List Data} :
    resolveComponentActions c withinForm (.array items) =
      (items.mapM (resolveComponentActions c withinForm)).map .array := by
  rw [resolveComponentActions,
    List.mapM_subtype (g := resolveComponentActions c withinForm) (fun _ _ ↦ rfl),
    List.unattach_attach]
  rfl

end

/-! ### Printing -/

/-- What has no properties: reading one throws. -/
def isNothing : Data → Bool
  | .undefined => true
  | .null => true
  | _ => false

/-- `removeNestedActionNodes`, of what is left of the children. -/
def removeNestedActionNodes (entries : List (String × Data)) (children : List Data) : List Data :=
  if kindOf entries = "form" then children
  else if children.isEmpty then []
  else [.object (setEntry "components" (.array children) entries)]

/-- `removeActionNode`. -/
def removeActionNode (component : Data) : Except Failure (List Data) :=
  match component with
  | .object entries =>
    if kindOf entries = "button" then return []
    else match _hfield : entries.lookup "components" with
      | some (.array components) => do
        let children ← components.attach.mapM fun child ↦ removeActionNode child.1
        return removeNestedActionNodes entries children.flatten
      | _ => return [.object entries]
  | component => do
    require (!isNothing component) .typeError
    return [component]
termination_by sizeOf component
decreasing_by
  have hmem := List.sizeOf_lt_of_mem child.2
  have hlt := sizeOf_lt_of_mem (mem_of_lookup _hfield)
  simp only [Data.array.sizeOf_spec] at hlt
  omega

/-- `removeActionNodes`. -/
def removeActionNodes (components : List Data) : Except Failure (List Data) := do
  return (← components.mapM removeActionNode).flatten

end FgGas.Pages
