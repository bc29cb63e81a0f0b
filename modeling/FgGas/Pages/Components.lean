import FgGas.Pages.References

/-!
# Components of pages

The content of a page is a list of components
(`src/agreements/services/resolve-components.js`). Some stand for other components: one of two
branches, content repeated for each item of an array, the content of a template, a container. The
others are drawn, once what they refer to is resolved, and those of a tree hold components again.

The content of a template is looked up in what a reference resolves to, so nothing in the code
bounds how deep templates are nested; the number of levels looked at is a parameter, and beyond it
a page is unfinished.

Components are objects here: a text, a number or an array among them, which the code spreads into
an object, throws. A kind is one of the code's own, not a name that every object inherits, and
templates are looked up in objects, not in arrays.
-/

namespace FgGas.Pages

open Machine Processes

/-- The fields of an object but one. -/
def without (key : String) (entries : List (String × Data)) : List (String × Data) :=
  entries.filter fun entry ↦ entry.1 ≠ key

/-- The `component` of an object, empty where that is no string. -/
def kindOf (entries : List (String × Data)) : String :=
  match entries.lookup "component" with
  | some (.string kind) => kind
  | _ => ""

/-- `value[key]`. -/
def field (entries : List (String × Data)) (key : String) : Data :=
  (entries.lookup key).getD .undefined

/-- `value ?? {}` or `value ?? []`. -/
def orElse (value fallback : Data) : Data :=
  match value with
  | .undefined => fallback
  | .null => fallback
  | value => value

section
variable {key other : String} {entries entries' : List (String × Data)}

theorem lookup_without (h : other ≠ key) :
    (without key entries).lookup other = entries.lookup other := by
  induction entries with
  | nil => rfl
  | cons entry entries ih =>
    obtain ⟨name, value⟩ := entry
    by_cases hname : name = key
    · subst hname
      rw [without, List.filter_cons_of_neg (by simp), lookup_cons_eq,
        if_neg (fun h' ↦ h (eq_of_beq h'))]
      exact ih
    · rw [without, List.filter_cons_of_pos (by simpa using hname), lookup_cons_eq, lookup_cons_eq]
      split
      · rfl
      · exact ih

theorem field_without (h : other ≠ key) :
    field (without key entries) other = field entries other := by
  rw [field, field, lookup_without h]

theorem kindOf_without (h : "component" ≠ key) : kindOf (without key entries) = kindOf entries := by
  rw [kindOf, lookup_without h, kindOf]

theorem lookup_without_self : (without key entries).lookup key = none := by
  refine List.lookup_eq_none_iff.mpr fun entry hentry ↦ ?_
  have hne : entry.1 ≠ key := by simpa using (List.mem_filter.mp hentry).2
  exact bne_iff_ne.mpr hne.symm

/-- The kind of an object is one text in it. -/
theorem kindOf_congr (h : ∀ text, entries'.lookup "component" = some (.string text) ↔
    entries.lookup "component" = some (.string text)) : kindOf entries' = kindOf entries := by
  unfold kindOf
  split
  · next kind hkind => rw [(h kind).mp hkind]
  · next hnone =>
    split
    · next kind hkind => exact absurd ((h kind).mpr hkind) (hnone kind)
    · rfl

theorem kindOf_setEntry {value : Data} (h : "component" ≠ key) :
    kindOf (setEntry key value entries) = kindOf entries := by
  refine kindOf_congr fun text ↦ ?_
  rw [lookup_setEntry, if_neg (fun h' ↦ h (eq_of_beq h'))]

theorem lookup_setEntry_self {value : Data} :
    (setEntry key value entries).lookup key = some value := by
  rw [lookup_setEntry, if_pos (beq_self_eq_true key)]

end

/-- The items of what is to be mapped over. -/
def itemsOf : Data → Except Failure (List Data)
  | .array items => .ok items
  | _ => .error .typeError

section
variable (o : Outside)

/-- `String(value)`. -/
def stringOf (value : Data) : String :=
  match value with
  | .undefined => "undefined"
  | .null => "null"
  | .boolean value => if value then "true" else "false"
  | .number value => String.ofList (numberText o.digits value)
  | .string value => value
  | .array items => ",".intercalate <| items.attach.map fun item ↦
    match item.1 with
    | .undefined => ""
    | .null => ""
    | _ => stringOf item.1
  | .object _ => "[object Object]"
termination_by sizeOf value
decreasing_by
  have := List.sizeOf_lt_of_mem item.2
  simp only [Data.array.sizeOf_spec]
  omega

/-! ### Formats -/

/-- `applyFormats`. -/
def applyFormats (value : Data) : Except Failure Data :=
  match value with
  | .array items => do
    return .array (← items.attach.mapM fun item ↦ applyFormats item.1)
  | .object entries => do
    let resolved ← (entries.attach.filter fun entry ↦ entry.1.1 ≠ "format").mapM fun entry ↦ do
      return (entry.1.1, ← applyFormats entry.1.2)
    match field entries "format" with
    | .undefined => return .object resolved
    | format =>
      let text ← (o.applyFormat (field resolved "text") format).mapError .error
      return .object (setEntry "text" text resolved)
  | literal => return literal
termination_by sizeOf value
decreasing_by
  · have := List.sizeOf_lt_of_mem item.2
    simp only [Data.array.sizeOf_spec]
    omega
  · exact sizeOf_lt_of_mem entry.2

/-! ### Links -/

/-- Where in `/{(\w+)}/` a parameter stands. -/
inductive ParamPosition
  | start
  | opened
  | name
  | closed
  deriving DecidableEq, Repr

/-- The position after one more character. -/
def ParamPosition.next (position : ParamPosition) (c : Char) : Option ParamPosition :=
  let letter := c.isAlphanum || c = '_'
  match position with
  | start => if c = '{' then some opened else none
  | opened => if letter then some name else none
  | name => if letter then some name else if c = '}' then some closed else none
  | closed => none

/-- The parameters of an address. -/
def paramPattern : Automaton ParamPosition Char where
  next := ParamPosition.next
  accepts position := position = .closed

/-- `applyTemplate`. -/
def applyTemplate (urlTemplate : String) (params : List (String × Data)) :
    Except Failure String := do
  let parts ← (paramPattern.cut .start urlTemplate.toList).mapM fun
    | .symbol c => pure [c]
    | .word symbols =>
      let key := String.ofList (symbols.drop 1).dropLast
      match field params key with
      | .undefined => .error <| .error <|
        "Unresolved param \"" ++ key ++ "\" in href template \"" ++ urlTemplate ++ "\""
      | value => pure (stringOf o value).toList
  return String.ofList parts.flatten

/-- `resolveEffectParams`. -/
def resolveEffectParams (value context : Data) : Rendered Data :=
  match value with
  | .string ref =>
    if "$.".toList.isPrefixOf ref.toList then do
      let resolved ← handOver o ⟨ref, context, .undefined⟩
      Logged.lift <| require (!resolved.isUndefined) <| .error <|
        "Unresolved reference \"" ++ ref ++ "\" in effect params"
      return resolved
    else return .string ref
  | .array items => do
    return .array (← Logged.all <| items.attach.map fun item ↦ resolveEffectParams item.1 context)
  | .object entries => do
    return .object <| ← Logged.all <| entries.attach.map fun entry ↦ do
      return (entry.1.1, ← resolveEffectParams entry.1.2 context)
  | literal => return literal
termination_by sizeOf value
decreasing_by
  · have := List.sizeOf_lt_of_mem item.2
    simp only [Data.array.sizeOf_spec]
    omega
  · exact sizeOf_lt_of_mem entry.2

/-- `resolvePageHref`. -/
def resolvePageHref (href context : Data) : Rendered Data :=
  match href with
  | .string href => return .string href
  | .object entries => do
    match ← resolveEffectParams o (orElse (field entries "params") (.object [])) context with
    | .object params =>
      match field entries "urlTemplate" with
      | .string urlTemplate => return .string (← Logged.lift (applyTemplate o urlTemplate params))
      | _ => Logged.lift (.error .typeError)
    | _ => Logged.lift (.error .typeError)
  | _ => Logged.lift (.error .typeError)

/-- `resolveUrl`, the one component it resolves to. -/
def resolveUrl (entries : List (String × Data)) (scope : Scope) : Rendered Data := do
  let href := field entries "href"
  let (component, href) ← Logged.both (resolveRefs o (.object (without "href" entries)) scope) <|
    match href with
    | .string _ => resolveRefs o href scope
    | _ => resolvePageHref o href scope.context
  match component with
  | .object resolved => Logged.lift (applyFormats o (.object (setEntry "href" href resolved)))
  | _ => Logged.lift (.error .typeError)

/-! ### What is drawn -/

/-- `resolveDisplayValue`. -/
def resolveDisplayValue (value : Data) (scope : Scope) : Rendered Data :=
  match value with
  | .array items => do
    return .array (← Logged.all <| items.attach.map fun item ↦ resolveDisplayValue item.1 scope)
  | .object entries =>
    if kindOf entries = "url" then resolveUrl o entries scope
    else do
      return .object <| ← Logged.all <| entries.attach.map fun entry ↦ do
        return (entry.1.1, ← resolveDisplayValue entry.1.2 scope)
  | literal => resolveRefs o literal scope
termination_by sizeOf value
decreasing_by
  · have := List.sizeOf_lt_of_mem item.2
    simp only [Data.array.sizeOf_spec]
    omega
  · exact sizeOf_lt_of_mem entry.2

/-- `resolveDisplayComponent`. -/
def resolveDisplayComponent (entries : List (String × Data)) (scope : Scope) :
    Rendered (List Data) := do
  let resolved ← resolveDisplayValue o (.object entries) scope
  return [← Logged.lift (applyFormats o resolved)]

/-- `requireArray`. -/
def requireArray (value : Data) (component key : String) (ref : Data) :
    Except Failure (List Data) :=
  match value with
  | .array items => .ok items
  | _ => .error <| .error <| "A \"" ++ component ++ "\" component's \"" ++ key ++ "\" (\"" ++
    stringOf o ref ++ "\") must resolve to an array"

/-- `resolveCell`, against a row. -/
def resolveCell (cellTemplate rowItem : Data) : Rendered Data := do
  Logged.lift (applyFormats o (← resolveRefs o cellTemplate ⟨rowItem, rowItem⟩))

/-- `resolveRow`. -/
def resolveRow (rowTemplate rowItem : Data) : Rendered Data := do
  let cells ← Logged.lift (itemsOf rowTemplate)
  return .array (← Logged.all (cells.map fun cell ↦ resolveCell o cell rowItem))

/-- `resolveTable`. -/
def resolveTable (entries : List (String × Data)) (scope : Scope) : Rendered (List Data) := do
  let rowsRef := field entries "rowsRef"
  let rowTemplate := field entries "rows"
  Logged.lift <| require (isTruthyValue rowsRef && isTruthyValue rowTemplate) <| .error
    "A \"table\" component must configure both \"rowsRef\" and \"rows\""
  let (rest, rowItems) ← Logged.both
    (resolveRefs o (.object (without "rows" (without "rowsRef" entries))) scope)
    (resolveRefs o rowsRef scope)
  let rowItems ← Logged.lift (requireArray o rowItems "table" "rowsRef" rowsRef)
  let rows ← Logged.all (rowItems.map (resolveRow o rowTemplate))
  match ← Logged.lift (applyFormats o rest) with
  | .object drawn => return [.object (setEntry "rows" (.array rows) drawn)]
  | _ => Logged.lift (.error .typeError)

end

/-! ### Components that stand for others -/

/-- How the components of a list under a name are resolved. -/
abbrev Content := String → Scope → Rendered (List Data)

section
variable (o : Outside) (content : Content) (entries : List (String × Data)) (scope : Scope)

/-- The components of a list, which `components.map` goes through. -/
def requireComponents (key : String) : Rendered (List Data) := do
  discard (Logged.lift (itemsOf (field entries key)))
  content key scope

/-- `components ?? []`. -/
def optionalComponents (key : String) : Rendered (List Data) :=
  match field entries key with
  | .undefined => return []
  | .null => return []
  | _ => requireComponents content entries scope key

/-- `resolveConditional`. A branch may be one component. -/
def resolveConditional : Rendered (List Data) := do
  let branch := if ← resolveCondition o (field entries "condition") scope then "whenTrue"
    else "whenFalse"
  match field entries branch with
  | .undefined => return []
  | _ => content branch scope

/-- `resolveRepeat`. -/
def resolveRepeat : Rendered (List Data) := do
  let itemsRef := field entries "itemsRef"
  let resolvedItems ← resolveRefs o itemsRef scope
  let resolvedItems ← Logged.lift (requireArray o resolvedItems "repeat" "itemsRef" itemsRef)
  if resolvedItems.isEmpty then optionalComponents content entries scope "emptyContent"
  else do
    let before ← optionalComponents content entries scope "beforeContent"
    let repeated ← Logged.all <| resolvedItems.map fun item ↦
      requireComponents content entries { scope with row := item } "items"
    return before ++ repeated.flatten

/-- `templates[key]`, where it is own and not falsy. -/
def findTemplate (templates key : Data) : Option Data :=
  match templates with
  | .object groups => (groups.lookup (stringOf o key)).filter isTruthyValue
  | _ => none

/-- The template that a component names. -/
def requireTemplate : Rendered Data := do
  let templateRef := field entries "templateRef"
  let (templates, key) ← Logged.both (resolveRefs o templateRef scope)
    (resolveRefs o (field entries "templateKey") scope)
  match findTemplate o templates key with
  | some template => return template
  | none => Logged.lift <| .error <| .error <| "A \"template\" component references \"" ++
    stringOf o templateRef ++ "\" which has no template \"" ++ stringOf o key ++ "\""

/-- The row that a template's content is resolved with. -/
def resolveDataRef : Rendered Data :=
  match field entries "dataRef" with
  | .undefined => return scope.row
  | dataRef => resolveRefs o dataRef scope

/-- `template.content`. -/
def contentOf (template : Data) : Except Failure (List Data) :=
  match template with
  | .object entries => itemsOf (field entries "content")
  | _ => .error .typeError

/-- `resolveTemplate`. -/
def resolveTemplate (instantiate : List Data → Scope → Rendered (List Data)) :
    Rendered (List Data) := do
  let template ← requireTemplate o entries scope
  let row ← resolveDataRef o entries scope
  let components ← Logged.lift (contentOf template)
  instantiate components { scope with row := row }

/-- `resolveComponentTreeNode`. -/
def resolveComponentTreeNode : Rendered (List Data) :=
  match field entries "components" with
  | .array _ => do
    let (resolved, components) ← Logged.both
      (resolveDisplayValue o (.object (without "components" entries)) scope)
      (content "components" scope)
    match ← Logged.lift (applyFormats o resolved) with
    | .object drawn => return [.object (setEntry "components" (.array components) drawn)]
    | _ => Logged.lift (.error .typeError)
  | _ => Logged.lift <| .error <| .error <|
    "A \"" ++ kindOf entries ++ "\" component must configure \"components\""

/-- `isHidden`. -/
def isHidden : Rendered Bool :=
  match field entries "condition" with
  | .undefined => return false
  | condition => do return !(← resolveCondition o condition scope)

/-- The resolver of a kind of component. -/
def resolveKind (instantiate : List Data → Scope → Rendered (List Data)) :
    Rendered (List Data) :=
  match kindOf entries with
  | "conditional" => resolveConditional o content entries scope
  | "repeat" => resolveRepeat o content entries scope
  | "table" => resolveTable o entries scope
  | "template" => resolveTemplate o entries scope instantiate
  | "url" => do return [← resolveUrl o entries scope]
  | "component-container" => requireComponents content entries scope "content"
  | "grid-row" => resolveComponentTreeNode o content entries scope
  | "grid-column" => resolveComponentTreeNode o content entries scope
  | "form" => resolveComponentTreeNode o content entries scope
  | _ => resolveDisplayComponent o entries scope

end

/-- The components under a name: those of an array, or one. -/
def componentsAt (entries : List (String × Data)) (key : String) : List Data :=
  match field entries key with
  | .array components => components
  | component => [component]

theorem sizeOf_lt_of_mem_componentsAt {entries : List (String × Data)} {key : String}
    {component : Data} (h : component ∈ componentsAt entries key)
    (hfield : (entries.lookup key).isSome) : sizeOf component < sizeOf (Data.object entries) := by
  obtain ⟨value, hvalue⟩ := Option.isSome_iff_exists.mp hfield
  have hlt := sizeOf_lt_of_mem (mem_of_lookup hvalue)
  rw [componentsAt, field, hvalue, Option.getD_some] at h
  split at h
  · have := List.sizeOf_lt_of_mem h
    simp only [Data.array.sizeOf_spec] at hlt
    omega
  · rw [List.mem_singleton.mp h]
    exact hlt

/-- `resolveComponent`, with templates nested at most so deep. -/
def resolveComponent (o : Outside) (depth : ℕ) (component : Data) (scope : Scope) :
    Rendered (List Data) :=
  match component with
  | .object entries =>
    let content (key : String) (scope : Scope) : Rendered (List Data) :=
      if _hfield : (entries.lookup key).isSome then do
        return (← Logged.all <| (componentsAt entries key).attach.map fun component ↦
          resolveComponent o depth component.1 scope).flatten
      else return []
    let instantiate (components : List Data) (scope : Scope) : Rendered (List Data) :=
      match _hdepth : depth with
      | 0 => Logged.lift (.error .unfinished)
      | depth + 1 => do
        return (← Logged.all <| components.map fun component ↦
          resolveComponent o depth component scope).flatten
    if kindOf entries = "conditional" then resolveConditional o content entries scope
    else do
      if ← isHidden o entries scope then return []
      resolveKind o content (without "condition" entries) scope instantiate
  | _ => Logged.lift (.error .typeError)
termination_by (depth, sizeOf component)
decreasing_by
  · exact Prod.Lex.right _ (sizeOf_lt_of_mem_componentsAt component.2 _hfield)
  · exact Prod.Lex.left _ _ (by omega)

/-- `resolveComponentList`. -/
def resolveComponentList (o : Outside) (depth : ℕ) (components : List Data) (scope : Scope) :
    Rendered (List Data) := do
  return (← Logged.all <| components.map fun component ↦
    resolveComponent o depth component scope).flatten

/-- `resolveComponents`. -/
def resolveComponents (o : Outside) (depth : ℕ) (components : List Data) (context : Data) :
    Rendered (List Data) :=
  resolveComponentList o depth components ⟨context, .undefined⟩

end FgGas.Pages
