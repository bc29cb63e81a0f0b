import Mathlib.Data.Rat.Defs
import FgGas.Machine.Assign
import FgGas.Machine.Logged

/-!
# Mappings of processes

A mapping is data whose strings may be references or expressions
(`src/common/mapping/resolve-process-mapping.js`). Both are handed to jsonata, which parses and
evaluates them against a context; what jsonata does with a text is a parameter.
-/

namespace FgGas.Processes

open Machine

/-- A JavaScript value: one of JSON, or `undefined`. -/
inductive Data
  | undefined
  | null
  | boolean (value : Bool)
  | number (value : ℚ)
  | string (value : String)
  | array (items : List Data)
  | object (entries : List (String × Data))

/-- An object or an array. -/
def isObject : Data → Bool
  | .array _ => true
  | .object _ => true
  | _ => false

/-- `value ?? fallback` of a value that is not null. -/
def Data.isUndefined : Data → Bool
  | .undefined => true
  | _ => false

/-- What jsonata does with an expression: the syntax tree, and what it evaluates to in a context
with a row assigned unless it is undefined. -/
structure Jsonata where
  ast : String → Except String Data
  evaluate : String → Data → Data → Except String Data

/-! ### References and expressions -/

def jsonataPrefix : String := "jsonata:"

/-- `[A-Za-z_$]`. -/
def isNameStart (c : Char) : Bool := c.isAlpha || c = '_' || c = '$'

/-- `[\w$]`. -/
def isNameCharacter (c : Char) : Bool := c.isAlphanum || c = '_' || c = '$'

/-- Where in a reference the pattern stands: before a name, in one, after a bracket opened, in an
index, after a star, or after a bracket closed. -/
inductive ReferencePosition
  | start
  | name
  | opened
  | index
  | star
  | closed
  deriving DecidableEq, Repr

/-- The position after one more character. -/
def ReferencePosition.next (position : ReferencePosition) (c : Char) : Option ReferencePosition :=
  let step := if c = '.' then some start else if c = '[' then some opened else none
  match position with
  | start => if isNameStart c then some name else none
  | name => if isNameCharacter c then some name else step
  | opened => if c.isDigit then some index else if c = '*' then some star else none
  | index => if c.isDigit then some index else if c = ']' then some closed else none
  | star => if c = ']' then some closed else none
  | closed => step

/-- `[A-Za-z_$][\w$]*(?:\.[A-Za-z_$][\w$]*|\[(?:\d+|\*)\])*$`. -/
def isReferencePath (path : List Char) : Bool :=
  match path.foldlM ReferencePosition.next .start with
  | some .name => true
  | some .closed => true
  | _ => false

def isExpression (mapping : String) : Bool := jsonataPrefix.toList.isPrefixOf mapping.toList

/-- `rootReferencePattern` or `rowReferencePattern`. -/
def isDirectReference (mapping : String) : Bool :=
  match mapping.toList with
  | '$' :: '.' :: path => isReferencePath path
  | '@' :: '.' :: path => isReferencePath path
  | _ => false

/-- Whether a string is handed to jsonata. -/
def isEvaluated (mapping : String) : Bool := isExpression mapping || isDirectReference mapping

/-- `[^\w'"@$]`. -/
def startsRowTerm (c : Char) : Bool :=
  !(c.isAlphanum || c = '_' || c = '\'' || c = '"' || c = '@' || c = '$')

/-- Replace the row terms after the start of a text. -/
def replaceRowTerms : List Char → List Char
  | c :: '@' :: '.' :: rest =>
    if startsRowTerm c then c :: '$' :: 'r' :: 'o' :: 'w' :: '.' :: replaceRowTerms rest
    else c :: replaceRowTerms ('@' :: '.' :: rest)
  | c :: rest => c :: replaceRowTerms rest
  | [] => []

/-- `expression.replace(rowTermPattern, …)`. -/
def replaceRows : List Char → List Char
  | '@' :: '.' :: rest => '$' :: 'r' :: 'o' :: 'w' :: '.' :: replaceRowTerms rest
  | expression => replaceRowTerms expression

def toProcessExpression (mapping : String) : String :=
  String.ofList <| replaceRows <|
    if isExpression mapping then mapping.toList.drop jsonataPrefix.length else mapping.toList

example : toProcessExpression "jsonata:@.id = (@.a)" = "$row.id = ($row.a)" := by decide

/-! ### The shape of a mapping -/

/-- The reference and the items of a collection, which has nothing else. -/
def requireCollectionShape (entries : List (String × Data)) : Except String (Data × Data) :=
  match entries.lookup "itemsRef", entries.lookup "items" with
  | some itemsRef, some items => do
    require (entries.all fun (key, _) ↦ key = "itemsRef" || key = "items")
      "Process collection mapping only supports \"itemsRef\" and \"items\""
    return (itemsRef, items)
  | _, _ => .error "Process collection mapping requires both \"itemsRef\" and \"items\""

def isCollectionMapping (entries : List (String × Data)) : Bool :=
  (entries.lookup "itemsRef").isSome

/-- What is looked up in an object is smaller than the object. -/
theorem sizeOf_lt_of_mem {entries : List (String × Data)} {entry : String × Data}
    (h : entry ∈ entries) : sizeOf entry.2 < sizeOf (Data.object entries) := by
  have hentries := List.sizeOf_lt_of_mem h
  obtain ⟨key, value⟩ := entry
  simp only [Prod.mk.sizeOf_spec, Data.object.sizeOf_spec] at hentries ⊢
  omega

theorem requireCollectionShape_eq_ok {entries : List (String × Data)} {itemsRef items : Data}
    (h : requireCollectionShape entries = .ok (itemsRef, items)) :
    ("itemsRef", itemsRef) ∈ entries ∧ ("items", items) ∈ entries := by
  unfold requireCollectionShape at h
  split at h
  · next hitemsRef hitems =>
    obtain ⟨-, h⟩ := andThen_eq_ok.mp h
    cases h
    exact ⟨mem_of_lookup hitemsRef, mem_of_lookup hitems⟩
  · cases h

/-! ### Resolving a mapping -/

/-- An expression or reference handed to jsonata, and what it is evaluated against. -/
structure Evaluation where
  mapping : String
  context : Data
  row : Data

/-- What a mapping is resolved against: the row is undefined outside of collections. -/
structure Scope where
  context : Data
  row : Data
  allowUnresolved : Bool

section
variable (j : Jsonata)

/-- `evaluate`. -/
def evaluate (mapping : String) (scope : Scope) : Logged Evaluation String Data := do
  Logged.note ⟨mapping, scope.context, scope.row⟩
  let evaluated := do
    discard (j.ast (toProcessExpression mapping))
    j.evaluate (toProcessExpression mapping) scope.context scope.row
  Logged.lift <| evaluated.mapError fun _ ↦
    "Failed to evaluate process mapping \"" ++ mapping ++ "\""

def unresolved (mapping : String) : String :=
  "Unresolved process mapping \"" ++ mapping ++ "\""

/-- `resolveString`. -/
def resolveString (mapping : String) (scope : Scope) : Logged Evaluation String Data :=
  if isEvaluated mapping then do
    let resolved ← evaluate j mapping scope
    Logged.lift (require (!resolved.isUndefined || scope.allowUnresolved) (unresolved mapping))
    return resolved
  else return .string mapping

/-- `requireCollectionRows`. -/
def requireCollectionRows (resolved : Data) (reference : String) : Except String (List Data) :=
  if isExpression reference then
    match resolved with
    | .undefined => .error (unresolved reference)
    | .null => .error (unresolved reference)
    | .array rows => .ok rows
    | row => .ok [row]
  else
    match resolved with
    | .array rows => .ok rows
    | _ => .error ("Process collection mapping \"" ++ reference ++ "\" must resolve to an array")

/-- `evaluateCollectionReference`. -/
def evaluateCollectionReference (reference : String) (scope : Scope) :
    Logged Evaluation String Data :=
  if isExpression reference then evaluate j reference scope else resolveString j reference scope

/-- `resolveCollectionRows`, undefined as no list. -/
def resolveCollectionRows (itemsRef : Data) (scope : Scope) :
    Logged Evaluation String (Option (List Data)) :=
  match itemsRef with
  | .string reference => do
    let resolved ← evaluateCollectionReference j reference scope
    if resolved.isUndefined && scope.allowUnresolved then return none
    return some (← Logged.lift (requireCollectionRows resolved reference))
  | _ => Logged.lift (.error "mapping.startsWith is not a function")

/-- The entries that are resolved, or all where none may be left out. -/
def withoutUnresolved (scope : Scope) (entries : List (String × Data)) : List (String × Data) :=
  if scope.allowUnresolved then entries.filter fun (_, value) ↦ !value.isUndefined else entries

/-- `resolveMapping`. -/
def resolveMapping (mapping : Data) (scope : Scope) : Logged Evaluation String Data :=
  match mapping with
  | .string text => resolveString j text scope
  | .array items => do
    let resolved ← Logged.all <| items.attach.map fun item ↦ resolveMapping item.1 scope
    return .array resolved
  | .object entries =>
    if isCollectionMapping entries then
      match _hshape : requireCollectionShape entries with
      | .error error => Logged.lift (.error error)
      | .ok (itemsRef, items) => do
        match ← resolveCollectionRows j itemsRef scope with
        | none => return .undefined
        | some rows =>
          let resolved ← Logged.all <| rows.map fun row ↦
            resolveMapping items { scope with row := row }
          return .array resolved
    else do
      let resolved ← Logged.all <| entries.attach.map fun entry ↦ do
        return (entry.1.1, ← resolveMapping entry.1.2 scope)
      return .object (withoutUnresolved scope resolved)
  | literal => return literal
termination_by sizeOf mapping
decreasing_by
  · have := List.sizeOf_lt_of_mem item.2
    simp only [Data.array.sizeOf_spec]
    omega
  · exact sizeOf_lt_of_mem (requireCollectionShape_eq_ok _hshape).2
  · exact sizeOf_lt_of_mem entry.2

/-! ### Validating a mapping -/

/-- `validateStringMapping`. -/
def validateStringMapping (mapping : String) : Except String Unit :=
  if isEvaluated mapping then discard (j.ast (toProcessExpression mapping)) else return

/-- `validateCollectionReference`. -/
def validateCollectionReference (reference : Data) : Except String Unit :=
  match reference with
  | .string reference => do
    require (isEvaluated reference)
      "Process collection mapping \"itemsRef\" must be a reference or jsonata: expression"
    validateStringMapping j reference
  | _ =>
    .error "Process collection mapping \"itemsRef\" must be a reference or jsonata: expression"

/-- `validateProcessMapping`. -/
def validateProcessMapping (mapping : Data) : Except String Unit :=
  match mapping with
  | .string text => validateStringMapping j text
  | .array items => items.attach.forM fun item ↦ validateProcessMapping item.1
  | .object entries =>
    if isCollectionMapping entries then
      match _hshape : requireCollectionShape entries with
      | .error error => .error error
      | .ok (itemsRef, items) => do
        validateCollectionReference j itemsRef
        validateProcessMapping items
    else entries.attach.forM fun entry ↦ validateProcessMapping entry.1.2
  | _ => return
termination_by sizeOf mapping
decreasing_by
  · have := List.sizeOf_lt_of_mem item.2
    simp only [Data.array.sizeOf_spec]
    omega
  · exact sizeOf_lt_of_mem (requireCollectionShape_eq_ok _hshape).2
  · exact sizeOf_lt_of_mem entry.2

end

/-! ### What occurs in a mapping -/

/-- A string of a mapping. -/
inductive Occurs (text : String) : Data → Prop
  | here : Occurs text (.string text)
  | item {items : List Data} {item : Data} (hitem : item ∈ items) (h : Occurs text item) :
      Occurs text (.array items)
  | entry {entries : List (String × Data)} {entry : String × Data} (hentry : entry ∈ entries)
      (h : Occurs text entry.2) : Occurs text (.object entries)

section
variable {j : Jsonata} {mapping context : Data} {scope : Scope} {text : String}

/-- What a mapping's resolution hands to jsonata: a string of the mapping that is a reference or
an expression, in the context it is resolved against. -/
structure Evaluation.Of (mapping : Data) (context : Data) (e : Evaluation) : Prop where
  occurs : Occurs e.mapping mapping
  evaluated : isEvaluated e.mapping = true
  context : e.context = context

theorem evaluate_ensures (h : isEvaluated text = true) :
    (evaluate j text scope).Ensures (Evaluation.Of (.string text) scope.context)
      fun _ ↦ True := by
  refine (Logged.ensures_note ⟨.here, h, rfl⟩).bind fun _ _ ↦ ?_
  exact Logged.ensures_lift fun _ _ ↦ trivial

theorem resolveString_ensures :
    (resolveString j text scope).Ensures (Evaluation.Of (.string text) scope.context)
      fun _ ↦ True := by
  unfold resolveString
  split
  · next h =>
    refine (evaluate_ensures h).bind fun resolved _ ↦ ?_
    refine (Logged.ensures_lift (Q := fun _ ↦ True) fun _ _ ↦ trivial).bind fun _ _ ↦ ?_
    exact Logged.ensures_pure trivial
  · exact Logged.ensures_pure trivial

theorem evaluateCollectionReference_ensures :
    (evaluateCollectionReference j text scope).Ensures
      (Evaluation.Of (.string text) scope.context) fun _ ↦ True := by
  unfold evaluateCollectionReference
  split
  · next h => exact evaluate_ensures (by rw [isEvaluated, h, Bool.true_or])
  · exact resolveString_ensures

theorem resolveCollectionRows_ensures {itemsRef : Data} :
    (resolveCollectionRows j itemsRef scope).Ensures (Evaluation.Of itemsRef scope.context)
      fun _ ↦ True := by
  unfold resolveCollectionRows
  split
  · refine evaluateCollectionReference_ensures.bind fun resolved _ ↦ ?_
    split
    · exact Logged.ensures_pure trivial
    · refine (Logged.ensures_lift (Q := fun _ ↦ True) fun _ _ ↦ trivial).bind fun _ _ ↦ ?_
      exact Logged.ensures_pure trivial
  · exact Logged.ensures_lift fun _ _ ↦ trivial

/-- What is evaluated for a part of a mapping is evaluated for the mapping. -/
theorem Evaluation.Of.mono {part : Data} {e : Evaluation}
    (h : e.Of part context) (hpart : ∀ text, Occurs text part → Occurs text mapping) :
    e.Of mapping context :=
  ⟨hpart _ h.occurs, h.evaluated, h.context⟩

/-- A mapping's resolution hands only its own references and expressions to jsonata, each in the
context it is resolved against. -/
theorem resolveMapping_ensures :
    (resolveMapping j mapping scope).Ensures (Evaluation.Of mapping scope.context)
      fun _ ↦ True := by
  induction mapping, scope using resolveMapping.induct with
  | case1 scope text =>
    rw [resolveMapping]
    exact resolveString_ensures
  | case2 scope items ih =>
    rw [resolveMapping]
    refine Logged.Ensures.bind (Q := fun _ ↦ True) ?_ fun _ _ ↦ Logged.ensures_pure trivial
    refine (Logged.ensures_all (Q := fun _ _ ↦ True) fun item _ ↦ ?_).mono (fun _ h ↦ h)
      fun _ _ ↦ trivial
    exact (ih item).mono (fun _ h ↦ h.mono fun _ ↦ .item item.2) fun _ h ↦ h
  | case3 scope entries hcollection error herror =>
    rw [resolveMapping, if_pos hcollection]
    split
    · exact Logged.ensures_lift fun _ _ ↦ trivial
    · next hok => rw [herror] at hok; cases hok
  | case4 scope entries hcollection itemsRef items hshape ih =>
    obtain ⟨hitemsRef, hitems⟩ := requireCollectionShape_eq_ok hshape
    rw [resolveMapping, if_pos hcollection]
    split
    · next herror => rw [hshape] at herror; cases herror
    · next hok =>
      rw [hshape] at hok
      cases hok
      refine (resolveCollectionRows_ensures.mono (fun _ h ↦ h.mono fun _ ↦ .entry hitemsRef)
        fun _ h ↦ h).bind fun rows _ ↦ ?_
      split
      · exact Logged.ensures_pure trivial
      · next rows =>
        refine Logged.Ensures.bind (Q := fun _ ↦ True) ?_ fun _ _ ↦ Logged.ensures_pure trivial
        refine (Logged.ensures_all (Q := fun _ _ ↦ True) fun row _ ↦ ?_).mono (fun _ h ↦ h)
          fun _ _ ↦ trivial
        exact (ih row).mono (fun _ h ↦ h.mono fun _ ↦ .entry hitems) fun _ h ↦ h
  | case5 scope entries hcollection ih =>
    rw [resolveMapping, if_neg hcollection]
    refine Logged.Ensures.bind (Q := fun _ ↦ True) ?_ fun _ _ ↦ Logged.ensures_pure trivial
    refine (Logged.ensures_all (Q := fun _ _ ↦ True) fun entry _ ↦ ?_).mono (fun _ h ↦ h)
      fun _ _ ↦ trivial
    refine Logged.Ensures.bind (Q := fun _ ↦ True) ?_ fun _ _ ↦ Logged.ensures_pure trivial
    exact (ih entry).mono (fun _ h ↦ h.mono fun _ ↦ .entry entry.2) fun _ h ↦ h
  | case6 scope literal hstring harray hobject =>
    rw [resolveMapping]
    · exact Logged.ensures_pure trivial
    · exact hstring
    · exact harray
    · exact hobject

/-- The rows of what a collection's reference evaluates to. -/
def rowsOf : Data → List Data
  | .array rows => rows
  | row => [row]

/-- A string of a mapping, and the row it is evaluated with: the row of the mapping, and in the
items of a collection one of those that the collection's reference evaluates to. -/
inductive OccursAt (j : Jsonata) (context : Data) (text : String) (row : Data) : Data → Data → Prop
  | here : OccursAt j context text row (.string text) row
  | item {items : List Data} {item start : Data} (hitem : item ∈ items)
      (h : OccursAt j context text row item start) :
      OccursAt j context text row (.array items) start
  | entry {entries : List (String × Data)} {entry : String × Data} {start : Data}
      (hentry : entry ∈ entries) (hown : isCollectionMapping entries = true → entry.1 = "itemsRef")
      (h : OccursAt j context text row entry.2 start) :
      OccursAt j context text row (.object entries) start
  | row {entries : List (String × Data)} {reference : String} {items value found start : Data}
      (hshape : requireCollectionShape entries = .ok (.string reference, items))
      (hvalue : j.evaluate (toProcessExpression reference) context start = .ok value)
      (hfound : found ∈ rowsOf value) (h : OccursAt j context text row items found) :
      OccursAt j context text row (.object entries) start

/-- Why a mapping that validates does not resolve: jsonata's answer to one of its strings, which
parses. -/
inductive ResolutionFailure (j : Jsonata) (mapping context start : Data) : String → Prop
  | evaluation {text error : String} {row : Data}
      (hoccurs : OccursAt j context text row mapping start)
      (hfails : j.evaluate (toProcessExpression text) context row = .error error) :
      ResolutionFailure j mapping context start
        ("Failed to evaluate process mapping \"" ++ text ++ "\"")
  | undefined {text : String} {row : Data} (hoccurs : OccursAt j context text row mapping start)
      (hundefined : j.evaluate (toProcessExpression text) context row = .ok .undefined) :
      ResolutionFailure j mapping context start (unresolved text)
  | null {text : String} {row : Data} (hoccurs : OccursAt j context text row mapping start)
      (hnull : j.evaluate (toProcessExpression text) context row = .ok .null) :
      ResolutionFailure j mapping context start (unresolved text)
  | rows {text : String} {row value : Data} (hoccurs : OccursAt j context text row mapping start)
      (hvalue : j.evaluate (toProcessExpression text) context row = .ok value)
      (hrows : ∀ rows, value ≠ .array rows) : ResolutionFailure j mapping context start
        ("Process collection mapping \"" ++ text ++ "\" must resolve to an array")

theorem ResolutionFailure.mono {part start start' : Data} {message : String}
    (h : ResolutionFailure j part context start message)
    (hpart : ∀ text row, OccursAt j context text row part start →
      OccursAt j context text row mapping start') :
    ResolutionFailure j mapping context start' message := by
  cases h with
  | evaluation hoccurs hfails => exact .evaluation (hpart _ _ hoccurs) hfails
  | undefined hoccurs hundefined => exact .undefined (hpart _ _ hoccurs) hundefined
  | null hoccurs hnull => exact .null (hpart _ _ hoccurs) hnull
  | rows hoccurs hvalue hrows => exact .rows (hpart _ _ hoccurs) hvalue hrows

/-- A string that is evaluated and validates parses. -/
theorem validateStringMapping_eq_ok (h : validateStringMapping j text = .ok ())
    (hevaluated : isEvaluated text = true) :
    ∃ tree, j.ast (toProcessExpression text) = .ok tree := by
  rw [validateStringMapping, if_pos hevaluated] at h
  cases hast : j.ast (toProcessExpression text) with
  | ok tree => exact ⟨tree, rfl⟩
  | error error => rw [hast] at h; cases h

/-- What parses is left to jsonata's evaluation. -/
theorem evaluate_result {tree : Data} (h : j.ast (toProcessExpression text) = .ok tree) :
    (evaluate j text scope).result =
      (j.evaluate (toProcessExpression text) scope.context scope.row).mapError fun _ ↦
        "Failed to evaluate process mapping \"" ++ text ++ "\"" := by
  change (Except.mapError _ (do
    discard (j.ast (toProcessExpression text))
    j.evaluate (toProcessExpression text) scope.context scope.row)) = _
  rw [h]
  rfl

theorem evaluate_throws {tree : Data} (h : j.ast (toProcessExpression text) = .ok tree) :
    (evaluate j text scope).Throws
      (ResolutionFailure j (.string text) scope.context scope.row) := by
  intro message hmessage
  rw [evaluate_result h] at hmessage
  cases hvalue : j.evaluate (toProcessExpression text) scope.context scope.row with
  | ok value => rw [hvalue] at hmessage; cases hmessage
  | error error =>
    rw [hvalue] at hmessage
    exact Except.error.inj hmessage ▸ .evaluation .here hvalue

theorem evaluate_eq_ok {tree value : Data} (h : j.ast (toProcessExpression text) = .ok tree)
    (hvalue : (evaluate j text scope).result = .ok value) :
    j.evaluate (toProcessExpression text) scope.context scope.row = .ok value := by
  rw [evaluate_result h] at hvalue
  exact mapError_ok_iff.mp hvalue

theorem resolveString_throws (h : validateStringMapping j text = .ok ()) :
    (resolveString j text scope).Throws
      (ResolutionFailure j (.string text) scope.context scope.row) := by
  unfold resolveString
  split
  · next hevaluated =>
    obtain ⟨tree, htree⟩ := validateStringMapping_eq_ok h hevaluated
    refine (evaluate_throws htree).bind fun resolved hresolved ↦ ?_
    refine (Logged.throws_lift fun message hmessage ↦ ?_).bind fun _ _ ↦ Logged.throws_pure
    unfold require at hmessage
    split at hmessage
    · cases hmessage
    · next hunresolved =>
      simp only [Bool.or_eq_true, Bool.not_eq_true', not_or, Bool.not_eq_false] at hunresolved
      cases resolved with
      | undefined =>
        exact Except.error.inj hmessage ▸ .undefined .here (evaluate_eq_ok htree hresolved)
      | _ => exact absurd hunresolved.1 Bool.noConfusion
  · exact Logged.throws_pure

theorem resolveString_eq_ok {tree value : Data} (hevaluated : isEvaluated text = true)
    (h : j.ast (toProcessExpression text) = .ok tree)
    (hvalue : (resolveString j text scope).result = .ok value) :
    j.evaluate (toProcessExpression text) scope.context scope.row = .ok value := by
  rw [resolveString, if_pos hevaluated] at hvalue
  obtain ⟨resolved, hresolved, hvalue⟩ := Logged.bind_eq_ok hvalue
  obtain ⟨_, -, hvalue⟩ := Logged.bind_eq_ok hvalue
  exact Except.ok.inj hvalue ▸ evaluate_eq_ok h hresolved

/-- Rows that cannot be had fail for what the reference evaluates to. -/
theorem requireCollectionRows_throws {value : Data} {message : String} {row : Data}
    (hvalue : j.evaluate (toProcessExpression text) context row = .ok value)
    (h : requireCollectionRows value text = .error message) :
    ResolutionFailure j (.string text) context row message := by
  unfold requireCollectionRows at h
  split at h
  · split at h
    · exact Except.error.inj h ▸ .undefined .here hvalue
    · exact Except.error.inj h ▸ .null .here hvalue
    · cases h
    · cases h
  · split at h
    · cases h
    · next hrows => exact Except.error.inj h ▸ .rows .here hvalue hrows

/-- A valid reference evaluates as it is written. -/
theorem evaluateCollectionReference_eq_ok {value : Data}
    (h : validateCollectionReference j (.string text) = .ok ())
    (hvalue : (evaluateCollectionReference j text scope).result = .ok value) :
    j.evaluate (toProcessExpression text) scope.context scope.row = .ok value := by
  obtain ⟨hevaluated, hvalid⟩ := andThen_eq_ok.mp h
  have hevaluated := require_eq_ok.mp hevaluated
  obtain ⟨tree, htree⟩ := validateStringMapping_eq_ok hvalid hevaluated
  unfold evaluateCollectionReference at hvalue
  split at hvalue
  · exact evaluate_eq_ok htree hvalue
  · exact resolveString_eq_ok hevaluated htree hvalue

theorem evaluateCollectionReference_throws
    (h : validateCollectionReference j (.string text) = .ok ()) :
    (evaluateCollectionReference j text scope).Throws
      (ResolutionFailure j (.string text) scope.context scope.row) := by
  obtain ⟨hevaluated, hvalid⟩ := andThen_eq_ok.mp h
  obtain ⟨tree, htree⟩ := validateStringMapping_eq_ok hvalid (require_eq_ok.mp hevaluated)
  unfold evaluateCollectionReference
  split
  · exact evaluate_throws htree
  · exact resolveString_throws hvalid

theorem resolveCollectionRows_throws {itemsRef : Data}
    (h : validateCollectionReference j itemsRef = .ok ()) :
    (resolveCollectionRows j itemsRef scope).Throws
      (ResolutionFailure j itemsRef scope.context scope.row) := by
  cases itemsRef with
  | string reference =>
    refine (evaluateCollectionReference_throws h).bind fun value hvalue ↦ ?_
    split
    · exact Logged.throws_pure
    · refine (Logged.throws_lift fun message hmessage ↦ ?_).bind fun _ _ ↦ Logged.throws_pure
      exact requireCollectionRows_throws (evaluateCollectionReference_eq_ok h hvalue) hmessage
  | _ => cases h

theorem requireCollectionRows_eq_ok {value : Data} {rows : List Data}
    (h : requireCollectionRows value text = .ok rows) : rows = rowsOf value := by
  unfold requireCollectionRows at h
  split at h
  · cases value <;> cases h <;> rfl
  · cases value <;> cases h
    rfl

/-- The rows of a collection are those that its reference evaluates to. -/
theorem resolveCollectionRows_eq_ok {itemsRef : Data} {rows : List Data}
    (h : validateCollectionReference j itemsRef = .ok ())
    (hrows : (resolveCollectionRows j itemsRef scope).result = .ok (some rows)) :
    ∃ reference value, itemsRef = .string reference ∧
      j.evaluate (toProcessExpression reference) scope.context scope.row = .ok value ∧
        rows = rowsOf value := by
  cases itemsRef with
  | string reference =>
    obtain ⟨value, hvalue, hrows⟩ := Logged.bind_eq_ok hrows
    refine ⟨reference, value, rfl, evaluateCollectionReference_eq_ok h hvalue, ?_⟩
    split at hrows
    · cases hrows
    · obtain ⟨found, hfound, hrows⟩ := Logged.bind_eq_ok hrows
      cases hrows
      exact requireCollectionRows_eq_ok hfound
  | _ => cases h

/-- A mapping that validates fails to resolve, in whatever context, only for what jsonata answers
to one of its strings: never for its shape, nor for an expression that does not parse. -/
theorem resolveMapping_throws (h : validateProcessMapping j mapping = .ok ()) :
    (resolveMapping j mapping scope).Throws
      (ResolutionFailure j mapping scope.context scope.row) := by
  induction mapping, scope using resolveMapping.induct with
  | case1 scope text =>
    rw [validateProcessMapping] at h
    rw [resolveMapping]
    exact resolveString_throws h
  | case2 scope items ih =>
    rw [validateProcessMapping] at h
    rw [resolveMapping]
    refine Logged.Throws.bind (Logged.throws_all fun l hl ↦ ?_) fun _ _ ↦ Logged.throws_pure
    obtain ⟨item, hitem, rfl⟩ := List.mem_map.mp hl
    exact (ih item (forM_eq_ok.mp h item hitem)).mono fun _ hfails ↦
      hfails.mono fun _ _ ↦ .item item.2
  | case3 scope entries hcollection error herror =>
    rw [validateProcessMapping, if_pos hcollection] at h
    split at h
    · cases h
    · next hok => rw [herror] at hok; cases hok
  | case4 scope entries hcollection itemsRef items hshape ih =>
    obtain ⟨hitemsRef, hitems⟩ := requireCollectionShape_eq_ok hshape
    rw [validateProcessMapping, if_pos hcollection] at h
    rw [resolveMapping, if_pos hcollection]
    split at h
    · cases h
    · next itemsRef' items' hok =>
      rw [hshape] at hok
      cases hok
      obtain ⟨hreference, hvalid⟩ := andThen_eq_ok.mp h
      refine ((resolveCollectionRows_throws hreference).mono fun _ hfails ↦
        hfails.mono fun _ _ ↦ .entry hitemsRef fun _ ↦ rfl).bind fun found hfound ↦ ?_
      split
      · exact Logged.throws_pure
      · next rows =>
        obtain ⟨reference, value, rfl, hvalue, rfl⟩ :=
          resolveCollectionRows_eq_ok hreference hfound
        refine Logged.Throws.bind (Logged.throws_all fun l hl ↦ ?_) fun _ _ ↦ Logged.throws_pure
        obtain ⟨row, hrow, rfl⟩ := List.mem_map.mp hl
        exact (ih row hvalid).mono fun _ hfails ↦
          hfails.mono fun _ _ ↦ .row hshape hvalue hrow
  | case5 scope entries hcollection ih =>
    rw [validateProcessMapping, if_neg hcollection] at h
    rw [resolveMapping, if_neg hcollection]
    refine Logged.Throws.bind (Logged.throws_all fun l hl ↦ ?_) fun _ _ ↦ Logged.throws_pure
    obtain ⟨entry, hentry, rfl⟩ := List.mem_map.mp hl
    refine Logged.Throws.bind ((ih entry (forM_eq_ok.mp h entry hentry)).mono fun _ hfails ↦
      hfails.mono fun _ _ ↦ .entry entry.2 fun h ↦ absurd h hcollection) fun _ _ ↦
        Logged.throws_pure
  | case6 scope literal hstring harray hobject =>
    rw [resolveMapping]
    · exact Logged.throws_pure
    · exact hstring
    · exact harray
    · exact hobject

/-- A reference that is not there. -/
theorem resolveMapping_throws_undefined :
    (resolveMapping ⟨fun _ ↦ .ok .null, fun _ _ _ ↦ .ok .undefined⟩ (.string "$.input.code")
      ⟨.object [], .undefined, false⟩).Throws (ResolutionFailure
        ⟨fun _ ↦ .ok .null, fun _ _ _ ↦ .ok .undefined⟩ (.string "$.input.code") (.object [])
          .undefined) := by
  refine resolveMapping_throws ?_
  rw [validateProcessMapping]
  rfl

end

end FgGas.Processes
