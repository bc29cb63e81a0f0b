import Mathlib.Data.List.Infix
import FgGas.Processes.Mapping

/-!
# References to process outputs

The walk over the syntax tree of an expression that finds the outputs of processes it refers to
(`src/agreements/models/agreement-definitions/processes/find-process-output-dependencies.js`). It
knows a reference as a path `$.outputs.process` or a call `$lookup($.outputs, "process")`, with
the name of an output after it. It does not look for others inside one, so that a reference in the
predicate of another is not found, nor is a path such as `outputs.process` that does not start at
the root. What it finds is kept in a map under the reference's text; of the references that are
spelled so, none is lost.
-/

namespace FgGas.Processes

open Machine

/-- An output of a process: all of it, or the value under one name. -/
structure Dependency where
  processKey : String
  outputName : Option String
  deriving DecidableEq, Repr

/-! ### Nodes of a syntax tree -/

/-- `node[key]`. -/
def Data.property (node : Data) (key : String) : Data :=
  match node with
  | .object entries => (entries.lookup key).getD .undefined
  | _ => .undefined

/-- `value === text`. -/
def Data.isText (text : String) : Data → Bool
  | .string value => value = text
  | _ => false

/-- Whether a value is truthy. -/
def Data.isTruthy : Data → Bool
  | .undefined => false
  | .null => false
  | .boolean value => value
  | .number value => value ≠ 0
  | .string value => value ≠ ""
  | .array _ => true
  | .object _ => true

/-- The elements, which the tree gives as an array where it gives any. -/
def Data.elements : Data → List Data
  | .array items => items
  | _ => []

/-- `nodes[index]`. -/
def nodeAt (nodes : List Data) (index : Nat) : Data := nodes[index]?.getD .undefined

def isNodeType (node : Data) (type : String) : Bool := (node.property "type").isText type

def stepsFor (node : Data) : List Data := (node.property "steps").elements

def argumentsFor (node : Data) : List Data := (node.property "arguments").elements

def nodeName (node : Data) : Option String :=
  if isNodeType node "name" then
    match node.property "value" with
    | .string name => some name
    | _ => none
  else none

def isRootVariable (node : Data) : Bool :=
  isNodeType node "variable" && (node.property "value").isText ""

def isOutputsName (node : Data) : Bool := nodeName node = some "outputs"

def isOutputsPath (node : Data) : Bool :=
  isNodeType node "path" && isRootVariable (nodeAt (stepsFor node) 0) &&
    isOutputsName (nodeAt (stepsFor node) 1)

def isRootOutputsPath (node : Data) : Bool := isOutputsPath node && (stepsFor node).length = 2

def hasComputedProcessKey (steps : List Data) : Bool :=
  ((nodeAt steps 1).property "stages").isTruthy || ((nodeAt steps 2).property "stages").isTruthy

def staticKey : String := "Agreement Process output access must use a static key"

def directDependency (node : Data) : Except String (Option Dependency) :=
  if isOutputsPath node then
    match nodeName (nodeAt (stepsFor node) 2) with
    | none => .error staticKey
    | some processKey => do
      require (processKey ≠ "" && !hasComputedProcessKey (stepsFor node)) staticKey
      return some ⟨processKey, nodeName (nodeAt (stepsFor node) 3)⟩
  else return none

def isLookup (node : Data) : Bool :=
  isNodeType node "function" && isNodeType (node.property "procedure") "variable" &&
    ((node.property "procedure").property "value").isText "lookup"

def lookupNode (node : Data) : Data :=
  if isNodeType node "path" then nodeAt (stepsFor node) 0 else node

/-- The text of a string node. -/
def stringValue (node : Data) : Option String :=
  if isNodeType node "string" then
    match node.property "value" with
    | .string value => some value
    | _ => none
  else none

def isIndirectOutputsLookup (node : Data) : Bool :=
  isLookup (lookupNode node) && isRootVariable (nodeAt (argumentsFor (lookupNode node)) 0) &&
    stringValue (nodeAt (argumentsFor (lookupNode node)) 1) = some "outputs"

def outputAfterLookup (node : Data) : Option String :=
  if isNodeType node "path" then nodeName (nodeAt (stepsFor node) 1) else none

/-- The values of an entry, an array being one for each element. -/
def spreadArray : Data → List Data
  | .array items => items
  | value => [value]

def childNodes (node : Data) : List Data :=
  match node with
  | .object entries =>
    ((entries.filter (·.1 ≠ "position")).flatMap (spreadArray ·.2)).filter isObject
  | .array items => (items.flatMap spreadArray).filter isObject
  | _ => []

theorem sizeOf_le_of_mem_spreadArray {value child : Data} (h : child ∈ spreadArray value) :
    sizeOf child ≤ sizeOf value := by
  cases value with
  | array items =>
    have hitem : child ∈ items := h
    have := List.sizeOf_lt_of_mem hitem
    simp only [Data.array.sizeOf_spec]
    omega
  | _ => exact (congrArg sizeOf (List.mem_singleton.mp h)).le

/-- A child is smaller than its node. -/
theorem sizeOf_lt_of_mem_childNodes {node child : Data} (h : child ∈ childNodes node) :
    sizeOf child < sizeOf node := by
  cases node with
  | object entries =>
    obtain ⟨entry, hentry, hchild⟩ := List.mem_flatMap.mp (List.mem_of_mem_filter h)
    have := sizeOf_lt_of_mem (List.mem_of_mem_filter hentry)
    have := sizeOf_le_of_mem_spreadArray hchild
    omega
  | array items =>
    obtain ⟨item, hitem, hchild⟩ := List.mem_flatMap.mp (List.mem_of_mem_filter h)
    have := List.sizeOf_lt_of_mem hitem
    have := sizeOf_le_of_mem_spreadArray hchild
    simp only [Data.array.sizeOf_spec]
    omega
  | _ => cases h

/-- `containsOutputsPath`. -/
def containsOutputsPath (node : Data) : Bool :=
  isOutputsPath node || (childNodes node).attach.any fun child ↦ containsOutputsPath child.1
termination_by sizeOf node
decreasing_by exact sizeOf_lt_of_mem_childNodes child.2

def lookupMustTargetOutputs : String :=
  "Agreement Process output lookup must target $.outputs"

/-- `lookupDependency`. A call without arguments fails on reading the steps of the first. -/
def lookupDependency (node : Data) : Except String (Option Dependency) :=
  if isLookup (lookupNode node) then
    match argumentsFor (lookupNode node) with
    | [] => .error "Cannot read properties of undefined (reading 'steps')"
    | target :: rest =>
      if isRootOutputsPath target then
        match stringValue (nodeAt rest 0) with
        | some processKey => return some ⟨processKey, outputAfterLookup node⟩
        | none => .error "Dynamic Agreement Process output lookup is not supported"
      else do
        require (!containsOutputsPath target) lookupMustTargetOutputs
        return none
  else return none

/-! ### The walk -/

/-- The references found, under their texts. -/
abbrev Dependencies := List (String × Dependency)

def dependencyKey (dependency : Dependency) : String :=
  dependency.processKey ++ "\x00" ++ dependency.outputName.getD ""

def rejectHiddenOutputAccess (node : Data) : Except String Unit :=
  require ((stringValue node).all fun value ↦ !decide ("$.outputs".toList <:+: value.toList))
    "Agreement Process output access cannot be hidden in a string"

def rejectIndirectOutputAccess (node : Data) : Except String Unit :=
  require (!isIndirectOutputsLookup node) lookupMustTargetOutputs

/-- `directDependency(node) ?? lookupDependency(node)`. -/
def dependencyOf (node : Data) : Except String (Option Dependency) := do
  match ← directDependency node with
  | some dependency => return some dependency
  | none => lookupDependency node

/-- `visitAst`. -/
def visitAst (dependencies : Dependencies) (node : Data) : Except String Dependencies := do
  rejectHiddenOutputAccess node
  rejectIndirectOutputAccess node
  match ← dependencyOf node with
  | some dependency => return setEntry (dependencyKey dependency) dependency dependencies
  | none =>
    (childNodes node).attach.foldlM (fun dependencies child ↦ visitAst dependencies child.1)
      dependencies
termination_by sizeOf node
decreasing_by exact sizeOf_lt_of_mem_childNodes child.2

/-- `isOutputMapping`. -/
def isOutputMapping (value : String) : Bool :=
  isExpression value ||
    match "$.outputs".toList.isPrefixOf? value.toList with
    | some [] => true
    | some ('.' :: _) => true
    | some ('[' :: _) => true
    | _ => false

/-- `inspectString`. -/
def inspectString (j : Jsonata) (dependencies : Dependencies) (value : String) :
    Except String Dependencies := do
  if isOutputMapping value then visitAst dependencies (← j.ast (toProcessExpression value))
  else return dependencies

/-- `inspectMapping`. -/
def inspectMapping (j : Jsonata) (dependencies : Dependencies) (mapping : Data) :
    Except String Dependencies :=
  match mapping with
  | .string text => inspectString j dependencies text
  | .array items =>
    items.attach.foldlM (fun dependencies item ↦ inspectMapping j dependencies item.1)
      dependencies
  | .object entries =>
    entries.attach.foldlM (fun dependencies entry ↦ inspectMapping j dependencies entry.1.2)
      dependencies
  | _ => return dependencies
termination_by sizeOf mapping
decreasing_by
  · have := List.sizeOf_lt_of_mem item.2
    simp only [Data.array.sizeOf_spec]
    omega
  · exact sizeOf_lt_of_mem entry.2

/-- `findProcessOutputDependencies`, of the three parts of a definition that it inspects. -/
def findProcessOutputDependencies (j : Jsonata) (parts : List Data) :
    Except String (List Dependency) := do
  let dependencies ← parts.foldlM (inspectMapping j) []
  return dependencies.map Prod.snd

/-! ### References as they are spelled -/

/-- A call `$lookup($.outputs, "process")`. -/
inductive LooksUp : Data → String → Prop
  | intro {node target key : Data} {rest : List Data} {processKey : String}
      (hcall : isLookup node = true) (harguments : argumentsFor node = target :: key :: rest)
      (htarget : isRootOutputsPath target = true) (hkey : stringValue key = some processKey) :
      LooksUp node processKey

/-- A reference to outputs: a path `$.outputs.process` or a call that looks the process up, with
the name of an output where one comes next. -/
inductive Refers : Data → Dependency → Prop
  | path {node root outputs process : Data} {rest : List Data} {processKey : String}
      (hpath : isNodeType node "path" = true)
      (hsteps : stepsFor node = root :: outputs :: process :: rest)
      (hroot : isRootVariable root = true) (houtputs : isOutputsName outputs = true)
      (hprocess : nodeName process = some processKey) :
      Refers node ⟨processKey, nodeName (nodeAt rest 0)⟩
  | call {node : Data} {processKey : String} (hpath : isNodeType node "path" = false)
      (hcall : LooksUp node processKey) : Refers node ⟨processKey, none⟩
  | callPath {node call : Data} {rest : List Data} {processKey : String}
      (hpath : isNodeType node "path" = true) (hsteps : stepsFor node = call :: rest)
      (hcall : LooksUp call processKey) : Refers node ⟨processKey, nodeName (nodeAt rest 0)⟩

/-- A reference in a tree that stands in no other. One in the predicate of another is not spelled
so, and the walk does not come to it. -/
inductive Spells : Data → Dependency → Prop
  | here {node : Data} {dependency : Dependency} (h : Refers node dependency) :
      Spells node dependency
  | child {node child : Data} {dependency : Dependency}
      (hnot : ∀ other, ¬ Refers node other) (hchild : child ∈ childNodes node)
      (h : Spells child dependency) : Spells node dependency

section
variable {node : Data} {dependency : Dependency} {found : Option Dependency}

theorem nodeAt_succ {first : Data} {rest : List Data} {i : Nat} :
    nodeAt (first :: rest) (i + 1) = nodeAt rest i := by
  rw [nodeAt, nodeAt, List.getElem?_cons_succ]

/-- What is not undefined is an element. -/
theorem exists_of_nodeAt {nodes : List Data} (h : nodeAt nodes 0 ≠ .undefined) :
    ∃ rest, nodes = nodeAt nodes 0 :: rest := by
  cases nodes with
  | nil => exact absurd rfl h
  | cons first rest => exact ⟨rest, rfl⟩

/-- A node has one type. -/
theorem type_eq {type type' : String} (h : isNodeType node type = true)
    (h' : isNodeType node type' = true) : type = type' := by
  unfold isNodeType at h h'
  cases hvalue : node.property "type" with
  | string value =>
    rw [hvalue] at h h'
    exact (of_decide_eq_true h).symm.trans (of_decide_eq_true h')
  | _ => rw [hvalue] at h; cases h

theorem ne_undefined_of_isNodeType {type : String} (h : isNodeType node type = true) :
    node ≠ .undefined := by
  rintro rfl
  cases h

theorem ne_undefined_of_nodeName {name : String} (h : nodeName node = some name) :
    node ≠ .undefined := by
  rintro rfl
  cases h

theorem function_of_isLookup (h : isLookup node = true) : isNodeType node "function" = true := by
  simp only [isLookup, Bool.and_eq_true] at h
  exact h.1.1

/-- A path under `$.outputs` has the two steps to it. -/
theorem isOutputsPath_eq_true : isOutputsPath node = true ↔ isNodeType node "path" = true ∧
    ∃ root outputs rest, stepsFor node = root :: outputs :: rest ∧
      isRootVariable root = true ∧ isOutputsName outputs = true := by
  simp only [isOutputsPath, Bool.and_eq_true]
  constructor
  · rintro ⟨⟨hpath, hroot⟩, houtputs⟩
    have hroot' := (Bool.and_eq_true _ _ ▸ hroot).1
    obtain ⟨rest, hsteps⟩ := exists_of_nodeAt (ne_undefined_of_isNodeType hroot')
    rw [hsteps, nodeAt_succ] at houtputs
    obtain ⟨rest', hrest⟩ :=
      exists_of_nodeAt (ne_undefined_of_nodeName (of_decide_eq_true houtputs))
    exact ⟨hpath, _, _, rest', hrest ▸ hsteps, hroot, houtputs⟩
  · rintro ⟨hpath, root, outputs, rest, hsteps, hroot, houtputs⟩
    rw [hsteps]
    exact ⟨⟨hpath, hroot⟩, houtputs⟩

/-- A call starts no path under `$.outputs`. -/
theorem isOutputsPath_eq_false_of_call {call : Data} {rest : List Data}
    (hsteps : stepsFor node = call :: rest) (hcall : isLookup call = true) :
    isOutputsPath node = false := by
  rw [Bool.eq_false_iff]
  intro h
  obtain ⟨-, root, outputs, rest', hsteps', hroot, -⟩ := isOutputsPath_eq_true.mp h
  rw [hsteps] at hsteps'
  obtain rfl := (List.cons.inj hsteps').1
  simp only [isRootVariable, Bool.and_eq_true] at hroot
  exact absurd (type_eq (function_of_isLookup hcall) hroot.1) (by decide)

theorem directDependency_of_not (h : isOutputsPath node = false) :
    directDependency node = .ok none := by
  rw [directDependency, if_neg (Bool.eq_false_iff.mp h)]
  rfl

theorem lookupNode_of_path (h : isNodeType node "path" = true) :
    lookupNode node = nodeAt (stepsFor node) 0 := if_pos h

theorem lookupNode_of_not_path (h : isNodeType node "path" = false) : lookupNode node = node :=
  if_neg (Bool.eq_false_iff.mp h)

/-- What a call is found to look up. -/
theorem lookupDependency_of_call {processKey : String}
    (hcall : LooksUp (lookupNode node) processKey) :
    lookupDependency node = .ok (some ⟨processKey, outputAfterLookup node⟩) := by
  cases hcall with
  | intro hcall harguments htarget hkey =>
    unfold lookupDependency
    rw [if_pos hcall, harguments]
    simp only [htarget, if_true, nodeAt, List.getElem?_cons_zero, Option.getD_some, hkey]
    rfl

/-- A path under `$.outputs` is found as the reference it is, or refused. -/
theorem directDependency_of_path {root outputs process : Data} {rest : List Data}
    {processKey : String} (hout : isOutputsPath node = true)
    (hsteps : stepsFor node = root :: outputs :: process :: rest)
    (hprocess : nodeName process = some processKey) (hok : directDependency node = .ok found) :
    found = some ⟨processKey, nodeName (nodeAt rest 0)⟩ := by
  have hthird : nodeAt (root :: outputs :: process :: rest) 2 = process := rfl
  rw [directDependency, if_pos hout, hsteps, hthird, hprocess] at hok
  exact (Except.ok.inj (andThen_eq_ok.mp hok).2).symm

/-- Where the walk finds no fault with a reference, it finds the reference. -/
theorem dependencyOf_of_refers (h : Refers node dependency) (hok : dependencyOf node = .ok found) :
    found = some dependency := by
  obtain ⟨direct, hdirect, hok⟩ := bind_eq_ok.mp hok
  cases h with
  | path hpath hsteps hroot houtputs hprocess =>
    have hout := isOutputsPath_eq_true.mpr ⟨hpath, _, _, _, hsteps, hroot, houtputs⟩
    obtain rfl := directDependency_of_path hout hsteps hprocess hdirect
    exact (Except.ok.inj hok).symm
  | call hpath hcall =>
    have hout : isOutputsPath node = false := by
      rw [isOutputsPath, hpath, Bool.false_and, Bool.false_and]
    rw [directDependency_of_not hout] at hdirect
    obtain rfl := Except.ok.inj hdirect
    have hlookup := lookupDependency_of_call ((lookupNode_of_not_path hpath).symm ▸ hcall)
    rw [outputAfterLookup, if_neg (Bool.eq_false_iff.mp hpath)] at hlookup
    exact Except.ok.inj (hok.symm.trans hlookup)
  | @callPath _ _ processKey hpath hsteps hcall =>
    have hlookup' := hcall
    cases hlookup' with
    | intro hcall' _ _ _ =>
      rw [directDependency_of_not (isOutputsPath_eq_false_of_call hsteps hcall')] at hdirect
      obtain rfl := Except.ok.inj hdirect
      have hnode := lookupNode_of_path hpath
      rw [hsteps] at hnode
      have hlooks : LooksUp (lookupNode node) processKey := by rw [hnode]; exact hcall
      have hlookup := lookupDependency_of_call hlooks
      rw [outputAfterLookup, if_pos hpath, hsteps, nodeAt_succ] at hlookup
      exact Except.ok.inj (hok.symm.trans hlookup)

/-- What the walk finds at a node is a reference there. -/
theorem refers_of_directDependency (hok : directDependency node = .ok (some dependency)) :
    Refers node dependency := by
  unfold directDependency at hok
  split at hok
  · next hout =>
    obtain ⟨hpath, root, outputs, rest, hsteps, hroot, houtputs⟩ := isOutputsPath_eq_true.mp hout
    split at hok
    · cases hok
    · next processKey hprocess =>
      obtain ⟨-, hok⟩ := andThen_eq_ok.mp hok
      obtain rfl := Option.some.inj (Except.ok.inj hok)
      rw [hsteps, nodeAt_succ, nodeAt_succ] at hprocess
      obtain ⟨rest', hrest⟩ := exists_of_nodeAt (ne_undefined_of_nodeName hprocess)
      rw [hrest] at hsteps
      rw [hsteps, nodeAt_succ, nodeAt_succ, nodeAt_succ]
      exact .path hpath hsteps hroot houtputs hprocess
  · cases hok

theorem looksUp_of_arguments {call target : Data} {rest : List Data} {processKey : String}
    (hcall : isLookup call = true) (harguments : argumentsFor call = target :: rest)
    (htarget : isRootOutputsPath target = true)
    (hkey : stringValue (nodeAt rest 0) = some processKey) : LooksUp call processKey := by
  have hne : nodeAt rest 0 ≠ .undefined := by
    intro h
    rw [h] at hkey
    cases hkey
  obtain ⟨rest', hrest⟩ := exists_of_nodeAt hne
  exact .intro hcall (hrest ▸ harguments) htarget hkey

theorem refers_of_looksUp {processKey : String} (hcall : LooksUp (lookupNode node) processKey) :
    Refers node ⟨processKey, outputAfterLookup node⟩ := by
  unfold outputAfterLookup
  split
  · next hpath =>
    rw [lookupNode_of_path hpath] at hcall
    have hne : nodeAt (stepsFor node) 0 ≠ .undefined := by
      cases hcall with
      | intro hcall _ _ _ => exact ne_undefined_of_isNodeType (function_of_isLookup hcall)
    obtain ⟨rest, hsteps⟩ := exists_of_nodeAt hne
    rw [hsteps, nodeAt_succ]
    exact .callPath hpath hsteps hcall
  · next hpath =>
    rw [Bool.not_eq_true] at hpath
    rw [lookupNode_of_not_path hpath] at hcall
    exact .call hpath hcall

theorem refers_of_lookupDependency (hok : lookupDependency node = .ok (some dependency)) :
    Refers node dependency := by
  unfold lookupDependency at hok
  split at hok
  · next hcall =>
    split at hok
    · cases hok
    · next target rest harguments =>
      split at hok
      · next htarget =>
        split at hok
        · next processKey hkey =>
          obtain rfl := Option.some.inj (Except.ok.inj hok)
          exact refers_of_looksUp (looksUp_of_arguments hcall harguments htarget hkey)
        · cases hok
      · cases (andThen_eq_ok.mp hok).2
  · cases hok

/-- What the walk finds at a node is a reference there. -/
theorem refers_of_dependencyOf (hok : dependencyOf node = .ok (some dependency)) :
    Refers node dependency := by
  obtain ⟨direct, hdirect, hok⟩ := bind_eq_ok.mp hok
  cases direct with
  | some direct =>
    obtain rfl := Option.some.inj (Except.ok.inj hok)
    exact refers_of_directDependency hdirect
  | none => exact refers_of_lookupDependency hok

end

/-! ### What is found -/

/-- What one part of the walk does with the references found before: `S` are those spelled in the
part. -/
structure Found (S : Dependency → Prop) (before after : Dependencies) : Prop where
  kept : ∀ key, (before.lookup key).isSome → (after.lookup key).isSome
  found : ∀ d, S d → (after.lookup (dependencyKey d)).isSome
  spelled : ∀ p ∈ after, p ∈ before ∨ S p.2 ∧ p.1 = dependencyKey p.2
  nodup : (before.map Prod.fst).Nodup → (after.map Prod.fst).Nodup

section
variable {α : Type} {S S' : Dependency → Prop} {before after : Dependencies}

theorem Found.none (h : ∀ d, ¬ S d) : Found S before before where
  kept _ h := h
  found d hd := absurd hd (h d)
  spelled _ hp := .inl hp
  nodup h := h

/-- The one reference of a node. -/
theorem Found.one {dependency : Dependency} (h : ∀ d, S d ↔ d = dependency) :
    Found S before (setEntry (dependencyKey dependency) dependency before) where
  kept _ h := isSome_lookup_setEntry h
  found d hd := by
    rw [(h d).mp hd, lookup_setEntry, if_pos (beq_self_eq_true _)]
    rfl
  spelled p hp := by
    rcases mem_setEntry hp with rfl | hp
    · exact .inr ⟨(h _).mpr rfl, rfl⟩
    · exact .inl hp
  nodup := nodup_setEntry

theorem Found.mono (h : Found S before after) (hS : ∀ d, S d ↔ S' d) :
    Found S' before after where
  kept := h.kept
  found d hd := h.found d ((hS d).mpr hd)
  spelled p hp := (h.spelled p hp).imp_right fun ⟨hp, hkey⟩ ↦ ⟨(hS _).mp hp, hkey⟩
  nodup := h.nodup

theorem Found.trans {middle : Dependencies} (h : Found S before middle)
    (h' : Found S' middle after) : Found (fun d ↦ S d ∨ S' d) before after where
  kept key hkey := h'.kept key (h.kept key hkey)
  found d hd := hd.elim (fun hd ↦ h'.kept _ (h.found d hd)) (h'.found d)
  spelled p hp := by
    rcases h'.spelled p hp with hp | ⟨hp, hkey⟩
    · exact (h.spelled p hp).imp_right fun ⟨hp, hkey⟩ ↦ ⟨.inl hp, hkey⟩
    · exact .inr ⟨.inr hp, hkey⟩
  nodup hnodup := h'.nodup (h.nodup hnodup)

/-- Of parts walked one after another, what is spelled in any of them is found. -/
theorem Found.foldlM {xs : List α} {f : Dependencies → α → Except String Dependencies}
    {S : α → Dependency → Prop}
    (h : ∀ x ∈ xs, ∀ before after, f before x = .ok after → Found (S x) before after)
    (hok : xs.foldlM f before = .ok after) : Found (fun d ↦ ∃ x ∈ xs, S x d) before after := by
  induction xs generalizing before with
  | nil =>
    obtain rfl := Except.ok.inj hok
    exact .none fun d ⟨x, hx, _⟩ ↦ List.not_mem_nil hx
  | cons x xs ih =>
    obtain ⟨middle, hfirst, hrest⟩ := bind_eq_ok.mp (List.foldlM_cons.symm.trans hok)
    have hx := h x List.mem_cons_self before middle hfirst
    have hxs := ih (fun y hy ↦ h y (List.mem_cons_of_mem x hy)) hrest
    refine (hx.trans hxs).mono fun d ↦ ?_
    simp only [List.mem_cons, exists_eq_or_imp]

/-- A node's walk finds what is spelled in it. -/
theorem visitAst_found {before after : Dependencies} {node : Data}
    (hok : visitAst before node = .ok after) :
    Found (Spells node) before after := by
  rw [visitAst] at hok
  obtain ⟨-, hok⟩ := andThen_eq_ok.mp hok
  obtain ⟨-, hok⟩ := andThen_eq_ok.mp hok
  obtain ⟨found, hfound, hok⟩ := bind_eq_ok.mp hok
  cases found with
  | some dependency =>
    obtain rfl := Except.ok.inj hok
    have hrefers := refers_of_dependencyOf hfound
    refine .one fun d ↦ ⟨fun hd ↦ ?_, fun hd ↦ hd ▸ .here hrefers⟩
    cases hd with
    | here h => exact (Option.some.inj (dependencyOf_of_refers h hfound)).symm
    | child hnot _ _ => exact absurd hrefers (hnot dependency)
  | none =>
    have hnot (d : Dependency) : ¬ Refers node d := by
      intro h
      cases dependencyOf_of_refers h hfound
    have hchildren := Found.foldlM
      (S := fun (child : {child // child ∈ childNodes node}) ↦ Spells child.1)
      (fun child _ before after h ↦ visitAst_found h) hok
    refine hchildren.mono fun d ↦ ⟨fun ⟨child, _, hd⟩ ↦ .child hnot child.2 hd, fun hd ↦ ?_⟩
    cases hd with
    | here h => exact absurd h (hnot d)
    | child _ hchild hd => exact ⟨⟨_, hchild⟩, List.mem_attach _ _, hd⟩
termination_by sizeOf node
decreasing_by exact sizeOf_lt_of_mem_childNodes child.2

variable {j : Jsonata}

/-- A reference spelled in a string of a mapping that the walk inspects. -/
def SpelledIn (j : Jsonata) (mapping : Data) (d : Dependency) : Prop :=
  ∃ text tree, Occurs text mapping ∧ isOutputMapping text = true ∧
    j.ast (toProcessExpression text) = .ok tree ∧ Spells tree d

theorem inspectString_found {text : String} (hok : inspectString j before text = .ok after) :
    Found (SpelledIn j (.string text)) before after := by
  unfold inspectString at hok
  split at hok
  · next hmapping =>
    obtain ⟨tree, htree, hok⟩ := bind_eq_ok.mp hok
    refine (visitAst_found hok).mono fun d ↦ ⟨fun hd ↦ ⟨text, tree, .here, hmapping, htree, hd⟩, ?_⟩
    rintro ⟨_, tree', ⟨⟩, _, htree', hd⟩
    obtain rfl := Except.ok.inj (htree.symm.trans htree')
    exact hd
  · next hmapping =>
    obtain rfl := Except.ok.inj hok
    refine .none fun d hd ↦ ?_
    obtain ⟨_, _, ⟨⟩, hmapping', _⟩ := hd
    exact hmapping hmapping'

/-- A mapping's inspection finds what is spelled in its strings. -/
theorem inspectMapping_found {before after : Dependencies} {mapping : Data}
    (hok : inspectMapping j before mapping = .ok after) :
    Found (SpelledIn j mapping) before after := by
  induction before, mapping using inspectMapping.induct generalizing after with
  | case1 before text =>
    rw [inspectMapping] at hok
    exact inspectString_found hok
  | case2 before items ih =>
    rw [inspectMapping] at hok
    have hitems := Found.foldlM
      (S := fun (item : {item // item ∈ items}) ↦ SpelledIn j item.1)
      (fun item _ before after h ↦ ih before item h) hok
    refine hitems.mono fun d ↦ ⟨?_, ?_⟩
    · rintro ⟨item, _, text, tree, hoccurs, hd⟩
      exact ⟨text, tree, .item item.2 hoccurs, hd⟩
    · rintro ⟨text, tree, ⟨⟩, hd⟩
      next item hoccurs hitem =>
        exact ⟨⟨item, hitem⟩, List.mem_attach _ _, text, tree, hoccurs, hd⟩
  | case3 before entries ih =>
    rw [inspectMapping] at hok
    have hentries := Found.foldlM
      (S := fun (entry : {entry // entry ∈ entries}) ↦ SpelledIn j entry.1.2)
      (fun entry _ before after h ↦ ih before entry h) hok
    refine hentries.mono fun d ↦ ⟨?_, ?_⟩
    · rintro ⟨entry, _, text, tree, hoccurs, hd⟩
      exact ⟨text, tree, .entry entry.2 hoccurs, hd⟩
    · rintro ⟨text, tree, ⟨⟩, hd⟩
      next entry hoccurs hentry =>
        exact ⟨⟨entry, hentry⟩, List.mem_attach _ _, text, tree, hoccurs, hd⟩
  | case4 before literal hstring harray hobject =>
    have hliteral : inspectMapping j before literal = .ok before := by
      rw [inspectMapping]
      · rfl
      all_goals assumption
    obtain rfl := Except.ok.inj (hliteral.symm.trans hok)
    refine .none fun d hd ↦ ?_
    obtain ⟨text, _, hoccurs, _⟩ := hd
    cases hoccurs with
    | here => exact hstring text rfl
    | item _ _ => exact harray _ rfl
    | entry _ _ => exact hobject _ rfl

end

/-! ### References told apart by their texts -/

/-- A name that the texts of references can be told apart by. -/
def Plain (name : String) : Prop := '\x00' ∉ name.toList

instance (name : String) : Decidable (Plain name) :=
  inferInstanceAs (Decidable ('\x00' ∉ name.toList))

/-- A reference whose names are plain, that of its output not empty. -/
structure Dependency.IsPlain (d : Dependency) : Prop where
  processKey : Plain d.processKey
  outputName : ∀ name, d.outputName = some name → Plain name ∧ name ≠ ""

theorem toList_dependencyKey {d : Dependency} : (dependencyKey d).toList =
    d.processKey.toList ++ '\x00' :: (d.outputName.getD "").toList := by
  rw [dependencyKey, String.toList_append, String.toList_append, List.append_assoc]
  rfl

/-- A plain reference's text is that of no reference to anything else. -/
theorem eq_of_dependencyKey_eq {d e : Dependency} (hd : d.IsPlain)
    (h : dependencyKey e = dependencyKey d) :
    e.processKey = d.processKey ∧ e.outputName.getD "" = d.outputName.getD "" := by
  have houtput : '\x00' ∉ (d.outputName.getD "").toList := by
    cases hname : d.outputName with
    | none => exact List.not_mem_nil
    | some name => exact (hd.outputName name hname).1
  have hlist := congrArg String.toList h.symm
  rw [toList_dependencyKey, toList_dependencyKey] at hlist
  obtain ⟨hprocess, -, houtput'⟩ :=
    (List.append_cons_inj_of_notMem hd.processKey houtput).mp hlist
  exact ⟨String.toList_inj.mp hprocess.symm, String.toList_inj.mp houtput'.symm⟩

/-- What is returned are the references spelled, outside any other, each that is plain among them,
and no two with one text. -/
theorem findProcessOutputDependencies_eq_ok {j : Jsonata} {parts : List Data}
    {dependencies : List Dependency}
    (hok : findProcessOutputDependencies j parts = .ok dependencies) :
    (∀ d ∈ dependencies, ∃ part ∈ parts, SpelledIn j part d) ∧
      (∀ part ∈ parts, ∀ d, SpelledIn j part d → d.IsPlain → ∃ e ∈ dependencies,
        e.processKey = d.processKey ∧ e.outputName.getD "" = d.outputName.getD "") ∧
      (dependencies.map dependencyKey).Nodup := by
  obtain ⟨after, hafter, hok⟩ := bind_eq_ok.mp hok
  obtain rfl := Except.ok.inj hok
  have hfound := Found.foldlM (fun part _ before after h ↦ inspectMapping_found h) hafter
  have hspelled (p : String × Dependency) (hp : p ∈ after) :=
    (hfound.spelled p hp).resolve_left List.not_mem_nil
  refine ⟨fun d hd ↦ ?_, fun part hpart d hd hplain ↦ ?_, ?_⟩
  · obtain ⟨p, hp, rfl⟩ := List.mem_map.mp hd
    exact (hspelled p hp).1
  · obtain ⟨e, he⟩ := Option.isSome_iff_exists.mp (hfound.found d ⟨part, hpart, hd⟩)
    have hmem := mem_of_lookup he
    exact ⟨e, List.mem_map_of_mem hmem, eq_of_dependencyKey_eq hplain (hspelled _ hmem).2.symm⟩
  · have hkeys : (after.map Prod.snd).map dependencyKey = after.map Prod.fst := by
      rw [List.map_map]
      exact List.map_congr_left fun p hp ↦ (hspelled p hp).2.symm
    exact hkeys ▸ hfound.nodup List.nodup_nil

/-- `$.outputs.calculate.totalAmountPence`. -/
def totalReference : String := "$.outputs.calculate.totalAmountPence"

/-- Its syntax tree. -/
def totalTree : Data :=
  .object [("type", .string "path"), ("steps", .array
    [.object [("type", .string "variable"), ("value", .string "")],
      .object [("type", .string "name"), ("value", .string "outputs")],
      .object [("type", .string "name"), ("value", .string "calculate")],
      .object [("type", .string "name"), ("value", .string "totalAmountPence")]])]

/-- What jsonata does where every expression is that reference. -/
def totalJsonata : Jsonata where
  ast _ := .ok totalTree
  evaluate _ context _ :=
    .ok (((context.property "outputs").property "calculate").property "totalAmountPence")

theorem inspectString_totalReference : inspectString totalJsonata [] totalReference =
    .ok [("calculate\x00totalAmountPence", ⟨"calculate", some "totalAmountPence"⟩)] := by
  change visitAst [] totalTree = _
  rw [visitAst]
  rfl

theorem findProcessOutputDependencies_total :
    (∀ d ∈ [Dependency.mk "calculate" (some "totalAmountPence")],
      ∃ part ∈ [Data.string totalReference], SpelledIn totalJsonata part d) ∧
    (∀ part ∈ [Data.string totalReference], ∀ d, SpelledIn totalJsonata part d → d.IsPlain →
      ∃ e ∈ [Dependency.mk "calculate" (some "totalAmountPence")],
        e.processKey = d.processKey ∧ e.outputName.getD "" = d.outputName.getD "") ∧
    ([Dependency.mk "calculate" (some "totalAmountPence")].map dependencyKey).Nodup := by
  refine findProcessOutputDependencies_eq_ok ?_
  simp [findProcessOutputDependencies, inspectMapping, inspectString_totalReference]

end FgGas.Processes
