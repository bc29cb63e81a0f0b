import FgGas.Processes.CreationValues

/-!
# What mappings read of outputs

What an evaluation reads of the outputs of processes is told by what settles its value: among other
outputs in which some references find the same, it comes to the same. The walk over an expression
finds the references that are spelled in it, and only these are checked. So a mapping that reads
outputs only where it spells references reads, in every run of an accepted definition, outputs that
are there. One that reads them elsewhere may read outputs of a process that has not run yet.
-/

namespace FgGas.Processes

open Machine

/-- What a reference finds among the outputs of processes. -/
def Dependency.find (d : Dependency) (outputs : Outputs) : Option Data :=
  match d.outputName with
  | none => (outputs.lookup d.processKey).map .object
  | some name => (outputs.lookup d.processKey).bind (·.lookup name)

/-- A context with other outputs. -/
def Data.withOutputs (context : Data) (outputs : Outputs) : Data :=
  .object (setEntry "outputs" (outputsData outputs) context.entries)

/-- What the string comes to among the outputs is settled by what some references find: it comes to
the same among any others in which they find the same. -/
def SettledBy (j : Jsonata) (text : String) (context row : Data) (outputs : Outputs)
    (reads : Set Dependency) : Prop :=
  ∀ others : Outputs, (∀ dependency ∈ reads, dependency.find others = dependency.find outputs) →
    j.evaluate (toProcessExpression text) (context.withOutputs others) row =
      j.evaluate (toProcessExpression text) (context.withOutputs outputs) row

/-- The references that are looked for in a string, those whose text stands for them alone. -/
def spelledReferences (j : Jsonata) (text : String) : Set Dependency :=
  { dependency | SpelledIn j (.string text) dependency ∧ dependency.IsPlain }

/-- Whatever the string is evaluated against, what it comes to is settled by the references that
are spelled in it. -/
def ReadsAsSpelled (j : Jsonata) (text : String) : Prop :=
  ∀ context row outputs, SettledBy j text context row outputs (spelledReferences j text)

/-- An evaluation of a run reads outputs that are there: it has the outputs of the processes that
have run before its own, those under the names they declare, for the values of a transition before
its first handler; and what it comes to is settled by references to declared outputs among them, or
to all outputs of a process where it names no single one. -/
def ReadsThere (j : Jsonata) (d : Definition) (location : ResolvedLocation) (reader : Reader)
    (mapping : Data) (outputs : Outputs) (e : Evaluation) : Prop :=
  ∃ before, Placed d location mapping before reader ∧
    OutputsOf d.processDefinitions before outputs ∧
    e.context.withOutputs outputs = e.context ∧
    ∃ reads : Set Dependency,
      (∀ dependency ∈ reads, Allowed d.processDefinitions before dependency ∧
        (dependency.find outputs).isSome ∧
        (dependency.outputName = none → SpelledIn j (.string e.mapping) dependency)) ∧
      SettledBy j e.mapping e.context e.row outputs reads

section
variable {outside : Outside} {d : Definition}

theorem withOutputs_eq_self {context : Data} {outputs : Outputs}
    (h : context.property "outputs" = outputsData outputs) :
    context.withOutputs outputs = context := by
  cases context with
  | object entries =>
    refine congrArg Data.object (setEntry_of_lookup ?_)
    cases hlookup : entries.lookup "outputs" with
    | none => rw [Data.property, hlookup] at h; cases h
    | some value => rw [Data.property, hlookup] at h; exact hlookup.trans (congrArg some h)
  | _ => cases h

/-- An allowed reference finds something among the outputs of the processes before. -/
theorem Allowed.isSome_find {before : List String} {outputs : Outputs} {dependency : Dependency}
    (h : Allowed d.processDefinitions before dependency) (hplain : dependency.IsPlain)
    (houtputs : OutputsOf d.processDefinitions before outputs) :
    (dependency.find outputs).isSome := by
  obtain ⟨output, hlookup, hnames⟩ := houtputs.exists_of_allowed h
  unfold Dependency.find
  split
  · rw [hlookup]
    rfl
  · next name hname =>
    obtain ⟨value, hvalue⟩ := hnames name hname (hplain.outputName name hname).2
    rw [hlookup, Option.bind_some, hvalue]
    rfl

end

/-! ### A string that reads as it spells -/

theorem property_withOutputs (context : Data) (outputs : Outputs) :
    (context.withOutputs outputs).property "outputs" = outputsData outputs := by
  rw [Data.withOutputs, Data.property, lookup_setEntry, if_pos (beq_self_eq_true _)]
  rfl

theorem property_outputsData (outputs : Outputs) (processKey : String) :
    (outputsData outputs).property processKey =
      ((outputs.lookup processKey).map .object).getD .undefined := by
  change ((outputs.map fun p ↦ (p.1, Data.object p.2)).lookup processKey).getD .undefined = _
  congr 1
  induction outputs with
  | nil => rfl
  | cons p outputs ih =>
    rw [List.map_cons, lookup_cons_eq, lookup_cons_eq]
    split
    · rfl
    · exact ih

/-- The value of a path to an output is what the reference finds. -/
theorem property_find (context : Data) (outputs : Outputs) (processKey name : String) :
    (((context.withOutputs outputs).property "outputs").property processKey).property name =
      ((Dependency.mk processKey (some name)).find outputs).getD .undefined := by
  rw [property_withOutputs, property_outputsData, Dependency.find]
  cases outputs.lookup processKey <;> rfl

theorem totalReference_readsAsSpelled : ReadsAsSpelled totalJsonata totalReference := by
  intro context row outputs others hothers
  have hfind := hothers ⟨"calculate", some "totalAmountPence"⟩
    ⟨⟨totalReference, totalTree, .here, by decide, rfl, totalTree_spells⟩, total_isPlain⟩
  change Except.ok _ = Except.ok _
  rw [property_find, property_find, hfind]

/-- A reference to the total that does not start at the root. -/
def relativeReference : String := "jsonata:outputs.calculate.totalAmountPence"

/-- Its syntax tree. -/
def relativeTree : Data :=
  .object [("type", .string "path"), ("steps", .array
    [.object [("type", .string "name"), ("value", .string "outputs")],
      .object [("type", .string "name"), ("value", .string "calculate")],
      .object [("type", .string "name"), ("value", .string "totalAmountPence")]])]

/-- What jsonata does where every expression is that reference. -/
def relativeJsonata : Jsonata where
  ast _ := .ok relativeTree
  evaluate := totalJsonata.evaluate

/-- The total is read before it is calculated. -/
def hastyWoodland : Definition :=
  { woodland with
    processDefinitions :=
      [("schedule", .endpoint [] (.object [("total", .string relativeReference)])
          [("annualAmountPence", .number 100)]),
        ("calculate", .endpoint [] (.object []) [("totalAmountPence", .number 500)])]
    create := { woodland.create with processes := ["schedule", "calculate"] } }

def hastyOutside : Outside := { woodlandOutside with jsonata := relativeJsonata }

/-- A node that refers to nothing, nor any of its children, is walked and nothing is found. -/
theorem visitAst_eq_self {dependencies : Dependencies} {node : Data}
    (hhidden : rejectHiddenOutputAccess node = .ok ())
    (hindirect : rejectIndirectOutputAccess node = .ok ()) (hnone : dependencyOf node = .ok none)
    (hchildren : ∀ child ∈ childNodes node, visitAst dependencies child = .ok dependencies) :
    visitAst dependencies node = .ok dependencies := by
  have hwalk : ∀ children : List {child // child ∈ childNodes node},
      children.foldlM (fun found child ↦ visitAst found child.1) dependencies =
        .ok dependencies := by
    intro children
    induction children with
    | nil => rfl
    | cons child children ih =>
      rw [List.foldlM_cons, hchildren child.1 child.2]
      exact ih
  rw [visitAst, hhidden, hindirect, hnone]
  exact hwalk _

/-- A name has nothing under it to walk. -/
theorem visitAst_name (dependencies : Dependencies) (name : String) :
    visitAst dependencies (.object [("type", .string "name"), ("value", .string name)]) =
      .ok dependencies := by
  rw [visitAst]
  rfl

theorem visitAst_relativeTree (dependencies : Dependencies) :
    visitAst dependencies relativeTree = .ok dependencies := by
  have hnames : childNodes relativeTree =
      ["outputs", "calculate", "totalAmountPence"].map fun name ↦
        .object [("type", .string "name"), ("value", .string name)] := rfl
  refine visitAst_eq_self rfl rfl rfl fun child hchild ↦ ?_
  rw [hnames] at hchild
  obtain ⟨name, -, rfl⟩ := List.mem_map.mp hchild
  exact visitAst_name dependencies name

theorem inspectString_relativeReference (dependencies : Dependencies) :
    inspectString relativeJsonata dependencies relativeReference = .ok dependencies := by
  have hmapping : isOutputMapping relativeReference = true := by decide
  unfold inspectString
  rw [if_pos hmapping]
  exact bind_eq_ok.mpr ⟨relativeTree, rfl, visitAst_relativeTree dependencies⟩

theorem hasty_schedule : findProcessOutputDependencies relativeJsonata
    (ProcessDefinition.endpoint [] (.object [("total", .string relativeReference)])
      [("annualAmountPence", .number 100)]).parts = .ok [] := by
  simp [findProcessOutputDependencies, ProcessDefinition.parts, inspectMapping,
    inspectString_relativeReference]

theorem hasty_calculate : findProcessOutputDependencies relativeJsonata
    (ProcessDefinition.endpoint [] (.object []) [("totalAmountPence", .number 500)]).parts =
      .ok [] := by
  simp [findProcessOutputDependencies, ProcessDefinition.parts, inspectMapping]
  rfl

theorem hasty_accepted : Accepted hastyOutside hastyWoodland where
  creation := by
    simp [compileCreationMappings, compileCreationMapping, hastyWoodland, woodland,
      validateProcessMapping, isCollectionMapping, assertKnownCreationValueFields,
      findAgreementProcessOutputSchema, processOutputs, findUnknownMappingField]
    rfl
  processes := by
    have hstring : validateStringMapping relativeJsonata relativeReference = .ok () := rfl
    simp [compileAgreementProcesses, compileTransitionValueMappings, transitionEntries,
      hastyWoodland, woodland, hastyOutside, woodlandOutside,
      compileProcessDefinitions, compileProcess, compileEndpoint, assertValidMapping,
      validateProcessMapping, isCollectionMapping, hstring, assertKnownOutputMappings,
      assertKnownMappingFields, findAgreementProcessOutputSchema, processOutputs,
      findUnknownMappingField, hasty_calculate, hasty_schedule, validateSequences,
      collectSequences, validateSequence, validateProcesses, validateProcess,
      requireProcessDefinition, lookup_cons_eq, bind, Except.bind]
    rfl

/-- What the first process hands to jsonata. -/
def hastyEvaluation : Evaluation where
  mapping := relativeReference
  context := .object [("application", .object []),
    ("execution", .object [("correlationId", .string "correlation-1"),
      ("location", .string "create"), ("target", .string "offered")]),
    ("outputs", outputsData [])]
  row := .undefined

/-- The total is not there yet, and the creation fails. -/
theorem hasty_run : runLocation hastyOutside hastyWoodland .create woodlandContext =
    ⟨[.evaluated (.process "schedule") (.object [("total", .string relativeReference)]) []
        hastyEvaluation],
      .error "Agreement Process \"schedule\" request mapping failed"⟩ := by
  simp [runLocation, resolveLocation, hastyWoodland, woodland, hastyOutside, woodlandOutside,
    runSequence, runProcesses, runProcess, resolveWhenPending, execute, executeEndpoint,
    resolveProcessMapping, resolveMapping, isCollectionMapping, mapOutputEntry, bind,
    Logged.andThen, pure, Logged.lift, lookup_cons_eq]
  constructor <;> rfl

end FgGas.Processes
