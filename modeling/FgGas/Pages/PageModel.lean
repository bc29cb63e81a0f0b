import FgGas.Pages.Actions

/-!
# Page models

A page model is a page of a definition, resolved for an agreement
(`src/agreements/services/build-agreement-page-model.js`): its components and sections, bound to
the actions of the agreement's state unless it is printed, and what describes the page.
-/

namespace FgGas.Pages

open Machine Processes Agreements

/-- A section of the document page; a condition that is absent is undefined. -/
structure SectionDefinition where
  id : Data
  title : Data
  condition : Data
  components : List Data

/-- A page of a definition; what is absent is undefined. -/
structure PageDefinition where
  title : Data
  layout : Data
  contents : Data
  print : Data
  watermarks : List (String × String)
  backLink : Data
  components : List Data
  sections : List SectionDefinition

/-- A resolved section. -/
structure Section where
  id : Data
  title : Data
  components : List Data

/-- A page model; the summary of the agreement, which goes with it, is left out. -/
structure PageModel where
  page : List (String × Data)
  components : List Data
  sections : Option (List Section)

/-- An agreement, as a page shows it. -/
structure PageAgreement where
  agreementNumber : String
  state : String
  data : Data

section
variable (o : Outside) (depth : ℕ) (context : Data)

/-- Whether a section is shown. -/
def isShown (condition : Data) (scope : Scope) : Rendered Bool :=
  match condition with
  | .undefined => return true
  | condition => resolveCondition o condition scope

/-- `resolveSection`. -/
def resolveSection (definition : SectionDefinition) : Rendered (Option Section) := do
  let scope : Scope := ⟨context, .undefined⟩
  if ← isShown o definition.condition scope then do
    let (title, components) ← Logged.both (resolveRefs o definition.title scope)
      (resolveComponents o depth definition.components context)
    return some ⟨definition.id, title, components⟩
  else return none

/-- `resolveSections`. -/
def resolveSections (sections : List SectionDefinition) : Rendered (List Section) := do
  return (← Logged.all (sections.map (resolveSection o depth context))).filterMap id

/-- `resolvePageSections`. -/
def resolvePageSections (includeSections : Bool) (sections : List SectionDefinition) :
    Rendered (List Section) :=
  if includeSections then resolveSections o depth context sections else return []

/-- `resolveWatermark`. -/
def resolveWatermark (watermarks : List (String × String)) (state : String) : Data :=
  match watermarks.lookup state with
  | some text => .object [("text", .string text)]
  | none => .undefined

/-- `omitUndefined`. -/
def omitUndefined (entries : List (String × Data)) : List (String × Data) :=
  entries.filter fun entry ↦ !entry.2.isUndefined

/-- `resolveBackLink`. -/
def resolveBackLink (backLink : Data) : Rendered Data :=
  match backLink with
  | .undefined => return .undefined
  | .object entries => do
    let (display, href) ← Logged.both
      (resolveRefs o (.object (without "href" entries)) ⟨context, .undefined⟩)
      (resolvePageHref o (field entries "href") context)
    match display with
    | .object resolved => return .object (setEntry "href" href resolved)
    | _ => Logged.lift (.error .typeError)
  | _ => Logged.lift (.error .typeError)

/-- `buildPageMetadata`. -/
def buildPageMetadata (page state : String) (definition : PageDefinition) :
    Rendered (List (String × Data)) := do
  let backLink ← resolveBackLink o context definition.backLink
  return omitUndefined [("name", .string page), ("title", definition.title),
    ("layout", definition.layout), ("contents", definition.contents), ("print", definition.print),
    ("watermark", resolveWatermark definition.watermarks state), ("backLink", backLink)]

end

/-- The components and sections of a page. -/
structure PageTree where
  components : List Data
  sections : List Section

/-- `resolvePageActions`. -/
def resolvePageActions (c : ActionContext) (tree : PageTree) : Except Failure PageTree := do
  let components ← tree.components.mapM (resolveComponentActions c false)
  let sections ← tree.sections.mapM fun s ↦ do
    return { s with components := ← s.components.mapM (resolveComponentActions c false) }
  return ⟨components, sections⟩

/-- `removePageActionNodes`. -/
def removePageActionNodes (tree : PageTree) : Except Failure PageTree := do
  let components ← removeActionNodes tree.components
  let sections ← tree.sections.mapM fun s ↦ do
    return { s with components := ← removeActionNodes s.components }
  return ⟨components, sections⟩

/-- `withoutPageActions`. -/
def withoutPageActions (tree : PageTree) (removeActions : Bool) : Except Failure PageTree :=
  if removeActions then removePageActionNodes tree else return tree

/-- What a page is resolved against. -/
def pageContext (agreement : PageAgreement) (templates outputs : Data) : Data :=
  .object [("agreement", agreement.data), ("definition", .object [("templates", templates)]),
    ("outputs", outputs)]

/-- The actions of the agreement's state. -/
def actionContext {P : Type} (d : PageLifecycle P) (agreement : PageAgreement) : ActionContext where
  agreementNumber := agreement.agreementNumber
  resolveAction := d.resolveAction agreement.state

/-- Which page is built, and how. -/
structure PageOptions where
  page : String
  includeSections : Bool
  removeActions : Bool

section
variable (o : Outside) (depth : ℕ) (d : PageLifecycle PageDefinition) (templates : Data)

/-- What `buildPageModel` tries. -/
def tryPageModel (agreement : PageAgreement) (definition : PageDefinition) (outputs : Data)
    (options : PageOptions) : Rendered PageModel := do
  let context := pageContext agreement templates outputs
  let (components, sections, page) ← Logged.both
    (resolveComponents o depth definition.components context) <| Logged.both
      (resolvePageSections o depth context options.includeSections definition.sections)
      (buildPageMetadata o context options.page agreement.state definition)
  let bound ← Logged.lift (resolvePageActions (actionContext d agreement) ⟨components, sections⟩)
  let resolvedTree ← Logged.lift (withoutPageActions bound options.removeActions)
  return ⟨page, resolvedTree.components,
    if options.includeSections then some resolvedTree.sections else none⟩

/-- The error that `buildPageModel` throws for one that it catches. -/
def pageFailure (page agreementNumber : String) : Failure → Failure
  | .unfinished => .unfinished
  | _ => .error ("Unable to build page model \"" ++ page ++ "\" for agreement \"" ++
    agreementNumber ++ "\"")

/-- `buildPageModel`. -/
def buildPageModel (agreement : PageAgreement) (outputs : Data) (options : PageOptions) :
    Rendered PageModel :=
  match d.pages.lookup options.page with
  | none => Logged.lift <| .error <| .error <|
    "Unknown page \"" ++ options.page ++ "\" for agreement code \"" ++ d.code ++ "\""
  | some definition =>
    (tryPageModel o depth d templates agreement definition outputs options).mapError
      (pageFailure options.page agreement.agreementNumber)

/-- `assertSupportedAgreementPageMode`. -/
def assertSupportedAgreementPageMode (mode : String) : Except Failure Unit :=
  require (mode ∈ ["view", "print"]) (.error ("Unsupported mode \"" ++ mode ++ "\""))

/-- `buildAgreementPageModel`; what the processes of the page put out is given. -/
def buildAgreementPageModel (outputs : Except Failure Data) (agreement : PageAgreement)
    (page mode : String) : Rendered PageModel := do
  Logged.lift (assertSupportedAgreementPageMode mode)
  Logged.lift <| (d.assertPageAllowed page agreement.state).mapError fun refusal ↦
    .error (refusalMessage refusal)
  let outputs ← Logged.lift outputs
  buildPageModel o depth d templates agreement outputs ⟨page, false, mode = "print"⟩

/-- `buildAgreementDocumentPageModel`. -/
def buildAgreementDocumentPageModel (outputs : Except Failure Data) (agreement : PageAgreement) :
    Rendered PageModel := do
  let outputs ← Logged.lift outputs
  buildPageModel o depth d templates agreement outputs ⟨"document", true, false⟩

end

end FgGas.Pages
