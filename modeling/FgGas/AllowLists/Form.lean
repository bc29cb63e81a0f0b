import FgGas.AllowLists.AllowList
import FgGas.Machine.Lines

/-!
# The form of an allow list

An allow list is edited as text, one identifier in a line
(`src/grant-admin/view-models/build-allow-list-view.js`). What is wrong with a submission is
reported line by line.
-/

namespace FgGas.AllowLists

open Machine

/-- What is submitted: the text of each field. -/
structure Form where
  sbi : String
  crn : String
  deriving DecidableEq, Repr

/-- The text of a kind. -/
def Form.of (form : Form) : IdentifierKind → String
  | .sbi => form.sbi
  | .crn => form.crn

/-- What a field is called, and the number of digits it asks for. -/
structure FieldDetails where
  name : String
  label : String
  length : ℕ

/-- `fieldDetails`. -/
def fieldDetails : IdentifierKind → FieldDetails
  | .sbi => ⟨"SBI", "Single Business Identifiers (SBIs)", 9⟩
  | .crn => ⟨"CRN", "Customer Reference Numbers (CRNs)", 10⟩

/-- A line of a field that is not blank. -/
structure Line where
  value : String
  number : ℕ
  deriving DecidableEq, Repr

/-- A line with its number, trimmed. -/
def toLine (line : List Char × ℕ) : Line := ⟨trimText (String.ofList line.1), line.2 + 1⟩

/-- The lines of a text, blank or not. -/
def allLinesIn (text : String) : List Line := (splitLines text.toList).zipIdx.map toLine

/-- `parsedLinesIn`. -/
def parsedLinesIn (text : String) : List Line := (allLinesIn text).filter (·.value ≠ "")

/-- `linesIn`. -/
def linesIn (text : String) : List String := (parsedLinesIn text).map Line.value

/-- `parseAllowListForm`, without the lines. -/
def parseAllowListForm (form : Form) : Identifiers := ⟨linesIn form.sbi, linesIn form.crn⟩

/-! ### Errors -/

/-- An error of a field, at a line. -/
structure FieldError where
  key : IdentifierKind
  line : ℕ
  message : String
  deriving DecidableEq, Repr

/-- That a line has not the digits it should have. -/
def invalidError (kind : IdentifierKind) (line : Line) : FieldError where
  key := kind
  line := line.number
  message := (fieldDetails kind).name ++ " \"" ++ line.value ++ "\" on line " ++
    toString line.number ++ " must be exactly " ++ toString (fieldDetails kind).length ++ " digits"

/-- That a line is an earlier one again. -/
def duplicateError (kind : IdentifierKind) (line : Line) (firstLine : ℕ) : FieldError where
  key := kind
  line := line.number
  message := (fieldDetails kind).name ++ " \"" ++ line.value ++ "\" on line " ++
    toString line.number ++ " is a duplicate of line " ++ toString firstLine

/-- The errors of the lines from one on, where it is known in which lines values came first. -/
def errorsFrom (kind : IdentifierKind) (problems : IdentifierProblems) :
    List (String × ℕ) → List Line → List FieldError
  | _, [] => []
  | firstLineFor, line :: lines =>
    let invalid := if line.value ∈ problems.invalid then [invalidError kind line] else []
    match firstLineFor.lookup line.value with
    | none => invalid ++
        errorsFrom kind problems ((line.value, line.number) :: firstLineFor) lines
    | some firstLine =>
      let duplicate := if line.value ∈ problems.duplicate then [duplicateError kind line firstLine]
        else []
      invalid ++ duplicate ++ errorsFrom kind problems firstLineFor lines

/-- `errorsFor`. -/
def errorsFor (kind : IdentifierKind) (lines : List Line) (problems : IdentifierProblems) :
    List FieldError :=
  errorsFrom kind problems [] lines

/-- `toAllowListFieldErrors`. -/
def toAllowListFieldErrors (form : Form) (details : Problems) : List FieldError :=
  [IdentifierKind.sbi, .crn].flatMap fun kind ↦
    errorsFor kind (parsedLinesIn (form.of kind)) (details.of kind)

/-! ### The view -/

/-- A field, as it is shown. -/
structure Field where
  key : IdentifierKind
  label : String
  value : String
  hint : String
  error : Option String
  deriving DecidableEq, Repr

/-- An entry of the error summary. -/
structure SummaryError where
  text : String
  href : String
  line : ℕ
  deriving DecidableEq, Repr

/-- The view of an allow list. -/
structure AllowListView where
  sbi : Field
  crn : Field
  errorSummary : List SummaryError
  deriving DecidableEq, Repr

/-- `messageFor`. -/
def messageFor (errors : List FieldError) (kind : IdentifierKind) : Option String :=
  (errors.find? (·.key = kind)).map FieldError.message

/-- `toField`. -/
def toField (kind : IdentifierKind) (value : String) (errors : List FieldError) : Field where
  key := kind
  label := (fieldDetails kind).label
  value := value
  hint := "One per line. " ++ toString (linesIn value).length ++ " listed."
  error := messageFor errors kind

/-- `#${key}`. -/
def hrefOf : IdentifierKind → String
  | .sbi => "#sbi"
  | .crn => "#crn"

/-- The view of what is in the fields. -/
def viewOf (values : Form) (errors : List FieldError) : AllowListView where
  sbi := toField .sbi values.sbi errors
  crn := toField .crn values.crn errors
  errorSummary := errors.map fun error ↦ ⟨error.message, hrefOf error.key, error.line⟩

/-- `identifiers.join("\n")`. -/
def textOf (identifiers : List String) : String :=
  String.ofList (joinLines (identifiers.map String.toList))

/-- The fields of an allow list. -/
def formOf (list : GrantAllowList) : Form :=
  ⟨textOf list.identifiers.sbi, textOf list.identifiers.crn⟩

/-- `buildAllowListView`, of an allow list. -/
def buildAllowListView (list : GrantAllowList) : AllowListView := viewOf (formOf list) []

/-- What is submitted of a view, as it is shown. -/
def AllowListView.form (view : AllowListView) : Form := ⟨view.sbi.value, view.crn.value⟩

/-- `buildAllowListView`, of what was submitted and refused. -/
def buildRefusedView (submitted : Form) (details : Problems) : AllowListView :=
  viewOf submitted (toAllowListFieldErrors submitted details)

end FgGas.AllowLists
