import FgGas.Machine.NumberText
import FgGas.Machine.Scan
import FgGas.Processes.Mapping

/-!
# References in the content of pages

The content of a page is data whose strings may be references, expressions or text with references
in it (`src/common/resolve-refs.js`). A string that is one reference is the value it points at; in
a text each reference is replaced by the text of its value.
-/

namespace FgGas.Pages

open Machine Processes

/-- What a page is rendered with: jsonata, the digits a number is written with, and what a value
is in a format. -/
structure Outside where
  jsonata : Jsonata
  digits : ℚ → Digits
  applyFormat : Data → Data → Except String Data

/-- Why there is no page: a reference that the data does not answer, another error, a value the
code cannot work on, or templates that are nested deeper than is looked. -/
inductive Failure
  | unresolved (reference : String)
  | error (message : String)
  | typeError
  | unfinished
  deriving DecidableEq, Repr

/-- What content is resolved against: the row is undefined outside of repeated content. -/
structure Scope where
  context : Data
  row : Data

/-- Something resolved, with what was handed to jsonata for it: each expression, as jsonata is given
it, and what it is evaluated against. -/
abbrev Rendered (α : Type) := Logged Evaluation Failure α

/-! ### The patterns -/

/-- Where in `/[$@]\.[A-Za-z_$][\w$]*(?:\.[A-Za-z_$][\w$]*|\[\d+\])*/` a reference stands. -/
inductive RefPosition
  | mark
  | dot
  | start
  | name
  | opened
  | index
  | closed
  deriving DecidableEq, Repr

/-- The position after one more character. -/
def RefPosition.next (position : RefPosition) (c : Char) : Option RefPosition :=
  let step := if c = '.' then some start else if c = '[' then some opened else none
  match position with
  | mark => if c = '$' || c = '@' then some dot else none
  | dot => if c = '.' then some start else none
  | start => if isNameStart c then some name else none
  | name => if isNameCharacter c then some name else step
  | opened => if c.isDigit then some index else none
  | index => if c.isDigit then some index else if c = ']' then some closed else none
  | closed => step

/-- `refPattern`. -/
def refPattern : Automaton RefPosition Char where
  next := RefPosition.next
  accepts position := position = .name || position = .closed

/-- The text and the references in it. -/
def pieces (value : String) : List (Piece Char) := refPattern.cut .mark value.toList

/-- `findRefs`. -/
def findRefs (value : String) : List String := (Piece.words (pieces value)).map String.ofList

/-- `value.replace(refPattern, …)`. -/
def replaceRefs (value : String) (text : String → String) : String :=
  String.ofList <| (pieces value).flatMap fun
    | .word symbols => (text (String.ofList symbols)).toList
    | .symbol c => [c]

/-! ### Values -/

/-- `value === undefined`, or the value. -/
def requireResolved (resolved : Data) (reference : String) : Except Failure Data := do
  require (!resolved.isUndefined) (.unresolved reference)
  return resolved

/-- `Boolean(value)`. -/
def isTruthyValue : Data → Bool
  | .undefined => false
  | .null => false
  | .boolean value => value
  | .number value => value ≠ 0
  | .string value => value ≠ ""
  | .array _ => true
  | .object _ => true

/-- `isTruthy`. -/
def isTruthy : Data → Bool
  | .array [] => false
  | .array (item :: _) => isTruthyValue item
  | value => isTruthyValue value

section
variable (o : Outside)

/-- `toText`, of a value that a reference points at. -/
def toText (reference : String) (value : Data) : Except Failure String :=
  match value with
  | .null => .ok ""
  | .array items => do
    return " ".intercalate (← items.attach.mapM fun item ↦ toText reference item.1)
  | .object _ => .error <| .error <|
    "Reference \"" ++ reference ++ "\" resolves to an object and cannot be used in text"
  | .undefined => .ok "undefined"
  | .boolean value => .ok (if value then "true" else "false")
  | .number value => .ok (String.ofList (numberText o.digits value))
  | .string value => .ok value
termination_by sizeOf value
decreasing_by
  have := List.sizeOf_lt_of_mem item.2
  simp only [Data.array.sizeOf_spec]
  omega

/-- `jsonata(…).evaluate(…)`: all that is handed to jsonata is handed here. -/
def handOver (e : Evaluation) : Rendered Data := do
  Logged.note e
  let evaluated := do
    discard (o.jsonata.ast e.mapping)
    o.jsonata.evaluate e.mapping e.context e.row
  Logged.lift (evaluated.mapError .error)

/-- `toExpression`. -/
def toExpression (expression : List Char) : String := String.ofList (replaceRows expression)

/-- `evaluate`. -/
def evaluate (expression : List Char) (scope : Scope) : Rendered Data :=
  handOver o ⟨toExpression expression, scope.context, scope.row⟩

/-- An expression without its prefix. -/
def withoutPrefix (value : String) : List Char := value.toList.drop jsonataPrefix.length

/-- The text of a reference. -/
def resolveText (scope : Scope) (reference : String) : Rendered String := do
  let resolved ← evaluate o reference.toList scope
  Logged.lift do toText o reference (← requireResolved resolved reference)

/-- `interpolate`. Of equal references the map keeps the text of the last. -/
def interpolate (value : String) (scope : Scope) : Rendered String := do
  let refs := findRefs value
  let resolved ← Logged.all (refs.map (resolveText o scope))
  let text := (refs.zip resolved).reverse
  return replaceRefs value fun ref ↦ (text.lookup ref).getD "undefined"

/-- `resolveString`. -/
def resolveString (value : String) (scope : Scope) : Rendered Data :=
  if isExpression value then do
    let resolved ← evaluate o (withoutPrefix value) scope
    Logged.lift (requireResolved resolved value)
  else
    let refs := findRefs value
    if refs = [] then return .string value
    else if refs = [value] then do
      let resolved ← evaluate o value.toList scope
      Logged.lift (requireResolved resolved value)
    else do return .string (← interpolate o value scope)

/-- `resolveRefs`. -/
def resolveRefs (value : Data) (scope : Scope) : Rendered Data :=
  match value with
  | .string text => resolveString o text scope
  | .array items => do
    return .array (← Logged.all <| items.attach.map fun item ↦ resolveRefs item.1 scope)
  | .object entries => do
    return .object <| ← Logged.all <| entries.attach.map fun entry ↦ do
      return (entry.1.1, ← resolveRefs entry.1.2 scope)
  | literal => return literal
termination_by sizeOf value
decreasing_by
  · have := List.sizeOf_lt_of_mem item.2
    simp only [Data.array.sizeOf_spec]
    omega
  · exact sizeOf_lt_of_mem entry.2

/-- `resolveCondition`. -/
def resolveCondition (condition : Data) (scope : Scope) : Rendered Bool :=
  match condition with
  | .string condition => do
    let expression := if isExpression condition then withoutPrefix condition else condition.toList
    return isTruthy (← evaluate o expression scope)
  | _ => Logged.lift (.error .typeError)

end

/-! ### What a string is resolved to -/

section
variable {o : Outside} {scope : Scope} {value reference : String} {resolved : Data}

/-- The value a reference points at. -/
structure PointsAt (o : Outside) (scope : Scope) (reference : String) (value : Data) : Prop where
  evaluated : (evaluate o reference.toList scope).result = .ok value
  resolved : value.isUndefined = false

/-- The text a reference stands for. -/
def ReadsAs (o : Outside) (scope : Scope) (reference text : String) : Prop :=
  ∃ value, PointsAt o scope reference value ∧ toText o reference value = .ok text

theorem requireResolved_eq_ok {value : Data} : requireResolved value reference = .ok resolved ↔
    value.isUndefined = false ∧ value = resolved := by
  rw [requireResolved, andThen_eq_ok, require_eq_ok, Bool.not_eq_true']
  exact and_congr_right fun _ ↦ ⟨Except.ok.inj, congrArg _⟩

theorem resolveReference_eq_ok : (do
      let found ← evaluate o reference.toList scope
      Logged.lift (requireResolved found reference)).result = .ok resolved ↔
    PointsAt o scope reference resolved := by
  rw [Logged.result_bind, bind_eq_ok]
  constructor
  · rintro ⟨found, hfound, h⟩
    obtain ⟨hresolved, rfl⟩ := requireResolved_eq_ok.mp h
    exact ⟨hfound, hresolved⟩
  · exact fun h ↦ ⟨resolved, h.evaluated, requireResolved_eq_ok.mpr ⟨h.resolved, rfl⟩⟩

theorem resolveText_eq_ok {text : String} :
    (resolveText o scope reference).result = .ok text ↔ ReadsAs o scope reference text := by
  rw [resolveText, Logged.result_bind, bind_eq_ok]
  constructor
  · rintro ⟨found, hfound, h⟩
    obtain ⟨resolved, hresolved, htext⟩ := bind_eq_ok.mp h
    obtain ⟨hdefined, rfl⟩ := requireResolved_eq_ok.mp hresolved
    exact ⟨found, ⟨hfound, hdefined⟩, htext⟩
  · rintro ⟨found, hfound, htext⟩
    refine ⟨found, hfound.evaluated, bind_eq_ok.mpr ⟨found, ?_, htext⟩⟩
    exact requireResolved_eq_ok.mpr ⟨hfound.resolved, rfl⟩

theorem cuts_pieces (value : String) : refPattern.Cuts .mark value.toList (pieces value) :=
  Automaton.cuts_cut rfl _

/-- Texts that the references determine are found under them. -/
theorem replaceRefs_zip {f : String → String} :
    replaceRefs value (fun ref ↦
        (((findRefs value).zip ((findRefs value).map f)).reverse.lookup ref).getD "undefined") =
      String.ofList (Piece.fill (pieces value) (((findRefs value).map f).map String.toList)) := by
  have hlookup (refs : List String) (ref : String) (href : ref ∈ refs) :
      ((refs.zip (refs.map f)).reverse.lookup ref).getD "undefined" = f ref := by
    have hfound : ref ∈ (refs.zip (refs.map f)).reverse.map Prod.fst := by
      rw [List.map_reverse, List.mem_reverse, List.map_fst_zip (by rw [List.length_map])]
      exact href
    obtain ⟨text, htext, hmem⟩ := exists_lookup hfound
    rw [htext, Option.getD_some]
    have hzip : refs.zip (refs.map f) = refs.map fun ref ↦ (ref, f ref) := by
      rw [← List.zip_map', List.map_id']
    rw [List.mem_reverse, hzip] at hmem
    obtain ⟨ref', -, hpair⟩ := List.mem_map.mp hmem
    obtain ⟨rfl, rfl⟩ := Prod.mk.inj hpair
    rfl
  have htexts : ((findRefs value).map f).map String.toList =
      (Piece.words (pieces value)).map fun symbols ↦ (f (String.ofList symbols)).toList := by
    rw [findRefs, List.map_map, List.map_map]
    rfl
  rw [replaceRefs, htexts, Piece.fill_map]
  congr 1
  refine List.flatMap_congr fun piece hpiece ↦ ?_
  cases piece with
  | symbol c => rfl
  | word symbols =>
    have href := List.mem_map_of_mem (f := String.ofList) (Piece.mem_words hpiece)
    exact congrArg String.toList (hlookup _ _ href)

/-- A text is filled in, reference by reference. -/
theorem interpolate_eq_ok {text : String} : (interpolate o value scope).result = .ok text ↔
    ∃ texts, List.Forall₂ (ReadsAs o scope) (findRefs value) texts ∧
      text = String.ofList (Piece.fill (pieces value) (texts.map String.toList)) := by
  have hreplace {texts : List String}
      (h : List.Forall₂ (ReadsAs o scope) (findRefs value) texts) :
      replaceRefs value (fun ref ↦
          (((findRefs value).zip texts).reverse.lookup ref).getD "undefined") =
        String.ofList (Piece.fill (pieces value) (texts.map String.toList)) := by
    have htexts : texts = (findRefs value).map fun ref ↦
        ((resolveText o scope ref).result.toOption).getD "" := by
      refine (congrFun (congrFun List.forall₂_eq_eq_eq _) _).mp ?_
      refine List.forall₂_map_right_iff.mpr (h.flip.imp fun text ref htext ↦ ?_)
      rw [resolveText_eq_ok.mpr htext]
      rfl
    rw [htexts]
    exact replaceRefs_zip
  rw [interpolate, Logged.result_bind, bind_eq_ok]
  constructor
  · rintro ⟨texts, htexts, h⟩
    rw [Logged.all_eq_ok, List.forall₂_map_left_iff] at htexts
    have htexts := htexts.imp fun _ _ ↦ resolveText_eq_ok.mp
    exact ⟨texts, htexts, (Except.ok.inj h).symm.trans (hreplace htexts)⟩
  · rintro ⟨texts, htexts, rfl⟩
    refine ⟨texts, ?_, congrArg _ (hreplace htexts)⟩
    rw [Logged.all_eq_ok, List.forall₂_map_left_iff]
    exact htexts.imp fun _ _ ↦ resolveText_eq_ok.mpr

theorem findRefs_eq_self (h : findRefs value = [value]) : pieces value = [.word value.toList] := by
  refine (cuts_pieces value).eq_word ?_
  have hwords := congrArg (List.map String.toList) h
  rw [findRefs, List.map_map] at hwords
  rwa [show String.toList ∘ String.ofList = id from funext fun _ ↦ String.toList_ofList,
    List.map_id] at hwords

theorem findRefs_of_word (h : pieces value = [.word value.toList]) : findRefs value = [value] := by
  rw [findRefs, h, Piece.words, Piece.words, List.map_singleton, String.ofList_toList]

/-- A string that is no expression is read in one way: it is a reference, and resolved to the
value that it points at, or a text, each reference of which is replaced by the text of its value
and the rest of which stays as it is. -/
theorem resolveString_reads (h : isExpression value = false) :
    (resolveString o value scope).result = .ok resolved ↔
      ∃ parts, refPattern.Cuts .mark value.toList parts ∧
        (parts = [.word value.toList] ∧ PointsAt o scope value resolved ∨
          parts ≠ [.word value.toList] ∧ ∃ texts : List String,
            List.Forall₂ (ReadsAs o scope) ((Piece.words parts).map String.ofList) texts ∧
              resolved = .string (String.ofList (Piece.fill parts (texts.map String.toList)))) := by
  have hcut : (∃ parts, refPattern.Cuts .mark value.toList parts ∧
        (parts = [.word value.toList] ∧ PointsAt o scope value resolved ∨
          parts ≠ [.word value.toList] ∧ ∃ texts : List String,
            List.Forall₂ (ReadsAs o scope) ((Piece.words parts).map String.ofList) texts ∧
              resolved = .string (String.ofList (Piece.fill parts (texts.map String.toList))))) ↔
      (pieces value = [.word value.toList] ∧ PointsAt o scope value resolved ∨
        pieces value ≠ [.word value.toList] ∧ ∃ texts : List String,
          List.Forall₂ (ReadsAs o scope) (findRefs value) texts ∧
            resolved = .string (String.ofList (Piece.fill (pieces value)
              (texts.map String.toList)))) := by
    constructor
    · rintro ⟨parts, hparts, h⟩
      rwa [hparts.eq_cut] at h
    · exact fun h ↦ ⟨pieces value, cuts_pieces value, h⟩
  rw [hcut, resolveString, if_neg (Bool.eq_false_iff.mp h)]
  by_cases hnone : findRefs value = []
  · have hne : pieces value ≠ [.word value.toList] := fun hword ↦ by
      rw [findRefs_of_word hword] at hnone
      cases hnone
    have hwords : Piece.words (pieces value) = [] := List.map_eq_nil_iff.mp hnone
    have hfill := (Piece.fill_words (pieces value)).trans (cuts_pieces value).flatten
    rw [hwords] at hfill
    rw [if_pos hnone, hnone]
    constructor
    · intro h
      obtain rfl := Except.ok.inj h
      refine .inr ⟨hne, [], .nil, ?_⟩
      rw [List.map_nil, hfill, String.ofList_toList]
    · rintro (⟨hword, -⟩ | ⟨-, texts, htexts, rfl⟩)
      · exact absurd hword hne
      · cases htexts
        rw [List.map_nil, hfill, String.ofList_toList]
        rfl
  · rw [if_neg hnone]
    by_cases hself : findRefs value = [value]
    · rw [if_pos hself, resolveReference_eq_ok]
      have hword := findRefs_eq_self hself
      exact ⟨fun h ↦ .inl ⟨hword, h⟩, fun h ↦ h.elim And.right fun h ↦ absurd hword h.1⟩
    · rw [if_neg hself, Logged.result_bind, bind_eq_ok]
      have hne : pieces value ≠ [.word value.toList] := fun hword ↦ hself (findRefs_of_word hword)
      constructor
      · rintro ⟨text, htext, h⟩
        obtain ⟨texts, htexts, rfl⟩ := interpolate_eq_ok.mp htext
        exact .inr ⟨hne, texts, htexts, (Except.ok.inj h).symm⟩
      · rintro (⟨hword, -⟩ | ⟨-, texts, htexts, rfl⟩)
        · exact absurd hword hne
        · exact ⟨_, interpolate_eq_ok.mpr ⟨texts, htexts, rfl⟩, rfl⟩

end

/-! ### Texts without references -/

section
variable {o : Outside} {scope : Scope} {value : String}

/-- A text without a mark has no references. -/
theorem pieces_of_unmarked (h : ∀ c ∈ value.toList, c ≠ '$' ∧ c ≠ '@') :
    pieces value = value.toList.map .symbol := by
  unfold pieces
  generalize value.toList = text at h ⊢
  induction text with
  | nil => exact Automaton.cut_nil
  | cons c text ih =>
    have hnext : refPattern.next .mark c = none := by
      obtain ⟨hdollar, hat⟩ := h c List.mem_cons_self
      simp [refPattern, RefPosition.next, hdollar, hat]
    have hlongest (c' : Char) (word rest : List Char) :
        refPattern.longest .mark (c :: text) ≠ some (c' :: word, rest) := by
      rw [Automaton.longest, hnext]
      simp [refPattern]
    rw [Automaton.cut_symbol hlongest, ih fun c' hc' ↦ h c' (List.mem_cons_of_mem _ hc')]
    rfl

theorem findRefs_of_unmarked (h : ∀ c ∈ value.toList, c ≠ '$' ∧ c ≠ '@') : findRefs value = [] := by
  rw [findRefs, pieces_of_unmarked h]
  generalize value.toList = text
  induction text with
  | nil => rfl
  | cons c text ih => exact ih

/-- A text without a mark stays as it is. -/
theorem resolveRefs_of_unmarked (hexpression : isExpression value = false)
    (h : ∀ c ∈ value.toList, c ≠ '$' ∧ c ≠ '@') :
    resolveRefs o (.string value) scope = pure (.string value) := by
  rw [resolveRefs, resolveString, hexpression, findRefs_of_unmarked h]
  rfl

end

/-- What a page is rendered with where every reference is answered by one text. -/
def constantOutside (text : String) : Outside where
  jsonata := ⟨fun _ ↦ .ok .null, fun _ _ _ ↦ .ok (.string text)⟩
  digits _ := ⟨0, 0⟩
  applyFormat value _ := .ok value

theorem resolveString_due : (resolveString (constantOutside "12") "£$.due"
    ⟨.object [("due", .string "12")], .undefined⟩).result = .ok (.string "£12") := by
  have hcuts := cuts_pieces "£$.due"
  have hpieces : pieces "£$.due" = [.symbol '£', .word "$.due".toList] := by
    refine (Automaton.cut_symbol fun _ _ _ h ↦ ?_).trans ?_
    · exact absurd (show none = some _ from h) (by simp)
    · exact congrArg _ ((Automaton.cut_word rfl).trans (congrArg _ Automaton.cut_nil))
  rw [hpieces] at hcuts
  refine (resolveString_reads (by decide)).mpr ⟨_, hcuts, .inr ⟨fun h ↦ ?_, ["12"], ?_, rfl⟩⟩
  · exact absurd (congrArg List.length h) (by decide)
  · exact .cons ⟨.string "12", ⟨rfl, rfl⟩, by rw [toText]⟩ .nil

end FgGas.Pages
