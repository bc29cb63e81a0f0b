import FgGas.Machine.Percent
import FgGas.Machine.Substitution

/-!
# Invoking a grant's action

The URL an action is called at (`src/grants/use-cases/invoke-action.use-case.js`). A text is its
characters. The entries of the params are as `Object.entries` lists them; an entry's value is the
text that both of its uses make of it.
-/

namespace FgGas.Grants

open Machine

/-- A text, as its characters. -/
abbrev Characters := List Char

/-- What `encodeURIComponent` writes plainly. -/
def uriPlain (c : Char) : Option Char :=
  if c.isAlphanum || "-_.!~*'()".toList.contains c then some c else none

/-- `encodeURIComponent`. -/
def encodeURIComponent (s : Characters) : Characters := percentEncode uriPlain s

/-- What the query of a URL writes plainly. -/
def formPlain (c : Char) : Option Char :=
  if c = ' ' then some '+'
  else if c.isAlphanum || "*-._".toList.contains c then some c else none

/-- A field of a query. -/
def queryField (f : Characters × Characters) : Characters :=
  percentEncode formPlain f.1 ++ '=' :: percentEncode formPlain f.2

/-- `URLSearchParams.toString`. -/
def queryString : List (Characters × Characters) → Characters
  | [] => []
  | [f] => queryField f
  | f :: g :: fs => queryField f ++ '&' :: queryString (g :: fs)

/-- `object[key] = value`. On `__proto__` it sets no field. JavaScript lists the keys that are array
indices first, in their numerical order; here all keys stay in the order in which they came. -/
def setField (fields : List (Characters × Characters)) (key value : Characters) :
    List (Characters × Characters) :=
  if key = "__proto__".toList then fields
  else if key ∈ fields.map Prod.fst then
    fields.map fun f ↦ if f.1 = key then (key, value) else f
  else fields ++ [(key, value)]

/-- A character of `[a-zA-Z0-9_]`. -/
def isNameChar (c : Char) : Bool := c.isAlphanum || c = '_'

/-- The placeholders of a URL: `/(?<=\/)\$[a-zA-Z0-9_]+/g`. -/
def urlMarks : Marks Char where
  mark := '$'
  lead := '/'
  isName := isNameChar
  mark_plain := by decide
  lead_plain := by decide
  mark_ne_lead := by decide

/-- The HTTP method of an action. -/
inductive Method where
  | GET
  | POST
  | other (name : String)
  deriving DecidableEq, Repr

/-- The method's name. -/
def Method.text : Method → String
  | .GET => "GET"
  | .POST => "POST"
  | .other name => name

/-- An action of a grant. -/
structure GrantAction where
  name : String
  method : Method
  url : Characters
  deriving DecidableEq, Repr

/-- What an action is invoked with. -/
structure Invocation (π : Type) where
  code : Characters
  name : String
  method : Method
  payload : π
  params : List (Characters × Characters)
  deriving DecidableEq, Repr

/-- A call that is made. -/
inductive Call (π : Type) where
  | get (url : Characters)
  | post (url : Characters) (payload : π)
  deriving DecidableEq, Repr

/-- A refusal. -/
structure Refusal where
  statusCode : Nat
  message : String
  deriving DecidableEq, Repr

/-- `updateUrlAndExtractQueryParam`. -/
def updateUrlAndExtractQueryParam (params : List (Characters × Characters))
    (code url : Characters) : List (Characters × Characters) × Characters :=
  params.foldl (fun (queryParams, url) (key, value) ↦
    if '$' :: key <:+: url then
      (queryParams, replaceFirst ('$' :: key) (encodeURIComponent value) url)
    else (setField queryParams key value, url))
    ([("code".toList, encodeURIComponent code)], url)

/-- `errorIfUnassignedPlaceholders`. -/
def errorIfUnassignedPlaceholders (url code : Characters) : Except Refusal Unit :=
  match urlMarks.placeholders url with
  | [] => .ok ()
  | unresolved => .error
    { statusCode := 400
      message := "Grant with code \"" ++ String.ofList code ++
        "\" has unresolved placeholders in the URL: " ++
        String.intercalate ", " (unresolved.map fun name ↦ String.ofList ('$' :: name)) }

/-- `addQueryParams`. -/
def addQueryParams (queryParams : List (Characters × Characters)) (newUrl : Characters) :
    Characters :=
  if queryParams.length > 0 then newUrl ++ '?' :: queryString queryParams else newUrl

/-- `parameterisedUrl`. -/
def parameterisedUrl (params : List (Characters × Characters)) (url code : Characters) :
    Except Refusal Characters := do
  let (queryParams, newUrl) := updateUrlAndExtractQueryParam params code url
  errorIfUnassignedPlaceholders newUrl code
  return addQueryParams queryParams newUrl

/-- `updateUrlForEnvironment`. -/
def updateUrlForEnvironment (cdpEnvironment url : Characters) : Characters :=
  replaceFirst "%ENVIRONMENT%".toList cdpEnvironment url

/-- The call that the method asks for. -/
def callWreck {π : Type} (i : Invocation π) (url : Characters) : Except Refusal (Call π) :=
  match i.method with
  | .GET => .ok (.get url)
  | .POST => .ok (.post url i.payload)
  | .other m => .error
    { statusCode := 400
      message := "Unsupported method " ++ m ++ " for action named \"" ++ i.name ++ "\"" }

/-- `invokeActionUseCase`, up to the call it makes. -/
def invokeAction {π : Type} (cdpEnvironment : Characters)
    (findByCode : Characters → Option (List GrantAction)) (i : Invocation π) :
    Except Refusal (Call π) :=
  match findByCode i.code with
  | none => .error
    { statusCode := 404, message := "Grant with code " ++ String.ofList i.code ++ " not found" }
  | some actions =>
    match actions.find? fun e ↦ e.method = i.method ∧ e.name = i.name with
    | none => .error
      { statusCode := 400
        message := "Grant with code \"" ++ String.ofList i.code ++ "\" has no " ++
          i.method.text ++ " action named \"" ++ i.name ++ "\"" }
    | some action =>
      (parameterisedUrl i.params action.url i.code).bind fun url ↦
        callWreck i (updateUrlForEnvironment cdpEnvironment url)

/-! ## What is encoded -/

theorem uriPlain_eq {c d : Char} (h : uriPlain c = some d) :
    c = d ∧ (d.isAlphanum || "-_.!~*'()".toList.contains d) = true := by
  unfold uriPlain at h
  split at h
  · next hc => exact ⟨Option.some.inj h, Option.some.inj h ▸ hc⟩
  · cases h

theorem upperHex_ne {n : Nat} (h : n < 16) :
    upperHex n ≠ '$' ∧ upperHex n ≠ '/' ∧ upperHex n ≠ '?' ∧ upperHex n ≠ '=' ∧
      upperHex n ≠ '&' := by
  have hfin : ∀ i : Fin 16, upperHex i ≠ '$' ∧ upperHex i ≠ '/' ∧ upperHex i ≠ '?' ∧
    upperHex i ≠ '=' ∧ upperHex i ≠ '&' := by decide
  exact hfin ⟨n, h⟩

/-- An encoded component has no marks and no slashes. -/
theorem clean_encodeURIComponent (s : Characters) : urlMarks.Clean (encodeURIComponent s) := by
  intro d hd
  show d ≠ '$' ∧ d ≠ '/'
  rcases mem_percentEncode hd with rfl | ⟨n, hn, rfl⟩ | ⟨c, hc⟩
  · decide
  · exact ⟨(upperHex_ne hn).1, (upperHex_ne hn).2.1⟩
  · have hplain := (uriPlain_eq hc).2
    constructor <;> · rintro rfl; revert hplain; decide

/-- What needs no encoding is encoded as it is. -/
theorem encodeURIComponent_eq_self {s : Characters} (h : ∀ c ∈ s, uriPlain c = some c) :
    encodeURIComponent s = s := by
  induction s with
  | nil => rfl
  | cons c cs ih =>
    have hcs := ih fun d hd ↦ h d (List.mem_cons_of_mem _ hd)
    have hc : percentChar uriPlain c = [c] := by rw [percentChar, h c List.mem_cons_self]
    unfold encodeURIComponent percentEncode at hcs ⊢
    rw [List.flatMap_cons, hc, hcs]
    rfl

theorem formPlain_eq {c d : Char} (h : formPlain c = some d) :
    c = ' ' ∧ d = '+' ∨ c = d ∧ (d.isAlphanum || "*-._".toList.contains d) = true := by
  unfold formPlain at h
  split at h
  · next hc => exact .inl ⟨hc, (Option.some.inj h).symm⟩
  · split at h
    · next hc => exact .inr ⟨Option.some.inj h, Option.some.inj h ▸ hc⟩
    · cases h

theorem formPlain_faithful : PlainFaithful formPlain where
  ne_percent c h := by
    rcases formPlain_eq h with ⟨-, h⟩ | ⟨-, h⟩ <;> revert h <;> decide
  inj a b d ha hb := by
    rcases formPlain_eq ha with ⟨rfl, rfl⟩ | ⟨rfl, h⟩
    · rcases formPlain_eq hb with ⟨rfl, -⟩ | ⟨-, h⟩
      · rfl
      · exact absurd h (by decide)
    · rcases formPlain_eq hb with ⟨-, rfl⟩ | ⟨rfl, -⟩
      · exact absurd h (by decide)
      · rfl

/-- No field is written with what separates fields, their parts or the query. -/
theorem formEncode_ne {s : Characters} {d : Char} (h : d ∈ percentEncode formPlain s) :
    d ≠ '?' ∧ d ≠ '=' ∧ d ≠ '&' := by
  rcases mem_percentEncode h with rfl | ⟨n, hn, rfl⟩ | ⟨c, hc⟩
  · decide
  · exact (upperHex_ne hn).2.2
  · rcases formPlain_eq hc with ⟨-, rfl⟩ | ⟨-, hplain⟩
    · decide
    · refine ⟨?_, ?_, ?_⟩ <;> · rintro rfl; revert hplain; decide

theorem formChar_neverStarts {stop : Char}
    (h : ∀ s, ∀ d ∈ percentEncode formPlain s, d ≠ stop) :
    NeverStarts (percentChar formPlain) stop := by
  intro a r r' heq
  have hne : percentChar formPlain a ≠ [] := percentChar_ne_nil a
  obtain ⟨d, ds, hds⟩ := List.exists_cons_of_ne_nil hne
  rw [hds] at heq
  refine h [a] d ?_ (List.cons.inj heq).1
  rw [percentEncode, List.flatMap_singleton, hds]
  exact List.mem_cons_self

/-- A field and what separates it from the next. -/
def terminatedField (f : Characters × Characters) : Characters := queryField f ++ ['&']

theorem terminatedField_delimited : Delimited terminatedField := by
  rintro ⟨k, v⟩ ⟨k', v'⟩ r r' heq
  unfold terminatedField queryField at heq
  simp only [List.append_assoc, List.cons_append, List.nil_append] at heq
  obtain ⟨rfl, hrest⟩ := formPlain_faithful.delimited.list_stop
    (formChar_neverStarts fun _ _ hd ↦ (formEncode_ne hd).2.1) heq
  obtain ⟨rfl, hr⟩ := formPlain_faithful.delimited.list_stop
    (formChar_neverStarts fun _ _ hd ↦ (formEncode_ne hd).2.2) hrest
  exact ⟨rfl, hr⟩

theorem queryString_append {fields : List (Characters × Characters)} (h : fields ≠ []) :
    queryString fields ++ ['&'] = fields.flatMap terminatedField := by
  induction fields with
  | nil => exact absurd rfl h
  | cons f fs ih =>
    cases fs with
    | nil => simp [queryString, terminatedField]
    | cons g fs =>
      rw [queryString, List.append_assoc, List.cons_append, ih (List.cons_ne_nil _ _),
        List.flatMap_cons (x := f), terminatedField, List.append_assoc]
      rfl

/-- Queries are told apart. -/
theorem queryString_inj {fields fields' : List (Characters × Characters)} (h : fields ≠ [])
    (h' : fields' ≠ []) (heq : queryString fields = queryString fields') : fields = fields' := by
  apply terminatedField_delimited.list_end (fun _ hnil ↦ by simp [terminatedField] at hnil)
  rw [← queryString_append h, ← queryString_append h', heq]

theorem not_mem_queryString (fields : List (Characters × Characters)) :
    '?' ∉ queryString fields := by
  have hfield : ∀ f, '?' ∉ queryField f := fun f hmem ↦ by
    rcases List.mem_append.mp hmem with hmem | hmem
    · exact (formEncode_ne hmem).1 rfl
    · rcases List.mem_cons.mp hmem with hmem | hmem
      · revert hmem; decide
      · exact (formEncode_ne hmem).1 rfl
  induction fields with
  | nil => exact List.not_mem_nil
  | cons f fs ih =>
    cases fs with
    | nil => exact hfield f
    | cons g fs =>
      intro hmem
      rcases List.mem_append.mp hmem with hmem | hmem
      · exact hfield f hmem
      · rcases List.mem_cons.mp hmem with hmem | hmem
        · revert hmem; decide
        · exact ih hmem

end FgGas.Grants
