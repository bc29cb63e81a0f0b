import FgGas.Events.Links

/-!
# JSON values and places in them

A payload as the code compares it (`src/events/plain-json.js`), and the places of JSON Pointer: a
path is its reference tokens, and a token names a member of an object or, in decimal, an element of
an array. Numbers are compared by `===`, which JSON's numbers all equal themselves by.
-/

namespace FgGas.Events

variable {ν : Type}

/-- A JSON value, or a value of the database that JSON has no word for, as its JSON text. The
members of an object are in the order of its keys; of two with one key the first counts. -/
inductive Json (ν : Type)
  | null
  | boolean (value : Bool)
  | number (value : ν)
  | string (value : Text)
  | array (elements : List (Json ν))
  | object (members : List (Text × Json ν))
  | other (text : Text)

/-- The kinds of values. -/
inductive JsonKind
  | null
  | boolean
  | number
  | string
  | array
  | object
  | other
  deriving DecidableEq, Repr

/-- `jsonKindOf`. -/
def jsonKindOf : Json ν → JsonKind
  | .null => .null
  | .boolean _ => .boolean
  | .number _ => .number
  | .string _ => .string
  | .array _ => .array
  | .object _ => .object
  | .other _ => .other

/-- A number as a key. -/
def decimal (n : Nat) : Text := (Nat.toDigits 10 n).map Char.toNat

/-- The own value of a key: an element by its position, or a member. -/
def own (value : Json ν) (key : Text) : Option (Json ν) :=
  match value with
  | .array elements =>
    ((List.range elements.length).find? (decimal · = key)).bind fun i ↦ elements[i]?
  | .object members => members.lookup key
  | _ => none

/-- The value at a path. -/
def valueAt (value : Json ν) : List Text → Option (Json ν)
  | [] => some value
  | key :: path => (own value key).bind (valueAt · path)

/-- Equal values: arrays are compared by position, objects by key whatever the order. -/
inductive Same : Json ν → Json ν → Prop
  | null : Same .null .null
  | boolean (value : Bool) : Same (.boolean value) (.boolean value)
  | number (value : ν) : Same (.number value) (.number value)
  | string (value : Text) : Same (.string value) (.string value)
  | other (text : Text) : Same (.other text) (.other text)
  | array {xs ys : List (Json ν)} (length : xs.length = ys.length)
      (elements : ∀ (i : Nat) (x y : Json ν), xs[i]? = some x → ys[i]? = some y → Same x y) :
      Same (.array xs) (.array ys)
  | object {ms ns : List (Text × Json ν)}
      (keys : ∀ key : Text, (ms.lookup key).isSome = (ns.lookup key).isSome)
      (members : ∀ (key : Text) (x y : Json ν),
        ms.lookup key = some x → ns.lookup key = some y → Same x y) :
      Same (.object ms) (.object ns)

/-- What a reference token of a pointer stands for. -/
def unescape : Text → Option Text
  | [] => some []
  | 126 :: 48 :: rest => (unescape rest).map (126 :: ·)
  | 126 :: 49 :: rest => (unescape rest).map (47 :: ·)
  | 126 :: _ => none
  | c :: rest => (unescape rest).map (c :: ·)

/-- The path that a pointer names. -/
def decodePointer : Text → Option (List Text)
  | [] => some []
  | 47 :: rest => (rest.splitOn 47).mapM unescape
  | _ => none

/-! ### Own values -/

theorem decimal_injective : Function.Injective decimal := by
  intro m n h
  have hdigits : Nat.toDigits 10 m = Nat.toDigits 10 n :=
    List.map_injective_iff.mpr (fun _ _ ↦ Char.toNat_inj.mp) h
  rw [← @Nat.ofDigitChars_ten_toDigits m, hdigits, Nat.ofDigitChars_ten_toDigits]

theorem own_array (elements : List (Json ν)) (i : Nat) :
    own (.array elements) (decimal i) = elements[i]? := by
  by_cases hi : i < elements.length
  · have hfind : (List.range elements.length).find? (decimal · = decimal i) = some i := by
      simp only [List.find?_range_eq_some, decide_true, List.mem_range, hi, true_and,
        Bool.not_eq_true', decide_eq_false_iff_not]
      exact fun j hj heq ↦ absurd (decimal_injective heq) (by omega)
    rw [own, hfind, Option.bind_some]
  · have hfind : (List.range elements.length).find? (decimal · = decimal i) = none := by
      rw [List.find?_eq_none]
      intro j hj heq
      have := decimal_injective (of_decide_eq_true heq)
      rw [List.mem_range] at hj
      omega
    rw [own, hfind, List.getElem?_eq_none (by omega)]
    rfl

theorem own_array_eq_some {elements : List (Json ν)} {key : Text} {x : Json ν}
    (h : own (.array elements) key = some x) :
    ∃ i < elements.length, key = decimal i ∧ elements[i]? = some x := by
  obtain ⟨i, hfind, hx⟩ := Option.bind_eq_some_iff.mp h
  exact ⟨i, List.mem_range.mp (List.mem_of_find?_eq_some hfind),
    (of_decide_eq_true (List.find?_some (p := (decimal · = key)) hfind)).symm, hx⟩

/-- An own value is smaller than what it is in. -/
theorem sizeOf_own {value x : Json ν} {key : Text} (h : own value key = some x) :
    sizeOf x < sizeOf value := by
  cases value with
  | array elements =>
    obtain ⟨i, _, _, hx⟩ := own_array_eq_some h
    have := List.sizeOf_lt_of_mem (List.mem_of_getElem? hx)
    rw [Json.array.sizeOf_spec]
    omega
  | object members =>
    obtain ⟨l, r, rfl, _⟩ := List.lookup_eq_some_iff.mp h
    have hmem : (key, x) ∈ l ++ (key, x) :: r := List.mem_append_right l List.mem_cons_self
    have hlt := List.sizeOf_lt_of_mem hmem
    rw [Prod.mk.sizeOf_spec] at hlt
    rw [Json.object.sizeOf_spec]
    omega
  | _ => cases h

/-- What holds of a value once it holds of all its own values holds of every value. -/
theorem own_induction {motive : Json ν → Prop}
    (step : ∀ value, (∀ key x, own value key = some x → motive x) → motive value)
    (value : Json ν) : motive value :=
  step value fun _ x _ ↦ own_induction step x
termination_by sizeOf value
decreasing_by exact sizeOf_own ‹_›

end FgGas.Events
