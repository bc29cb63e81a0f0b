import FgGas.Events.PlainJson
import Mathlib.Data.Set.Card

/-!
# Where two payloads differ

What an edit of a payload records of it (`src/events/payload-changes.js`): pointers to the places
where the payload before and after differ, at most `CHANGED_PATHS_MAX` of them, and whether there
are more. Both trees are walked at once, and the walk stops one past the cap.
-/

namespace FgGas.Events

variable {ν : Type}

/-- `CHANGED_PATHS_MAX`. -/
def CHANGED_PATHS_MAX : Nat := 50

/-- `replaceAll` of a character. -/
def replaceAll (value : Text) (c : Nat) (replacement : Text) : Text :=
  value.flatMap fun x ↦ if x = c then replacement else [x]

/-- `escapeSegment`. -/
def escapeSegment (segment : Text) : Text :=
  replaceAll (replaceAll segment 126 (lit "~0")) 47 (lit "~1")

/-- `pointer`. -/
def pointer (segments : List Text) : Text :=
  segments.flatMap fun segment ↦ lit "/" ++ escapeSegment segment

/-- `isContainer`. -/
def isContainer : JsonKind → Bool
  | .array | .object => true
  | _ => false

/-- `sameLeaf`, of two values of one kind. -/
def sameLeaf [DecidableEq ν] : Json ν → Json ν → Bool
  | .null, .null => true
  | .boolean a, .boolean b => a = b
  | .number a, .number b => a = b
  | .string a, .string b => a = b
  | .other a, .other b => a = b
  | _, _ => false

/-- `Object.keys` of an object. -/
def objectKeys : Json ν → List Text
  | .object members => members.map Prod.fst
  | _ => []

/-- `childKeys`. -/
def childKeys (before after : Json ν) : List Text :=
  match before, after with
  | .array xs, .array ys => (List.range (max xs.length ys.length)).map decimal
  | _, _ => (objectKeys before ++ objectKeys after).eraseDups

section
variable [DecidableEq ν]

mutual

/-- `visitChild`. -/
def visitChild (before after : Json ν) (segments : List Text) (key : Text) (found : List Text) :
    List Text :=
  match _ : own before key, own after key with
  | some x, some y => walk x y (segments ++ [key]) found
  | _, _ => found ++ [pointer (segments ++ [key])]
termination_by (sizeOf before, 0, 0)
decreasing_by exact .left _ _ (sizeOf_own ‹_›)

/-- `walkChildren`. -/
def walkChildren (before after : Json ν) (segments : List Text) :
    List Text → List Text → List Text
  | [], found => found
  | key :: keys, found =>
    if CHANGED_PATHS_MAX < found.length then found
    else walkChildren before after segments keys (visitChild before after segments key found)
termination_by keys => (sizeOf before, 1, keys.length)

/-- `walk`. -/
def walk (before after : Json ν) (segments found : List Text) : List Text :=
  if jsonKindOf before ≠ jsonKindOf after then found ++ [pointer segments]
  else if isContainer (jsonKindOf before) then
    walkChildren before after segments (childKeys before after) found
  else if sameLeaf before after then found
  else found ++ [pointer segments]
termination_by (sizeOf before, 2, 0)

end

/-- What is recorded of an edit. -/
structure PayloadChanges where
  changedPaths : List Text
  changedPathsTruncated : Bool

/-- `payloadChanges`. -/
def payloadChanges (before after : Json ν) : PayloadChanges :=
  let found := walk before after [] []
  ⟨found.take CHANGED_PATHS_MAX, CHANGED_PATHS_MAX < found.length⟩

end

/-- Two values, or a value and its absence, differ there and not only further in. -/
def Differ : Option (Json ν) → Option (Json ν) → Prop
  | none, none => False
  | some x, some y =>
    jsonKindOf x ≠ jsonKindOf y ∨ isContainer (jsonKindOf x) = false ∧ ¬ Same x y
  | _, _ => True

/-- The values differ at a path, and nowhere on the way to it. -/
def Changed (before after : Json ν) (path : List Text) : Prop :=
  Differ (valueAt before path) (valueAt after path) ∧
    ∀ front, front <+: path → front ≠ path →
      ¬ Differ (valueAt before front) (valueAt after front)

/-! ### Pointers -/

/-- A character of a reference token. -/
def escapeChar (c : Nat) : Text :=
  if c = 126 then lit "~0" else if c = 47 then lit "~1" else [c]

theorem escapeSegment_eq (segment : Text) : escapeSegment segment = segment.flatMap escapeChar := by
  rw [escapeSegment, replaceAll, replaceAll, List.flatMap_assoc]
  congr 1
  funext c
  unfold escapeChar
  by_cases htilde : c = 126
  · rw [if_pos htilde, if_pos htilde]
    rfl
  · rw [if_neg htilde, if_neg htilde, List.flatMap_singleton]

theorem unescape_escapeChar (c : Nat) (rest : Text) :
    unescape (escapeChar c ++ rest) = (unescape rest).map (c :: ·) := by
  unfold escapeChar
  split
  · next h =>
    rw [h]
    rfl
  · next h =>
    split
    · next h' =>
      rw [h']
      rfl
    · exact unescape.eq_5 _ _ (by simp [h]) (by simp [h]) (by simp [h])

/-- A reference token stands for the key it was written for. -/
theorem unescape_escapeSegment (segment : Text) :
    unescape (escapeSegment segment) = some segment := by
  rw [escapeSegment_eq]
  induction segment with
  | nil => rfl
  | cons c segment ih => rw [List.flatMap_cons, unescape_escapeChar, ih, Option.map_some]

theorem slash_notMem_escapeSegment (segment : Text) : 47 ∉ escapeSegment segment := by
  rw [escapeSegment_eq, List.mem_flatMap]
  rintro ⟨c, _, hc⟩
  unfold escapeChar at hc
  split at hc
  · exact absurd hc (by decide)
  · split at hc
    · exact absurd hc (by decide)
    · next h => exact h (List.mem_singleton.mp hc).symm

theorem splitOn_pointer (segment : Text) (segments : List Text) :
    (escapeSegment segment ++ pointer segments).splitOn 47 =
      escapeSegment segment :: segments.map escapeSegment := by
  induction segments generalizing segment with
  | nil =>
    rw [pointer, List.flatMap_nil, List.append_nil]
    exact List.splitOn_eq_singleton (slash_notMem_escapeSegment segment)
  | cons next segments ih =>
    have hcons : pointer (next :: segments) = 47 :: (escapeSegment next ++ pointer segments) := rfl
    rw [hcons, List.splitOn_append_cons_self_of_not_mem (slash_notMem_escapeSegment segment), ih]
    rfl

/-- A pointer decodes to the path it was written for. -/
theorem decodePointer_pointer (segments : List Text) :
    decodePointer (pointer segments) = some segments := by
  cases segments with
  | nil => rfl
  | cons segment segments =>
    have hcons : pointer (segment :: segments) =
        47 :: (escapeSegment segment ++ pointer segments) := rfl
    have hall : ∀ keys : List Text, (keys.map escapeSegment).mapM unescape = some keys := by
      intro keys
      induction keys with
      | nil => rfl
      | cons key keys ih => simp [unescape_escapeSegment, ih]
    rw [hcons, decodePointer, splitOn_pointer]
    exact hall (segment :: segments)

theorem pointer_injective : Function.Injective pointer := by
  intro path path' h
  have hsome := congrArg decodePointer h
  rw [decodePointer_pointer, decodePointer_pointer] at hsome
  exact Option.some.inj hsome

/-! ### Places where values differ -/

theorem nodup_eraseDups {α : Type} [BEq α] [LawfulBEq α] (l : List α) : l.eraseDups.Nodup := by
  induction hn : l.length using Nat.strong_induction_on generalizing l with
  | _ n ih =>
    cases l with
    | nil => exact List.nodup_nil
    | cons a l =>
      rw [List.eraseDups_cons, List.nodup_cons]
      have hlength := List.length_filter_le (fun b ↦ !b == a) l
      rw [List.length_cons] at hn
      exact ⟨by simp, ih _ (by omega) (l.filter fun b ↦ !b == a) rfl⟩

theorem childKeys_nodup (before after : Json ν) : (childKeys before after).Nodup := by
  unfold childKeys
  split
  · exact List.nodup_range.map decimal_injective
  · exact nodup_eraseDups _

theorem own_object_ne_none {members : List (Text × Json ν)} {key : Text} :
    own (.object members) key ≠ none ↔ key ∈ members.map Prod.fst := by
  have hnone : own (.object members) key = none ↔ key ∉ members.map Prod.fst := by
    rw [own, List.lookup_eq_none_iff, List.mem_map]
    constructor
    · rintro h ⟨p, hp, rfl⟩
      simpa using h p hp
    · rintro h p hp
      exact bne_iff_ne.mpr fun heq ↦ h ⟨p, hp, heq.symm⟩
  rw [Ne, hnone, not_not]

theorem own_array_ne_none {elements : List (Json ν)} {key : Text} :
    own (.array elements) key ≠ none ↔ ∃ i < elements.length, key = decimal i := by
  constructor
  · intro h
    obtain ⟨x, hx⟩ := Option.ne_none_iff_exists'.mp h
    obtain ⟨i, hi, hkey, _⟩ := own_array_eq_some hx
    exact ⟨i, hi, hkey⟩
  · rintro ⟨i, hi, rfl⟩
    rw [own_array, List.getElem?_eq_getElem hi]
    simp

/-- At a key both have a value or one of them has none. -/
theorem own_cases (before after : Json ν) (key : Text) :
    (own before key = none ∨ own after key = none) ∨
      ∃ x y, own before key = some x ∧ own after key = some y := by
  cases hx : own before key with
  | none => exact .inl (.inl rfl)
  | some x =>
    cases hy : own after key with
    | none => exact .inl (.inr rfl)
    | some y => exact .inr ⟨x, y, rfl, rfl⟩

/-- Two containers of one kind are two arrays or two objects. -/
theorem containers_cases {before after : Json ν} (hkind : jsonKindOf before = jsonKindOf after)
    (hcontainer : isContainer (jsonKindOf before) = true) :
    (∃ xs ys, before = .array xs ∧ after = .array ys) ∨
      ∃ ms ns, before = .object ms ∧ after = .object ns := by
  cases before with
  | array xs =>
    cases after with
    | array ys => exact .inl ⟨xs, ys, rfl, rfl⟩
    | _ => cases hkind
  | object ms =>
    cases after with
    | object ns => exact .inr ⟨ms, ns, rfl, rfl⟩
    | _ => cases hkind
  | _ => cases hcontainer

/-- The keys walked of two containers of a kind are those that either has a value of its own for. -/
theorem mem_childKeys {before after : Json ν} {key : Text}
    (hkind : jsonKindOf before = jsonKindOf after)
    (hcontainer : isContainer (jsonKindOf before) = true) :
    key ∈ childKeys before after ↔ own before key ≠ none ∨ own after key ≠ none := by
  rcases containers_cases hkind hcontainer with ⟨xs, ys, rfl, rfl⟩ | ⟨ms, ns, rfl, rfl⟩
  · rw [own_array_ne_none, own_array_ne_none, childKeys, List.mem_map]
    constructor
    · rintro ⟨i, hi, rfl⟩
      rw [List.mem_range, lt_max_iff] at hi
      exact hi.imp (fun h ↦ ⟨i, h, rfl⟩) fun h ↦ ⟨i, h, rfl⟩
    · rintro (⟨i, hi, rfl⟩ | ⟨i, hi, rfl⟩)
      · exact ⟨i, List.mem_range.mpr (lt_max_of_lt_left hi), rfl⟩
      · exact ⟨i, List.mem_range.mpr (lt_max_of_lt_right hi), rfl⟩
  · have hkeys : childKeys (.object ms) (.object ns) =
        (ms.map Prod.fst ++ ns.map Prod.fst).eraseDups := rfl
    rw [own_object_ne_none, own_object_ne_none, hkeys, List.mem_eraseDups, List.mem_append]

/-! ### Differing places -/

theorem differ_missing {o o' : Option (Json ν)} (h : o = none ∨ o' = none) :
    Differ o o' ↔ o ≠ none ∨ o' ≠ none := by
  cases o <;> cases o' <;> simp_all [Differ]

theorem changed_nil {before after : Json ν} :
    Changed before after [] ↔ Differ (some before) (some after) := by
  constructor
  · exact fun h ↦ h.1
  · exact fun h ↦ ⟨h, fun front hfront hne ↦ absurd (List.prefix_nil.mp hfront) hne⟩

/-- What lies further in is a place of its own only where the whole does not differ at once. -/
theorem not_differ_of_changed_cons {before after : Json ν} {key : Text} {path : List Text}
    (h : Changed before after (key :: path)) : ¬ Differ (some before) (some after) :=
  h.2 [] List.nil_prefix (by simp)

theorem changed_cons_both {before after x y : Json ν} {key : Text} {path : List Text}
    (hx : own before key = some x) (hy : own after key = some y) :
    Changed before after (key :: path) ↔
      ¬ Differ (some before) (some after) ∧ Changed x y path := by
  have hvalue : ∀ path, valueAt before (key :: path) = valueAt x path := fun path ↦ by
    rw [valueAt, hx, Option.bind_some]
  have hvalue' : ∀ path, valueAt after (key :: path) = valueAt y path := fun path ↦ by
    rw [valueAt, hy, Option.bind_some]
  constructor
  · intro h
    refine ⟨not_differ_of_changed_cons h, ?_, fun front hfront hne ↦ ?_⟩
    · rw [← hvalue, ← hvalue']
      exact h.1
    · rw [← hvalue, ← hvalue']
      exact h.2 (key :: front) (List.cons_prefix_cons.mpr ⟨rfl, hfront⟩) (by simpa using hne)
  · rintro ⟨hroot, hdiffer, hfronts⟩
    refine ⟨?_, fun front hfront hne ↦ ?_⟩
    · rw [hvalue, hvalue']
      exact hdiffer
    · rcases List.prefix_cons_iff.mp hfront with rfl | ⟨front, rfl, hmore⟩
      · exact hroot
      · rw [hvalue, hvalue']
        exact hfronts front hmore (by simpa using hne)

theorem changed_cons_missing {before after : Json ν} {key : Text} {path : List Text}
    (hmissing : own before key = none ∨ own after key = none) :
    Changed before after (key :: path) ↔ ¬ Differ (some before) (some after) ∧ path = [] ∧
      (own before key ≠ none ∨ own after key ≠ none) := by
  have hvalue : ∀ value : Json ν, valueAt value [key] = own value key := fun value ↦ by
    simp [valueAt]
  constructor
  · intro h
    refine ⟨not_differ_of_changed_cons h, ?_⟩
    by_cases hpath : path = []
    · obtain ⟨hdiffer, _⟩ := h
      rw [hpath, hvalue, hvalue, differ_missing hmissing] at hdiffer
      exact ⟨hpath, hdiffer⟩
    · have hkey := h.2 [key] (List.cons_prefix_cons.mpr ⟨rfl, List.nil_prefix⟩)
        (by simpa using Ne.symm hpath)
      rw [hvalue, hvalue, differ_missing hmissing, not_or, not_not, not_not] at hkey
      have hdiffer := h.1
      simp [valueAt, hkey.1, hkey.2, Differ] at hdiffer
  · rintro ⟨hroot, rfl, hone⟩
    refine ⟨?_, fun front hfront hne ↦ ?_⟩
    · rw [hvalue, hvalue, differ_missing hmissing]
      exact hone
    · rcases List.prefix_cons_iff.mp hfront with rfl | ⟨front, rfl, hmore⟩
      · exact hroot
      · exact absurd (List.prefix_nil.mp hmore) (by simpa using hne)

theorem not_differ_container {before after : Json ν}
    (hkind : jsonKindOf before = jsonKindOf after)
    (hcontainer : isContainer (jsonKindOf before) = true) :
    ¬ Differ (some before) (some after) := by
  rintro (hne | ⟨hleaf, _⟩)
  · exact hne hkind
  · rw [hcontainer] at hleaf
    cases hleaf

/-! ### Equal values -/

theorem own_leaf {value : Json ν} (h : isContainer (jsonKindOf value) = false) (key : Text) :
    own value key = none := by
  cases value <;> first | rfl | cases h

theorem Same.jsonKindOf_eq {before after : Json ν} (h : Same before after) :
    jsonKindOf before = jsonKindOf after := by
  cases h <;> rfl

theorem sameLeaf_iff [DecidableEq ν] {before after : Json ν}
    (hkind : jsonKindOf before = jsonKindOf after)
    (hcontainer : isContainer (jsonKindOf before) = false) :
    sameLeaf before after = true ↔ Same before after := by
  constructor
  · intro h
    cases before <;> cases after <;> simp_all [sameLeaf, jsonKindOf, isContainer] <;> constructor
  · intro h
    cases h <;> simp_all [sameLeaf, jsonKindOf, isContainer]

/-- Two containers of a kind are equal if they have the same keys and equal values for each. -/
theorem same_container_iff {before after : Json ν} (hkind : jsonKindOf before = jsonKindOf after)
    (hcontainer : isContainer (jsonKindOf before) = true) :
    Same before after ↔ (∀ key, own before key ≠ none ↔ own after key ≠ none) ∧
      ∀ key x y, own before key = some x → own after key = some y → Same x y := by
  rcases containers_cases hkind hcontainer with ⟨xs, ys, rfl, rfl⟩ | ⟨ms, ns, rfl, rfl⟩
  · constructor
    · rintro (_ | _ | _ | _ | _ | ⟨hlength, helements⟩)
      refine ⟨fun key ↦ ?_, fun key x y hx hy ↦ ?_⟩
      · rw [own_array_ne_none, own_array_ne_none, hlength]
      · obtain ⟨i, _, rfl, hxi⟩ := own_array_eq_some hx
        rw [own_array] at hy
        exact helements i x y hxi hy
    · rintro ⟨hkeys, hvalues⟩
      refine .array (eq_of_forall_lt_iff fun i ↦ ?_) fun i x y hx hy ↦ ?_
      · have hi := hkeys (decimal i)
        simpa [own_array] using hi
      · exact hvalues (decimal i) x y (by rw [own_array, hx]) (by rw [own_array, hy])
  · constructor
    · rintro (_ | _ | _ | _ | _ | _ | ⟨hkeys, hmembers⟩)
      refine ⟨fun key ↦ ?_, hmembers⟩
      rw [← Option.isSome_iff_ne_none, ← Option.isSome_iff_ne_none]
      exact Bool.eq_iff_iff.mp (hkeys key)
    · rintro ⟨hkeys, hmembers⟩
      refine .object (fun key ↦ Bool.eq_iff_iff.mpr ?_) hmembers
      rw [Option.isSome_iff_ne_none, Option.isSome_iff_ne_none]
      exact hkeys key

/-! ### All the places, in the order walked -/

section
variable [DecidableEq ν]

/-- All the changes of two values: what `walk` finds but for the cap. -/
def changes (before after : Json ν) : List (List Text) :=
  if jsonKindOf before ≠ jsonKindOf after then [[]]
  else if isContainer (jsonKindOf before) then
    (childKeys before after).flatMap fun key ↦
      match _ : own before key, own after key with
      | some x, some y => (changes x y).map (key :: ·)
      | _, _ => [[key]]
  else if sameLeaf before after then []
  else [[]]
termination_by sizeOf before
decreasing_by exact sizeOf_own ‹_›

/-- The changes at one key. -/
def changesAt (before after : Json ν) (key : Text) : List (List Text) :=
  match own before key, own after key with
  | some x, some y => (changes x y).map (key :: ·)
  | _, _ => [[key]]

variable {before after : Json ν}

theorem changesAt_both {key : Text} {x y : Json ν} (hx : own before key = some x)
    (hy : own after key = some y) :
    changesAt before after key = (changes x y).map (key :: ·) := by
  rw [changesAt, hx, hy]

theorem changesAt_missing {key : Text} (h : own before key = none ∨ own after key = none) :
    changesAt before after key = [[key]] := by
  unfold changesAt
  split
  · next hx hy => simp [hx, hy] at h
  · rfl

theorem visitChild_both {key : Text} {x y : Json ν} (hx : own before key = some x)
    (hy : own after key = some y) (segments found : List Text) :
    visitChild before after segments key found = walk x y (segments ++ [key]) found := by
  rw [visitChild]
  split <;> simp_all

theorem visitChild_missing {key : Text} (h : own before key = none ∨ own after key = none)
    (segments found : List Text) :
    visitChild before after segments key found = found ++ [pointer (segments ++ [key])] := by
  rw [visitChild]
  split
  · next hx hy => simp [hx, hy] at h
  · rfl

theorem changes_of_ne (h : jsonKindOf before ≠ jsonKindOf after) : changes before after = [[]] := by
  rw [changes, if_pos h]

theorem changes_container (hkind : jsonKindOf before = jsonKindOf after)
    (hcontainer : isContainer (jsonKindOf before) = true) :
    changes before after = (childKeys before after).flatMap (changesAt before after) := by
  rw [changes, if_neg (not_not.mpr hkind), if_pos hcontainer]
  congr 1
  funext key
  unfold changesAt
  split <;> simp_all

theorem changes_leaf (hkind : jsonKindOf before = jsonKindOf after)
    (hcontainer : isContainer (jsonKindOf before) = false) :
    changes before after = if sameLeaf before after then [] else [[]] := by
  rw [changes, if_neg (not_not.mpr hkind), if_neg (by simp [hcontainer])]

/-- Entries put at the end of a list until it is one past the cap. -/
def capped (found more : List Text) : List Text := (found ++ more).take (CHANGED_PATHS_MAX + 1)

theorem capped_nil {found : List Text} (h : found.length ≤ CHANGED_PATHS_MAX + 1) :
    capped found [] = found := by
  rw [capped, List.append_nil, List.take_of_length_le h]

theorem capped_singleton {found : List Text} (h : found.length ≤ CHANGED_PATHS_MAX)
    (text : Text) : capped found [text] = found ++ [text] := by
  rw [capped, List.take_of_length_le]
  simpa using h

theorem capped_append (found more rest : List Text) :
    capped (capped found more) rest = capped found (more ++ rest) := by
  unfold capped
  rw [← List.append_assoc]
  generalize found ++ more = listed
  rw [List.take_append, List.take_append, List.take_take, min_self, List.length_take]
  congr 2
  omega

theorem length_capped (found more : List Text) :
    (capped found more).length ≤ CHANGED_PATHS_MAX + 1 := by
  rw [capped, List.length_take]
  exact min_le_left _ _

/-- A list that is full stays as it is. -/
theorem capped_full {found : List Text} (h : found.length = CHANGED_PATHS_MAX + 1)
    (more : List Text) : capped found more = found := by
  rw [capped, List.take_append_of_le_length h.ge, List.take_of_length_le h.le]

/-- If each key adds its entries as far as the cap lets it, so do all of them. -/
theorem walkChildren_eq {segments : List Text} {entries : Text → List Text}
    (hvisit : ∀ key {found : List Text}, found.length ≤ CHANGED_PATHS_MAX →
      visitChild before after segments key found = capped found (entries key))
    (keys : List Text) {found : List Text} (hfound : found.length ≤ CHANGED_PATHS_MAX + 1) :
    walkChildren before after segments keys found = capped found (keys.flatMap entries) := by
  induction keys generalizing found with
  | nil => rw [walkChildren, List.flatMap_nil, capped_nil hfound]
  | cons key keys ih =>
    rw [walkChildren]
    by_cases hfull : CHANGED_PATHS_MAX < found.length
    · rw [if_pos hfull, capped_full (by omega)]
    · rw [if_neg hfull, hvisit key (by omega), ih (length_capped _ _), capped_append,
        List.flatMap_cons]

/-- A walk adds all the changes, as far as the cap lets it. -/
theorem walk_eq (before after : Json ν) (segments : List Text) {found : List Text}
    (hfound : found.length ≤ CHANGED_PATHS_MAX) :
    walk before after segments found =
      capped found ((changes before after).map fun path ↦ pointer (segments ++ path)) := by
  induction before using own_induction generalizing after segments found with
  | step before ih =>
    by_cases hkind : jsonKindOf before = jsonKindOf after
    swap
    · rw [walk, if_pos hkind, changes_of_ne hkind, List.map_singleton, List.append_nil,
        capped_singleton hfound]
    rw [walk, if_neg (not_not.mpr hkind)]
    by_cases hcontainer : isContainer (jsonKindOf before) = true
    · have hvisit : ∀ key {found : List Text}, found.length ≤ CHANGED_PATHS_MAX →
          visitChild before after segments key found = capped found
            ((changesAt before after key).map fun path ↦ pointer (segments ++ path)) := by
        intro key found hfound
        rcases own_cases before after key with hmissing | ⟨x, y, hx, hy⟩
        · rw [visitChild_missing hmissing, changesAt_missing hmissing, List.map_singleton,
            capped_singleton hfound]
        · have hsegments : ((fun path ↦ pointer (segments ++ path)) ∘ fun path ↦ key :: path) =
              fun path ↦ pointer (segments ++ [key] ++ path) := by
            funext path
            rw [Function.comp_apply, List.append_assoc, List.singleton_append]
          rw [visitChild_both hx hy, ih key x hx y _ hfound, changesAt_both hx hy, List.map_map,
            hsegments]
      rw [if_pos hcontainer, walkChildren_eq hvisit _ (by omega),
        changes_container hkind hcontainer, List.map_flatMap]
    · rw [if_neg hcontainer, changes_leaf hkind (by simpa using hcontainer)]
      split
      · rw [List.map_nil, capped_nil (by omega)]
      · rw [List.map_singleton, List.append_nil, capped_singleton hfound]

theorem cons_of_mem_changesAt {key : Text} {path : List Text}
    (h : path ∈ changesAt before after key) : ∃ rest, path = key :: rest := by
  rcases own_cases before after key with hmissing | ⟨x, y, hx, hy⟩
  · rw [changesAt_missing hmissing, List.mem_singleton] at h
    exact ⟨[], h⟩
  · rw [changesAt_both hx hy, List.mem_map] at h
    obtain ⟨rest, _, rfl⟩ := h
    exact ⟨rest, rfl⟩

/-- The changes of two containers at a key. -/
theorem cons_mem_changes (hkind : jsonKindOf before = jsonKindOf after)
    (hcontainer : isContainer (jsonKindOf before) = true) {key : Text} {rest : List Text} :
    key :: rest ∈ changes before after ↔
      (own before key ≠ none ∨ own after key ≠ none) ∧
        key :: rest ∈ changesAt before after key := by
  rw [changes_container hkind hcontainer, List.mem_flatMap]
  constructor
  · rintro ⟨key', hkey', hmem⟩
    obtain ⟨_, heq⟩ := cons_of_mem_changesAt hmem
    obtain ⟨rfl, _⟩ := List.cons.inj heq
    exact ⟨(mem_childKeys hkind hcontainer).mp hkey', hmem⟩
  · rintro ⟨hkey, hmem⟩
    exact ⟨key, (mem_childKeys hkind hcontainer).mpr hkey, hmem⟩

/-- The changes are the places where the values differ. -/
theorem mem_changes {path : List Text} :
    path ∈ changes before after ↔ Changed before after path := by
  induction before using own_induction generalizing after path with
  | step before ih =>
    by_cases hkind : jsonKindOf before = jsonKindOf after
    swap
    · rw [changes_of_ne hkind, List.mem_singleton]
      constructor
      · rintro rfl
        exact changed_nil.mpr (.inl hkind)
      · intro h
        cases path with
        | nil => rfl
        | cons key path => exact absurd (.inl hkind) (not_differ_of_changed_cons h)
    by_cases hcontainer : isContainer (jsonKindOf before) = true
    · have hroot := not_differ_container hkind hcontainer
      cases path with
      | nil =>
        rw [changed_nil, changes_container hkind hcontainer, List.mem_flatMap]
        constructor
        · rintro ⟨key, _, hmem⟩
          obtain ⟨_, heq⟩ := cons_of_mem_changesAt hmem
          cases heq
        · exact fun h ↦ absurd h hroot
      | cons key rest =>
        rw [cons_mem_changes hkind hcontainer]
        rcases own_cases before after key with hmissing | ⟨x, y, hx, hy⟩
        · rw [changesAt_missing hmissing, changed_cons_missing hmissing, List.mem_singleton,
            List.cons_eq_cons]
          tauto
        · have hmem : key :: rest ∈ changesAt before after key ↔ Changed x y rest := by
            rw [changesAt_both hx hy, List.mem_map_of_injective (List.cons_injective)]
            exact ih key x hx
          rw [changed_cons_both hx hy, hmem, hx]
          tauto
    · rw [Bool.not_eq_true] at hcontainer
      have hcontainer' := hkind ▸ hcontainer
      rw [changes_leaf hkind hcontainer]
      cases path with
      | nil =>
        rw [changed_nil, Differ, ← sameLeaf_iff hkind hcontainer]
        split <;> simp_all
      | cons key rest =>
        rw [changed_cons_missing (.inl (own_leaf hcontainer key)), own_leaf hcontainer,
          own_leaf hcontainer']
        split <;> simp

/-- No place is found twice. -/
theorem nodup_changes (before after : Json ν) : (changes before after).Nodup := by
  induction before using own_induction generalizing after with
  | step before ih =>
    by_cases hkind : jsonKindOf before = jsonKindOf after
    swap
    · rw [changes_of_ne hkind]
      exact List.nodup_singleton _
    by_cases hcontainer : isContainer (jsonKindOf before) = true
    · rw [changes_container hkind hcontainer, List.nodup_flatMap]
      constructor
      · intro key _
        rcases own_cases before after key with hmissing | ⟨x, y, hx, hy⟩
        · rw [changesAt_missing hmissing]
          exact List.nodup_singleton _
        · rw [changesAt_both hx hy]
          exact (ih key x hx y).map List.cons_injective
      · refine (childKeys_nodup before after).imp fun {key key'} hne path hpath hpath' ↦ hne ?_
        obtain ⟨_, rfl⟩ := cons_of_mem_changesAt hpath
        obtain ⟨_, heq⟩ := cons_of_mem_changesAt hpath'
        exact (List.cons.inj heq).1
    · rw [changes_leaf hkind (by simpa using hcontainer)]
      split
      · exact List.nodup_nil
      · exact List.nodup_singleton _

/-- There is no change exactly between equal values. -/
theorem changes_eq_nil_iff : changes before after = [] ↔ Same before after := by
  induction before using own_induction generalizing after with
  | step before ih =>
    by_cases hkind : jsonKindOf before = jsonKindOf after
    swap
    · rw [changes_of_ne hkind]
      constructor
      · exact fun h ↦ absurd h (List.cons_ne_nil _ _)
      · exact fun h ↦ absurd h.jsonKindOf_eq hkind
    by_cases hcontainer : isContainer (jsonKindOf before) = true
    · rw [same_container_iff hkind hcontainer, changes_container hkind hcontainer,
        List.flatMap_eq_nil_iff]
      constructor
      · intro h
        refine ⟨fun key ↦ ?_, fun key x y hx hy ↦ ?_⟩
        · rcases own_cases before after key with hmissing | ⟨x, y, hx, hy⟩
          · have hneither : ¬ (own before key ≠ none ∨ own after key ≠ none) := by
              intro hone
              have hkey := h key ((mem_childKeys hkind hcontainer).mpr hone)
              rw [changesAt_missing hmissing] at hkey
              cases hkey
            tauto
          · simp [hx, hy]
        · have hone : own before key ≠ none ∨ own after key ≠ none := by simp [hx]
          have hkey := h key ((mem_childKeys hkind hcontainer).mpr hone)
          rw [changesAt_both hx hy, List.map_eq_nil_iff] at hkey
          exact (ih key x hx).mp hkey
      · rintro ⟨hkeys, hvalues⟩ key hkey
        rw [mem_childKeys hkind hcontainer, ← hkeys, or_self] at hkey
        obtain ⟨x, hx⟩ := Option.ne_none_iff_exists'.mp hkey
        obtain ⟨y, hy⟩ := Option.ne_none_iff_exists'.mp ((hkeys key).mp hkey)
        rw [changesAt_both hx hy, List.map_eq_nil_iff]
        exact (ih key x hx).mpr (hvalues key x y hx hy)
    · rw [Bool.not_eq_true] at hcontainer
      rw [changes_leaf hkind hcontainer, ← sameLeaf_iff hkind hcontainer]
      split <;> simp_all

/-- What a result tells of two values: nothing is listed exactly when they are equal, each pointer
listed is one of its own and names a place where they differ, and more places than are listed are
told of exactly when there are more than the cap. -/
structure TellsChanges (before after : Json ν) (result : PayloadChanges) : Prop where
  empty_iff : result.changedPaths = [] ↔ Same before after
  nodup : result.changedPaths.Nodup
  decodes : ∀ text ∈ result.changedPaths, ∃ path, decodePointer text = some path ∧
    Changed before after path ∧ ∀ text' ∈ result.changedPaths, ∀ front,
      decodePointer text' = some front → front <+: path → front = path
  truncated_iff : result.changedPathsTruncated = true ↔
    CHANGED_PATHS_MAX < {path | Changed before after path}.encard
  length_truncated : result.changedPathsTruncated = true →
    result.changedPaths.length = CHANGED_PATHS_MAX
  whole : result.changedPathsTruncated = false →
    ∀ path, Changed before after path → pointer path ∈ result.changedPaths

theorem encard_changed (before after : Json ν) :
    {path | Changed before after path}.encard = (changes before after).length := by
  have hset : {path | Changed before after path} = ((changes before after).toFinset : Set _) := by
    ext path
    rw [Set.mem_ofPred_eq, ← mem_changes, List.coe_toFinset, Set.mem_ofPred_eq]
  rw [hset, Set.encard_coe_eq_coe_finsetCard, List.toFinset_card_of_nodup (nodup_changes _ _)]

/-- What is found of two payloads is their changes, up to one past the cap. -/
theorem walk_payloads (before after : Json ν) :
    walk before after [] [] = ((changes before after).map pointer).take (CHANGED_PATHS_MAX + 1) :=
  walk_eq before after [] (Nat.zero_le _)

theorem changedPaths_eq (before after : Json ν) : (payloadChanges before after).changedPaths =
    ((changes before after).map pointer).take CHANGED_PATHS_MAX := by
  have hmin : min CHANGED_PATHS_MAX (CHANGED_PATHS_MAX + 1) = CHANGED_PATHS_MAX :=
    min_eq_left (Nat.le_succ _)
  rw [payloadChanges, walk_payloads, List.take_take, hmin]

theorem changedPathsTruncated_iff (before after : Json ν) :
    (payloadChanges before after).changedPathsTruncated = true ↔
      CHANGED_PATHS_MAX < (changes before after).length := by
  rw [payloadChanges, walk_payloads, decide_eq_true_eq, List.length_take, List.length_map]
  omega

/-- The pointers listed tell of any two payloads whether and where they differ, and whether there
are more differences than are listed. -/
theorem payloadChanges_tell (before after : Json ν) :
    TellsChanges before after (payloadChanges before after) := by
  have hnodup : ((changes before after).map pointer).Nodup :=
    (nodup_changes before after).map pointer_injective
  have hmem : ∀ text ∈ (payloadChanges before after).changedPaths,
      ∃ path, Changed before after path ∧ pointer path = text := by
    intro text htext
    rw [changedPaths_eq] at htext
    obtain ⟨path, hpath, rfl⟩ := List.mem_map.mp (List.mem_of_mem_take htext)
    exact ⟨path, mem_changes.mp hpath, rfl⟩
  refine ⟨?_, ?_, ?_, ?_, ?_, ?_⟩
  · rw [changedPaths_eq, List.take_eq_nil_iff, List.map_eq_nil_iff, changes_eq_nil_iff]
    exact or_iff_right (by decide)
  · rw [changedPaths_eq]
    exact hnodup.sublist (List.take_sublist _ _)
  · intro text htext
    obtain ⟨path, hpath, rfl⟩ := hmem text htext
    refine ⟨path, decodePointer_pointer path, hpath, fun text' htext' front hfront hprefix ↦ ?_⟩
    obtain ⟨path', hpath', rfl⟩ := hmem text' htext'
    rw [decodePointer_pointer] at hfront
    obtain rfl := Option.some.inj hfront
    by_contra hne
    exact hpath.2 path' hprefix hne hpath'.1
  · rw [changedPathsTruncated_iff, encard_changed]
    exact Nat.cast_lt.symm
  · rw [changedPathsTruncated_iff, changedPaths_eq, List.length_take, List.length_map]
    omega
  · intro hwhole path hpath
    have hle : ¬ CHANGED_PATHS_MAX < (changes before after).length := by
      rw [← changedPathsTruncated_iff, hwhole]
      simp
    rw [changedPaths_eq, List.take_of_length_le (by rw [List.length_map]; omega)]
    exact List.mem_map_of_mem (mem_changes.mpr hpath)

end

end FgGas.Events
