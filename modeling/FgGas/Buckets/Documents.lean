import FgGas.Buckets.ErrorKey

/-!
# What is left of documents

One turn of the loop does to the marks of a text what a pass does to brackets, so what the loop
leaves is told from how the brackets of the text nest.
-/

namespace FgGas.Buckets

open Machine

variable {k : Bracket} {c : Char} {cs group inner rest text : List Char}

/-! ### Groups -/

@[simp] theorem ofLeft_left : Bracket.ofLeft k.left = some k := by cases k <;> rfl

theorem ofLeft_eq_some (h : Bracket.ofLeft c = some k) : c = k.left := by
  unfold Bracket.ofLeft at h
  split at h
  · next hc =>
    cases h
    exact hc
  · split at h
    · next hc =>
      cases h
      exact hc
    · cases h

@[simp] theorem ofRight_right : Bracket.ofRight k.right = some k := by cases k <;> rfl

theorem ofRight_eq_some (h : Bracket.ofRight c = some k) : c = k.right := by
  unfold Bracket.ofRight at h
  split at h
  · next hc =>
    cases h
    exact hc
  · split at h
    · next hc =>
      cases h
      exact hc
    · cases h

@[simp] theorem ofRight_left : Bracket.ofRight k.left = none := by cases k <;> rfl

@[simp] theorem ofLeft_right : Bracket.ofLeft k.right = none := by cases k <;> rfl

theorem plain_eq_false : k.plain c = false ↔ c = k.left ∨ c = k.right := by
  unfold Bracket.plain
  by_cases hl : c = k.left <;> simp [hl]

theorem innerBraces_group (hinner : inner.all k.plain = true) :
    innerBraces (k.left :: (inner ++ k.right :: rest)) =
      some (k.left :: (inner ++ [k.right])) := by
  have hplain : ∀ d ∈ inner, k.plain d = true := List.all_eq_true.mp hinner
  have hright : k.plain k.right = false := plain_eq_false.mpr (.inr rfl)
  have hdrop : (inner ++ k.right :: rest).dropWhile k.plain = k.right :: rest := by
    rw [List.dropWhile_append_of_pos hplain, List.dropWhile_cons_of_neg (by simp [hright])]
  have htake : (inner ++ k.right :: rest).takeWhile k.plain = inner := by
    rw [List.takeWhile_append_of_pos hplain, List.takeWhile_cons_of_neg (by simp [hright]),
      List.append_nil]
  simp [innerBraces, hdrop, htake]

/-- What is matched is a group. -/
theorem innerBraces_eq_some (h : innerBraces text = some group) :
    ∃ (k : Bracket) (inner rest : List Char), inner.all k.plain = true ∧
      group = k.left :: (inner ++ [k.right]) ∧ text = group ++ rest := by
  cases text with
  | nil => cases h
  | cons c cs =>
    obtain ⟨k, hk, h⟩ := Option.bind_eq_some_iff.mp h
    obtain rfl := ofLeft_eq_some hk
    split at h
    · next hhead =>
      obtain ⟨rest, hrest⟩ := List.head?_eq_some_iff.mp hhead
      have hcs := List.takeWhile_append_dropWhile (p := k.plain) (l := cs)
      refine ⟨k, cs.takeWhile k.plain, rest, List.all_takeWhile, (Option.some.inj h).symm, ?_⟩
      rw [← Option.some.inj h, List.cons_append, List.append_assoc, List.singleton_append,
        ← hrest, hcs]
    · cases h

/-- Where nothing is matched after an opening character, the next of its kind opens too. -/
theorem innerBraces_eq_none (h : innerBraces (k.left :: cs) = none) :
    ∃ inner rest, cs = inner ++ rest ∧ inner.all k.plain = true ∧
      ∀ d ∈ rest.head?, d = k.left := by
  refine ⟨cs.takeWhile k.plain, cs.dropWhile k.plain, List.takeWhile_append_dropWhile.symm,
    List.all_takeWhile, fun d hd ↦ ?_⟩
  have hhead := List.head?_dropWhile_not k.plain cs
  rw [Option.mem_def.mp hd] at hhead
  refine (plain_eq_false.mp hhead).resolve_right ?_
  rintro rfl
  simp [innerBraces, Option.mem_def.mp hd] at h

/-- A group is matched whatever follows it. -/
theorem innerBraces_append (h : innerBraces (group ++ rest) = some group) (more : List Char) :
    innerBraces (group ++ more) = some group := by
  obtain ⟨k, inner, rest', hinner, rfl, -⟩ := innerBraces_eq_some h
  rw [List.cons_append, List.append_assoc, List.singleton_append]
  exact innerBraces_group hinner

/-- Induction along the pieces of a text that a search finds at its start. -/
theorem pieces_induction {P : List Char → Prop} (find : List Char → Option (List Char))
    (hfind : ∀ text piece, find text = some piece → piece ≠ [] ∧ ∃ rest, text = piece ++ rest)
    (nil : P [])
    (piece : ∀ piece rest, find (piece ++ rest) = some piece → P rest → P (piece ++ rest))
    (cons : ∀ c cs, find (c :: cs) = none → P cs → P (c :: cs)) (text : List Char) : P text := by
  induction hlen : text.length using Nat.strong_induction_on generalizing text with
  | h n ih =>
    subst hlen
    cases htext : find text with
    | none =>
      cases text with
      | nil => exact nil
      | cons c cs => exact cons c cs htext (ih _ (Nat.lt_succ_self _) cs rfl)
    | some found =>
      obtain ⟨hne, rest, rfl⟩ := hfind text found htext
      refine piece found rest htext (ih rest.length ?_ rest rfl)
      have := List.length_pos_iff.mpr hne
      rw [List.length_append]
      omega

theorem innerBraces_piece (text group : List Char) (h : innerBraces text = some group) :
    group ≠ [] ∧ ∃ rest, text = group ++ rest := by
  obtain ⟨k, inner, rest, -, rfl, htext⟩ := innerBraces_eq_some h
  exact ⟨List.cons_ne_nil _ _, rest, htext⟩

/-! ### Indexes -/

/-- The index at the start of a text. -/
theorem index_iff : (innerBraces text).filter isIndex = some group ↔
    ∃ digits rest, group = '[' :: (digits ++ [']']) ∧ digits.all Char.isDigit = true ∧
      isIndex group = true ∧ text = group ++ rest := by
  rw [Option.filter_eq_some_iff]
  constructor
  · rintro ⟨h, hindex⟩
    obtain ⟨k, inner, rest, -, -, htext⟩ := innerBraces_eq_some h
    have hparts := hindex
    rw [isIndex, Bool.and_eq_true, Bool.and_eq_true, Bool.and_eq_true,
      decide_eq_true_eq] at hparts
    exact ⟨(group.drop 1).dropLast, rest, hparts.1.1.1, hparts.2, hindex, htext⟩
  · rintro ⟨digits, rest, rfl, hdigits, hindex, rfl⟩
    refine ⟨?_, hindex⟩
    rw [List.cons_append, List.append_assoc, List.singleton_append]
    refine innerBraces_group (k := .square) (List.all_eq_true.mpr fun d hd ↦ ?_)
    have hdigit := List.all_eq_true.mp hdigits d hd
    unfold Bracket.plain
    rw [Bool.and_eq_true, decide_eq_true_eq, decide_eq_true_eq]
    constructor <;> rintro rfl <;> exact absurd hdigit (by decide)

theorem index_piece (text group : List Char) (h : (innerBraces text).filter isIndex = some group) :
    group ≠ [] ∧ ∃ rest, text = group ++ rest := by
  obtain ⟨digits, rest, rfl, -, -, htext⟩ := index_iff.mp h
  exact ⟨List.cons_ne_nil _ _, rest, htext⟩

/-- An index holds no brace. -/
theorem brace_plain_of_index (h : (innerBraces text).filter isIndex = some group) :
    ∀ d ∈ group, Bracket.brace.plain d = true := by
  obtain ⟨digits, rest, rfl, hdigits, -, -⟩ := index_iff.mp h
  intro d hd
  unfold Bracket.plain
  rw [Bool.and_eq_true, decide_eq_true_eq, decide_eq_true_eq]
  rcases List.mem_cons.mp hd with rfl | hd
  · decide
  · rcases List.mem_append.mp hd with hd | hd
    · have hdigit := List.all_eq_true.mp hdigits d hd
      constructor <;> rintro rfl <;> exact absurd hdigit (by decide)
    · obtain rfl := List.mem_singleton.mp hd
      decide

/-! ### A turn of the loop -/

theorem replaceAfter_drop (skip : ℕ) (text : List Char) :
    replaceAfter skip text = replaceInner (text.drop skip) := by
  induction skip generalizing text with
  | zero => rfl
  | succ skip ih =>
    cases text with
    | nil => rfl
    | cons c cs => exact ih cs

theorem replaceInner_group (h : innerBraces (group ++ rest) = some group) :
    replaceInner (group ++ rest) =
      (if isIndex group then group else valueText) ++ replaceInner rest := by
  obtain ⟨k, inner, rest', -, hgroup, -⟩ := innerBraces_eq_some h
  obtain ⟨c, cs, rfl⟩ : ∃ c cs, group = c :: cs := ⟨_, _, hgroup⟩
  rw [List.cons_append] at h ⊢
  rw [replaceInner, replaceAfter, h]
  simp only [replaceAfter_drop]
  rw [List.length_cons, Nat.add_sub_cancel, List.drop_left]

theorem replaceInner_cons (h : innerBraces (c :: cs) = none) :
    replaceInner (c :: cs) = c :: replaceInner cs := by
  rw [replaceInner, replaceAfter, h]
  rfl

/-- A brace or a square bracket. -/
def isBracket (c : Char) : Bool := (Bracket.ofLeft c).isSome || (Bracket.ofRight c).isSome

/-- A turn leaves fewer braces and brackets, or nothing changes. -/
theorem replaceInner_shrinks (text : List Char) :
    (replaceInner text).countP isBracket < text.countP isBracket ∨ replaceInner text = text := by
  induction text using pieces_induction innerBraces innerBraces_piece with
  | nil => exact .inr rfl
  | piece group rest h ih =>
    rw [replaceInner_group h, List.countP_append, List.countP_append]
    split
    · rcases ih with ih | ih
      · exact .inl (Nat.add_lt_add_left ih _)
      · exact .inr (by rw [ih])
    · obtain ⟨k, inner, rest', -, rfl, -⟩ := innerBraces_eq_some h
      have hvalue : valueText.countP isBracket = 0 := by decide
      have hleft : isBracket k.left = true := by simp [isBracket]
      have hle : (replaceInner rest).countP isBracket ≤ rest.countP isBracket := by
        rcases ih with ih | ih
        · exact ih.le
        · rw [ih]
      rw [List.countP_cons_of_pos hleft]
      exact .inl (by omega)
  | cons c cs h ih =>
    rw [replaceInner_cons h, List.countP_cons, List.countP_cons]
    rcases ih with ih | ih
    · exact .inl (Nat.add_lt_add_right ih _)
    · exact .inr (by rw [ih])

/-- What a turn leaves at the start, before a closing bracket, stood there. -/
theorem replaceInner_digits {digits tail : List Char} (hdigits : digits.all Char.isDigit = true)
    (h : replaceInner text = digits ++ ']' :: tail) : ∃ tail', text = digits ++ ']' :: tail' := by
  have hkeeps : ∀ {c : Char} {cs text : List Char}, c.isDigit = true ∨ c = ']' →
      replaceInner text = c :: cs → ∃ cs', text = c :: cs' ∧ replaceInner cs' = cs := by
    intro c cs text hc h
    cases text with
    | nil => cases h
    | cons d ds =>
      cases hgroup : innerBraces (d :: ds) with
      | none =>
        rw [replaceInner_cons hgroup] at h
        obtain ⟨rfl, rfl⟩ := List.cons.inj h
        exact ⟨ds, rfl, rfl⟩
      | some group =>
        obtain ⟨k, inner, rest, -, rfl, htext⟩ := innerBraces_eq_some hgroup
        rw [htext] at hgroup h
        rw [replaceInner_group hgroup] at h
        split at h
        · obtain rfl := (List.cons.inj h).1
          cases k <;> exact absurd hc (by decide)
        · obtain rfl : '<' = c := (List.cons.inj h).1
          exact absurd hc (by decide)
  induction digits generalizing text with
  | nil =>
    obtain ⟨cs, rfl, -⟩ := hkeeps (.inr rfl) h
    exact ⟨cs, rfl⟩
  | cons d digits ih =>
    rw [List.all_cons, Bool.and_eq_true] at hdigits
    obtain ⟨cs, rfl, hcs⟩ := hkeeps (.inl hdigits.1) h
    obtain ⟨tail', rfl⟩ := ih hdigits.2 hcs
    exact ⟨tail', rfl⟩

/-! ### The marks of a text -/

theorem marksAfter_drop (skip : ℕ) (text : List Char) :
    marksAfter skip text = marks (text.drop skip) := by
  induction skip generalizing text with
  | zero => rfl
  | succ skip ih =>
    cases text with
    | nil => rfl
    | cons c cs => exact ih cs

theorem marks_index (h : (innerBraces (group ++ rest)).filter isIndex = some group) :
    marks (group ++ rest) = .atom :: marks rest := by
  obtain ⟨digits, rest', hgroup, -, -, -⟩ := index_iff.mp h
  obtain ⟨c, cs, rfl⟩ : ∃ c cs, group = c :: cs := ⟨_, _, hgroup⟩
  rw [List.cons_append] at h ⊢
  rw [marks, marksAfter, h]
  simp only [marksAfter_drop]
  rw [List.length_cons, Nat.add_sub_cancel, List.drop_left]

theorem marks_cons (h : (innerBraces (c :: cs)).filter isIndex = none) :
    marks (c :: cs) = ((Bracket.ofLeft c).map Mark.opening).toList ++
      ((Bracket.ofRight c).map Mark.closing).toList ++ marks cs := by
  rw [marks, marksAfter, h]
  rfl

theorem marks_left (h : (innerBraces (k.left :: cs)).filter isIndex = none) :
    marks (k.left :: cs) = .opening k :: marks cs := by
  simp [marks_cons h]

theorem marks_right : marks (k.right :: cs) = .closing k :: marks cs := by
  rw [marks_cons (by simp [innerBraces])]
  simp

theorem marks_other (hleft : Bracket.ofLeft c = none) (hright : Bracket.ofRight c = none) :
    marks (c :: cs) = marks cs := by
  rw [marks_cons (by simp [innerBraces, hleft]), hleft, hright]
  rfl

/-- A text is marked by its parts where a bracket of a kind ends the first one. -/
theorem marks_append (hinner : inner.all k.plain = true)
    (hrest : ∀ d ∈ rest.head?, k.plain d = false) :
    marks (inner ++ rest) = marks inner ++ marks rest := by
  induction inner using pieces_induction _ index_piece with
  | nil => rfl
  | piece group more h ih =>
    rw [List.all_append, Bool.and_eq_true] at hinner
    obtain ⟨digits, -, hgroup, hdigits, hindex, -⟩ := index_iff.mp h
    have hmore : (innerBraces (group ++ (more ++ rest))).filter isIndex = some group :=
      index_iff.mpr ⟨digits, _, hgroup, hdigits, hindex, rfl⟩
    rw [List.append_assoc, marks_index h, marks_index hmore, ih hinner.2, List.cons_append]
  | cons c cs h ih =>
    have hcs := hinner
    rw [List.all_cons, Bool.and_eq_true] at hcs
    have hnone : (innerBraces (c :: (cs ++ rest))).filter isIndex = none := by
      by_contra hne
      obtain ⟨group, hgroup⟩ := Option.ne_none_iff_exists'.mp hne
      have hbraces := brace_plain_of_index hgroup
      obtain ⟨digits, rest', hshape, hdigits, hindex, htext⟩ := index_iff.mp hgroup
      -- the index would reach over the end of the first part
      obtain rfl : k = .brace := by
        rw [hshape] at htext
        obtain rfl := (List.cons.inj htext).1
        cases k with
        | brace => rfl
        | square => exact absurd hcs.1 (by decide)
      have hwithin : ∀ mid, c :: cs ≠ group ++ mid := fun mid hmid ↦ by
        rw [index_iff.mpr ⟨digits, mid, hshape, hdigits, hindex, hmid⟩] at h
        cases h
      rw [← List.cons_append, List.append_eq_append_iff] at htext
      rcases htext with ⟨mid, hmid, hacross⟩ | ⟨mid, hmid, -⟩
      · cases mid with
        | nil => exact hwithin [] (by rw [hmid, List.append_nil, List.append_nil])
        | cons d mid =>
          have hd := hrest d (by rw [hacross]; rfl)
          rw [hbraces d (by rw [hmid]; simp)] at hd
          cases hd
      · exact hwithin mid hmid
    rw [List.cons_append, marks_cons hnone, marks_cons h, ih hcs.2, ← List.append_assoc]

/-- The marks of a text without brackets of a kind are of other kinds. -/
theorem marks_of_plain (hinner : inner.all k.plain = true) :
    ∀ m ∈ marks inner, m.Of .square k = false := by
  induction inner using pieces_induction _ index_piece with
  | nil => simp [marks, marksAfter]
  | piece group more h ih =>
    rw [List.all_append, Bool.and_eq_true] at hinner
    rw [marks_index h]
    intro m hm
    rcases List.mem_cons.mp hm with rfl | hm
    · obtain ⟨digits, -, rfl, -⟩ := index_iff.mp h
      cases k with
      | brace => rfl
      | square => exact absurd (List.all_eq_true.mp hinner.1 '[' List.mem_cons_self) (by decide)
    · exact ih hinner.2 m hm
  | cons c cs h ih =>
    rw [List.all_cons, Bool.and_eq_true] at hinner
    rw [marks_cons h]
    intro m hm
    rcases List.mem_append.mp hm with hm | hm
    · have hplain : k.plain c ≠ false := by rw [hinner.1]; decide
      rw [Ne, plain_eq_false, not_or] at hplain
      rcases List.mem_append.mp hm with hm | hm
      · obtain ⟨k', hk, rfl⟩ := Option.map_eq_some_iff.mp (Option.mem_toList.mp hm)
        have hne : k' ≠ k := fun heq ↦ hplain.1 (heq ▸ ofLeft_eq_some hk)
        simpa [Mark.Of] using hne
      · obtain ⟨k', hk, rfl⟩ := Option.map_eq_some_iff.mp (Option.mem_toList.mp hm)
        have hne : k' ≠ k := fun heq ↦ hplain.2 (heq ▸ ofRight_eq_some hk)
        simpa [Mark.Of] using hne
    · exact ih hinner.2 m hm

/-! ### A turn on the marks -/

theorem marks_valueText (text : List Char) : marks (valueText ++ text) = marks text := by
  rw [show valueText ++ text = '<' :: 'v' :: '>' :: text from rfl,
    marks_other (by decide) (by decide), marks_other (by decide) (by decide),
    marks_other (by decide) (by decide)]

/-- An opening bracket that opens no group is marked, and no bracket of its kind closes before the
next one opens. -/
theorem find_marks_of_none (h : innerBraces (k.left :: cs) = none) :
    (marks cs).find? (Mark.Of .square k) ≠ some (.closing k) := by
  obtain ⟨inner, rest, rfl, hinner, hrest⟩ := innerBraces_eq_none h
  rw [marks_append hinner fun d hd ↦ plain_eq_false.mpr (.inl (hrest d hd)), List.find?_append,
    List.find?_eq_none.mpr (by simpa using marks_of_plain hinner), Option.none_or]
  cases rest with
  | nil => simp [marks, marksAfter]
  | cons d ds =>
    obtain rfl := hrest d rfl
    cases hindex : (innerBraces (k.left :: ds)).filter isIndex with
    | none => simp [marks_left hindex, Mark.Of]
    | some group =>
      obtain ⟨hne, more, hmore⟩ := index_piece _ _ hindex
      rw [hmore] at hindex ⊢
      rw [marks_index hindex]
      obtain ⟨digits, -, rfl, -⟩ := index_iff.mp hindex
      have hk : k = .square := by
        cases k with
        | brace => exact absurd (List.cons.inj hmore).1 (by decide)
        | square => rfl
      simp [Mark.Of, hk]

/-- A turn of the loop is a pass over the marks. -/
theorem marks_replaceInner (text : List Char) :
    marks (replaceInner text) = collapse .square (marks text) := by
  induction text using pieces_induction innerBraces innerBraces_piece with
  | nil => simp [replaceInner, replaceAfter, marks, marksAfter]
  | piece group rest h ih =>
    rw [replaceInner_group h]
    by_cases hindex : isIndex group = true
    · have hkept := innerBraces_append h
      rw [if_pos hindex, marks_index (by rw [hkept, Option.filter_some, if_pos hindex]),
        marks_index (by rw [h, Option.filter_some, if_pos hindex]), ih, collapse_atom]
    · obtain ⟨k, inner, rest', hinner, rfl, -⟩ := innerBraces_eq_some h
      have hend : ∀ d ∈ (k.right :: rest).head?, k.plain d = false := by
        rintro d ⟨⟩
        exact plain_eq_false.mpr (.inr rfl)
      rw [if_neg hindex, marks_valueText, ih]
      rw [List.cons_append, List.append_assoc, List.singleton_append] at h ⊢
      rw [marks_left (by rw [h, Option.filter_some, if_neg hindex]), marks_append hinner hend,
        marks_right, collapse_pair (marks_of_plain hinner)]
  | cons c cs h ih =>
    rw [replaceInner_cons h]
    cases hleft : Bracket.ofLeft c with
    | none =>
      cases hright : Bracket.ofRight c with
      | none => rw [marks_other hleft hright, marks_other hleft hright, ih]
      | some k =>
        obtain rfl := ofRight_eq_some hright
        rw [marks_right, marks_right, ih, collapse_closing]
    | some k =>
      obtain rfl := ofLeft_eq_some hleft
      have hnone : (innerBraces (k.left :: replaceInner cs)).filter isIndex = none := by
        -- the digits and the bracket of an index would have stood there before
        by_contra hne
        obtain ⟨group, hgroup⟩ := Option.ne_none_iff_exists'.mp hne
        obtain ⟨digits, rest, rfl, hdigits, hindex, htext⟩ := index_iff.mp hgroup
        rw [List.cons_append, List.append_assoc, List.singleton_append] at htext
        obtain ⟨hk, htail⟩ := List.cons.inj htext
        obtain ⟨tail', rfl⟩ := replaceInner_digits hdigits htail
        have hfound := index_iff.mpr
          ⟨digits, tail', rfl, hdigits, hindex, (rfl : '[' :: (digits ++ [']']) ++ tail' = _)⟩
        rw [List.cons_append, List.append_assoc, List.singleton_append, ← hk, h] at hfound
        cases hfound
      rw [marks_left hnone, marks_left (by rw [h, Option.filter_none]),
        collapse_opening (find_marks_of_none h), ih]

theorem marks_iterate (n : ℕ) (text : List Char) :
    marks (replaceInner^[n] text) = (collapse .square)^[n] (marks text) := by
  induction n generalizing text with
  | zero => rfl
  | succ n ih =>
    rw [Function.iterate_succ_apply, Function.iterate_succ_apply, ih, marks_replaceInner]

/-- The loop ends, in no more turns than the text has braces and brackets and one. -/
theorem withoutDocuments_ends (text : List Char) :
    ∃ n, replaceInner (replaceInner^[n] text) = replaceInner^[n] text ∧
      ∀ turns, text.length < turns →
        withoutDocuments turns text = some (replaceInner^[n] text) := by
  obtain ⟨n, hfixed, hends⟩ := untilStable_ends (List.countP isBracket)
    (fun text hne ↦ (replaceInner_shrinks text).resolve_right hne) text
  exact ⟨n, hfixed, fun turns hturns ↦
    hends turns (List.countP_le_length.trans_lt hturns)⟩

/-- The loop over an error message ends for every text. No document in braces is left, and no group
in square brackets but around an index. Nothing is left of any group but the indexes where the
brackets of the text can be read as groups with no index directly in a list; and where its pairs do
not cross, only there. -/
theorem withoutDocuments_leaves (text : List Char) :
    ∃ result, (∀ turns, text.length < turns → withoutDocuments turns text = some result) ∧
      (∀ k, [Mark.opening k, Mark.closing k].Sublist (marks result) →
        k = .square ∧ [Mark.opening .square, .atom, .closing .square].Sublist (marks result)) ∧
      (Readable .square (marks text) → Unpaired (marks result)) ∧
      (Uncrossed (marks text) → (Unpaired (marks result) ↔ Readable .square (marks text))) := by
  obtain ⟨n, hfixed, hends⟩ := withoutDocuments_ends text
  have hmarks := congrArg marks hfixed
  rw [marks_replaceInner] at hmarks
  refine ⟨_, hends, fun k hpair ↦ ?_, ?_⟩
  · obtain ⟨rfl, hatom⟩ := atom_between hmarks hpair
    exact ⟨rfl, hatom⟩
  · rw [marks_iterate] at hmarks ⊢
    exact ⟨unpaired_of_readable hmarks, unpaired_iff_readable hmarks⟩

/-- A list of lists of one small number stays in the key as it is. -/
theorem nested_indexes_left :
    ¬ ∀ text : List Char, ∃ turns result, withoutDocuments turns text = some result ∧
      Unpaired (marks result) := by
  intro h
  obtain ⟨turns, result, hresult, hunpaired⟩ := h "[[1],[2]]".toList
  have hkept : replaceInner "[[1],[2]]".toList = "[[1],[2]]".toList := by decide
  cases turns with
  | zero => cases hresult
  | succ turns =>
    rw [withoutDocuments, untilStable, hkept] at hresult
    obtain rfl : "[[1],[2]]".toList = result := by simpa using hresult
    exact hunpaired .square (by decide)

end FgGas.Buckets
