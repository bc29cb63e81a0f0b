import FgGas.AllowLists.Form
import FgGas.Machine.Assign

/-!
# Submitting an allow list again

The errors that a refused form shows are those of its lines, no more and no less: the form without
the lines that are reported is accepted, and lists what was well formed in it. An allow list that
is shown and submitted as it is stays as it is.
-/

namespace FgGas.AllowLists

open Machine

/-! ### Lines -/

section
variable {text : String} {value : String} {k : ℕ} {texts : List (List Char)}

theorem map_value_toLine : ((texts.zipIdx k).map toLine).map Line.value =
    texts.map fun line ↦ trimText (String.ofList line) := by
  induction texts generalizing k with
  | nil => rfl
  | cons line texts ih =>
    rw [List.zipIdx_cons, List.map_cons, List.map_cons, ih, List.map_cons]
    rfl

theorem linesIn_eq : linesIn text =
    ((splitLines text.toList).map fun line ↦ trimText (String.ofList line)).filter (· ≠ "") := by
  rw [← map_value_toLine (k := 0), List.filter_map]
  rfl

theorem mem_linesIn (h : value ∈ linesIn text) : trimText value = value ∧ value ≠ "" := by
  rw [linesIn_eq] at h
  obtain ⟨hmem, hne⟩ := List.mem_filter.mp h
  obtain ⟨line, -, rfl⟩ := List.mem_map.mp hmem
  exact ⟨trimText_trimText _, of_decide_eq_true hne⟩

/-- What is parsed of a form is normal already. -/
theorem normalize_linesIn : normalize (linesIn text) = linesIn text := by
  have htrim : (linesIn text).map trimText = linesIn text :=
    (List.map_congr_left fun value h ↦ (mem_linesIn h).1).trans (List.map_id _)
  rw [normalize, htrim]
  exact List.filter_eq_self.mpr fun value h ↦ decide_eq_true (mem_linesIn h).2

end

section
variable {list : GrantAllowList} {form : Form}

theorem replaceGlobal_eq_ok {identifiers : Identifiers} {list' : GrantAllowList} :
    list.replaceGlobal identifiers = .ok list' ↔ list'.grantCode = list.grantCode ∧
      list'.identifiers = ⟨normalize identifiers.sbi, normalize identifiers.crn⟩ := by
  unfold GrantAllowList.replaceGlobal
  constructor
  · intro h
    split at h
    · cases h
    · next valid hvalid =>
      obtain rfl := Except.ok.inj h
      exact ⟨rfl, (validate_eq_ok.mp hvalid).1.symm⟩
  · rintro ⟨hcode, hidentifiers⟩
    split
    · next problems hproblems =>
      have hvalid := validate_eq_ok.mpr ⟨rfl, list'.wellFormed⟩
      rw [hidentifiers, hproblems] at hvalid
      cases hvalid
    · next valid hvalid =>
      obtain ⟨rfl, -⟩ := validate_eq_ok.mp hvalid
      exact congrArg Except.ok (GrantAllowList.ext hcode.symm hidentifiers.symm)

theorem replaceGlobal_eq_error {identifiers : Identifiers} {problems : Problems}
    (h : list.replaceGlobal identifiers = .error problems) :
    problems = problemsIn ⟨normalize identifiers.sbi, normalize identifiers.crn⟩ := by
  unfold GrantAllowList.replaceGlobal at h
  split at h
  · next hproblems =>
    obtain rfl := Except.error.inj h
    unfold validate at hproblems
    dsimp only at hproblems
    split at hproblems
    · exact (Except.error.inj hproblems).symm
    · cases hproblems
  · cases h

end

/-! ### The errors of a line -/

/-- The errors of a line after others: that it is no identifier, and that it is the first line with
its value again. -/
def errorsAt (kind : IdentifierKind) (before : List Line) (line : Line) : List FieldError :=
  (if satisfiesPattern kind line.value then [] else [invalidError kind line]) ++
    match before.find? (·.value = line.value) with
    | none => []
    | some first => [duplicateError kind line first.number]

/-- The lines that stand without an error. -/
def soundFrom (kind : IdentifierKind) : List Line → List Line → List Line
  | _, [] => []
  | before, line :: lines =>
    if errorsAt kind before line = [] then line :: soundFrom kind (before ++ [line]) lines
    else soundFrom kind (before ++ [line]) lines

section
variable {kind : IdentifierKind} {problems : IdentifierProblems} {before lines : List Line}
  {line : Line} {firstLineFor : List (String × ℕ)} {e : FieldError}

theorem errorsAt_eq_nil : errorsAt kind before line = [] ↔
    satisfiesPattern kind line.value = true ∧ line.value ∉ before.map Line.value := by
  have hfind : line.value ∉ before.map Line.value ↔
      before.find? (·.value = line.value) = none := by
    rw [List.find?_eq_none]
    simp
  rw [hfind, errorsAt, List.append_eq_nil_iff]
  refine and_congr ?_ ?_
  · split
    · next h => exact iff_of_true rfl h
    · next h => exact iff_of_false (List.cons_ne_nil _ _) h
  · split
    · next h => exact iff_of_true rfl h
    · next h => exact iff_of_false (List.cons_ne_nil _ _) (by rw [h]; exact Option.some_ne_none _)

/-- What the map of first lines holds after some lines. -/
def FirstLines (firstLineFor : List (String × ℕ)) (before : List Line) : Prop :=
  ∀ value, firstLineFor.lookup value = (before.find? (·.value = value)).map Line.number

/-- A value that was not seen is seen first in its line. -/
theorem FirstLines.snoc (h : FirstLines firstLineFor before)
    (hnone : before.find? (·.value = line.value) = none) :
    FirstLines ((line.value, line.number) :: firstLineFor) (before ++ [line]) := by
  intro value
  rw [lookup_cons_eq, List.find?_append, h value, List.find?_singleton]
  by_cases hvalue : value = line.value
  · rw [hvalue, hnone, if_pos (beq_self_eq_true _), decide_eq_true rfl]
    rfl
  · rw [if_neg (fun heq ↦ hvalue (eq_of_beq heq)), decide_eq_false (Ne.symm hvalue)]
    simp

/-- A value that was seen is seen first where it was. -/
theorem FirstLines.again {first : Line} (h : FirstLines firstLineFor before)
    (hsome : before.find? (·.value = line.value) = some first) :
    FirstLines firstLineFor (before ++ [line]) := by
  intro value
  rw [List.find?_append, h value, List.find?_singleton]
  by_cases hvalue : line.value = value
  · rw [← hvalue, hsome]
    rfl
  · rw [decide_eq_false hvalue]
    simp

/-- What is seen as invalid and as duplicate is so, among the lines. -/
structure Finds (kind : IdentifierKind) (problems : IdentifierProblems) (lines : List Line) :
    Prop where
  invalid : ∀ line ∈ lines,
    line.value ∈ problems.invalid ↔ satisfiesPattern kind line.value = false
  duplicate : ∀ before line after, lines = before ++ line :: after →
    line.value ∈ before.map Line.value → line.value ∈ problems.duplicate

/-- The errors of the first line are those after the lines before. -/
theorem errorsFrom_cons (hfinds : Finds kind problems (before ++ line :: lines))
    (hfirst : FirstLines firstLineFor before) : ∃ firstLineFor',
      FirstLines firstLineFor' (before ++ [line]) ∧
        errorsFrom kind problems firstLineFor (line :: lines) =
          errorsAt kind before line ++ errorsFrom kind problems firstLineFor' lines := by
  have hinvalid : (if line.value ∈ problems.invalid then [invalidError kind line] else []) =
      if satisfiesPattern kind line.value then [] else [invalidError kind line] := by
    have h := hfinds.invalid line (List.mem_append_right _ List.mem_cons_self)
    cases hpattern : satisfiesPattern kind line.value with
    | true => rw [if_neg (by rw [h, hpattern]; exact Bool.noConfusion), if_pos rfl]
    | false => rw [if_pos (h.mpr hpattern), if_neg Bool.false_ne_true]
  rw [errorsFrom, hinvalid, hfirst line.value, errorsAt]
  cases hfind : before.find? (·.value = line.value) with
  | none => exact ⟨_, hfirst.snoc hfind, by rw [List.append_nil]; rfl⟩
  | some first =>
    have hmem : line.value ∈ before.map Line.value :=
      List.mem_map.mpr
        ⟨first, List.mem_of_find?_eq_some hfind, by simpa using List.find?_some hfind⟩
    refine ⟨_, hfirst.again hfind, ?_⟩
    dsimp only [Option.map_some]
    rw [if_pos (hfinds.duplicate before line lines rfl hmem)]

/-- The errors are those of each line after those before it. -/
theorem mem_errorsFrom (hfinds : Finds kind problems (before ++ lines))
    (hfirst : FirstLines firstLineFor before) : e ∈ errorsFrom kind problems firstLineFor lines ↔
      ∃ inner line after, lines = inner ++ line :: after ∧
        e ∈ errorsAt kind (before ++ inner) line := by
  induction lines generalizing before firstLineFor with
  | nil =>
    rw [errorsFrom]
    refine iff_of_false List.not_mem_nil ?_
    rintro ⟨inner, line, after, h, -⟩
    exact absurd h.symm (by simp)
  | cons line lines ih =>
    obtain ⟨firstLineFor', hfirst', heq⟩ := errorsFrom_cons hfinds hfirst
    have hfinds' : Finds kind problems ((before ++ [line]) ++ lines) := by
      rwa [List.append_assoc, List.singleton_append]
    rw [heq, List.mem_append, ih hfinds' hfirst']
    constructor
    · rintro (h | ⟨inner, other, after, rfl, h⟩)
      · exact ⟨[], line, lines, rfl, by rwa [List.append_nil]⟩
      · refine ⟨line :: inner, other, after, rfl, ?_⟩
        rwa [List.append_assoc, List.singleton_append] at h
    · rintro ⟨inner, other, after, hlines, h⟩
      cases inner with
      | nil =>
        obtain ⟨rfl, rfl⟩ := List.cons.inj hlines
        exact .inl (by rwa [List.append_nil] at h)
      | cons first inner =>
        obtain ⟨rfl, rfl⟩ := List.cons.inj hlines
        refine .inr ⟨inner, other, after, rfl, ?_⟩
        rwa [List.append_assoc, List.singleton_append]

theorem finds_identifierProblemsIn :
    Finds kind (identifierProblemsIn kind (lines.map Line.value)) lines where
  invalid line hline := by
    rw [identifierProblemsIn, mem_invalidValuesIn]
    exact and_iff_right (List.mem_map_of_mem hline)
  duplicate before line after hlines hmem := by
    rw [identifierProblemsIn, mem_duplicateValuesIn, hlines, List.map_append, List.count_append,
      List.map_cons, List.count_cons_self]
    have := List.one_le_count_iff.mpr hmem
    omega

/-- A form reports that a line is no identifier, and that it is an earlier one again, where it is
so and nowhere else. -/
theorem mem_errorsFor :
    e ∈ errorsFor kind lines (identifierProblemsIn kind (lines.map Line.value)) ↔
    ∃ before line after, lines = before ++ line :: after ∧ e ∈ errorsAt kind before line := by
  have hfirst : FirstLines [] [] := fun _ ↦ rfl
  have hfinds : Finds kind (identifierProblemsIn kind (lines.map Line.value)) ([] ++ lines) :=
    finds_identifierProblemsIn
  rw [errorsFor, mem_errorsFrom hfinds hfirst]
  simp only [List.nil_append]

theorem line_of_mem_errorsAt (h : e ∈ errorsAt kind before line) : e.line = line.number := by
  rcases List.mem_append.mp h with h | h
  · split at h
    · cases h
    · rw [List.mem_singleton.mp h, invalidError]
  · split at h
    · cases h
    · rw [List.mem_singleton.mp h, duplicateError]

end

/-! ### What stands without an error -/

section
variable {kind : IdentifierKind} {before lines : List Line} {line : Line} {value : String}

theorem mem_soundFrom (h : line ∈ soundFrom kind before lines) :
    satisfiesPattern kind line.value = true ∧ line.value ∉ before.map Line.value := by
  induction lines generalizing before with
  | nil => cases h
  | cons first lines ih =>
    have hrest (h : line ∈ soundFrom kind (before ++ [first]) lines) :
        satisfiesPattern kind line.value = true ∧ line.value ∉ before.map Line.value := by
      obtain ⟨hpattern, hnew⟩ := ih h
      rw [List.map_append, List.mem_append, not_or] at hnew
      exact ⟨hpattern, hnew.1⟩
    rw [soundFrom] at h
    split at h
    · next hsound =>
      rcases List.mem_cons.mp h with rfl | h
      · exact errorsAt_eq_nil.mp hsound
      · exact hrest h
    · exact hrest h

theorem nodup_soundFrom : ((soundFrom kind before lines).map Line.value).Nodup := by
  induction lines generalizing before with
  | nil => exact List.nodup_nil
  | cons first lines ih =>
    rw [soundFrom]
    split
    · rw [List.map_cons, List.nodup_cons]
      refine ⟨fun hmem ↦ ?_, ih⟩
      obtain ⟨line, hline, hvalue⟩ := List.mem_map.mp hmem
      refine (mem_soundFrom hline).2 ?_
      rw [hvalue, List.map_append]
      exact List.mem_append_right _ List.mem_cons_self
    · exact ih

end

/-! ### The form without the lines that are reported -/

/-- A text without some of its lines. -/
def withoutLines (text : String) (reported : List ℕ) : String :=
  String.ofList <| joinLines <|
    ((splitLines text.toList).zipIdx.filter fun line ↦ line.2 + 1 ∉ reported).map Prod.fst

/-- The numbers of the lines of a kind that are reported. -/
def reportedLines (kind : IdentifierKind) (errors : List FieldError) : List ℕ :=
  (errors.filter (·.key = kind)).map FieldError.line

/-- A form without the lines that are reported. -/
def Form.without (form : Form) (errors : List FieldError) : Form where
  sbi := withoutLines form.sbi (reportedLines .sbi errors)
  crn := withoutLines form.crn (reportedLines .crn errors)

section
variable {kind : IdentifierKind} {text : String} {before lines : List Line} {line : Line}
  {reported : List ℕ} {texts : List (List Char)} {set : List String}

/-- What is parsed of lines that were put together. -/
theorem linesIn_joinLines (h : ∀ line ∈ texts, OneLine line) :
    linesIn (String.ofList (joinLines texts)) =
      (texts.map fun line ↦ trimText (String.ofList line)).filter (· ≠ "") := by
  rw [linesIn_eq, String.toList_ofList]
  by_cases hne : texts = []
  · subst hne
    rfl
  · rw [splitLines_joinLines hne h]

/-- The lines that are not taken out are parsed as they were. -/
theorem linesIn_withoutLines : linesIn (withoutLines text reported) =
    ((parsedLinesIn text).filter fun line ↦ line.number ∉ reported).map Line.value := by
  have hone : ∀ line ∈ ((splitLines text.toList).zipIdx.filter
      fun line ↦ line.2 + 1 ∉ reported).map Prod.fst, OneLine line := by
    intro line hline
    obtain ⟨⟨line', i⟩, hmem, rfl⟩ := List.mem_map.mp hline
    exact oneLine_of_mem_splitLines (List.fst_mem_of_mem_zipIdx (List.mem_of_mem_filter hmem))
  rw [withoutLines, linesIn_joinLines hone, parsedLinesIn, allLinesIn]
  simp only [List.filter_map, List.map_map, List.filter_filter]
  refine congrArg₂ List.map rfl (List.filter_congr fun line _ ↦ ?_)
  exact Bool.and_comm _ _

/-- No two lines have one number. -/
theorem nodup_number_parsedLinesIn : ((parsedLinesIn text).map Line.number).Nodup := by
  have hall : ((allLinesIn text).map Line.number).Nodup := by
    rw [allLinesIn, List.map_map,
      show Line.number ∘ toLine = (· + 1) ∘ Prod.snd from rfl, ← List.map_map, List.zipIdx_map_snd]
    exact (List.nodup_range').map (Nat.succ_injective)
  exact hall.sublist (List.filter_sublist.map _)

/-- Where numbers are not repeated, a line stands in one place. -/
theorem eq_of_number_eq {inner after : List Line} {other : Line}
    (hnodup : ((before ++ line :: lines).map Line.number).Nodup)
    (hlines : before ++ line :: lines = inner ++ other :: after)
    (hnumber : other.number = line.number) : inner = before ∧ other = line := by
  have hnumbers := congrArg (List.map Line.number) hlines
  rw [List.map_append, List.map_cons, List.map_append, List.map_cons, hnumber] at hnumbers
  rw [List.map_append, List.map_cons] at hnodup
  have hnew := (List.nodup_cons.mp (List.nodup_middle.mp hnodup)).1
  rw [List.mem_append, not_or] at hnew
  have hnumbers' : before.map Line.number = inner.map Line.number :=
    ((List.append_cons_inj_of_notMem hnew.1 hnew.2).mp hnumbers).1
  have hlength : before.length = inner.length := by
    simpa only [List.length_map] using congrArg List.length hnumbers'
  obtain ⟨rfl, hcons⟩ := List.append_inj hlines hlength
  exact ⟨rfl, (List.cons.inj hcons).1.symm⟩

/-- What is not reported is what stands without an error. -/
theorem filter_reported_eq (hnodup : ((before ++ lines).map Line.number).Nodup)
    (hreported : ∀ number, number ∈ reported ↔ ∃ inner line after,
      before ++ lines = inner ++ line :: after ∧ errorsAt kind inner line ≠ [] ∧
        line.number = number) :
    lines.filter (fun line ↦ line.number ∉ reported) = soundFrom kind before lines := by
  induction lines generalizing before with
  | nil => rfl
  | cons line lines ih =>
    have hline : line.number ∈ reported ↔ errorsAt kind before line ≠ [] := by
      rw [hreported]
      constructor
      · rintro ⟨inner, other, after, hlines, herrors, hnumber⟩
        obtain ⟨rfl, rfl⟩ := eq_of_number_eq hnodup hlines hnumber
        exact herrors
      · exact fun h ↦ ⟨before, line, lines, rfl, h, rfl⟩
    have hrest : lines.filter (fun line ↦ line.number ∉ reported) =
        soundFrom kind (before ++ [line]) lines :=
      ih (by rwa [List.append_assoc, List.singleton_append])
        (by rwa [List.append_assoc, List.singleton_append])
    rw [soundFrom]
    split
    · next hsound =>
      rw [List.filter_cons_of_pos (by simpa using mt hline.mp (not_not_intro hsound)), hrest]
    · next hunsound =>
      rw [List.filter_cons_of_neg (by simpa using hline.mpr hunsound), hrest]

/-- The identifiers that stand are the well-formed ones, each once. -/
theorem foldl_addToSet_eq (hset : ∀ value, value ∈ set ↔
      value ∈ before.map Line.value ∧ satisfiesPattern kind value = true) :
    ((lines.map Line.value).filter (satisfiesPattern kind)).foldl addToSet set =
      set ++ (soundFrom kind before lines).map Line.value := by
  induction lines generalizing before set with
  | nil => exact (List.append_nil set).symm
  | cons line lines ih =>
    have hsnoc (value : String) : value ∈ (before ++ [line]).map Line.value ↔
        value ∈ before.map Line.value ∨ value = line.value := by
      rw [List.map_append, List.mem_append, List.map_singleton, List.mem_singleton]
    rw [List.map_cons, soundFrom]
    by_cases hpattern : satisfiesPattern kind line.value = true
    · rw [List.filter_cons_of_pos hpattern, List.foldl_cons]
      have hset' (value : String) : value ∈ addToSet set line.value ↔
          value ∈ (before ++ [line]).map Line.value ∧ satisfiesPattern kind value = true := by
        rw [mem_addToSet, hset, hsnoc, or_and_right]
        refine or_congr_right (iff_self_and.mpr ?_)
        rintro rfl
        exact hpattern
      rw [ih hset', addToSet]
      by_cases hnew : line.value ∈ before.map Line.value
      · rw [if_pos ((hset _).mpr ⟨hnew, hpattern⟩),
          if_neg fun h ↦ (errorsAt_eq_nil.mp h).2 hnew]
      · rw [if_neg fun h ↦ hnew ((hset _).mp h).1, if_pos (errorsAt_eq_nil.mpr ⟨hpattern, hnew⟩),
          List.map_cons, List.append_assoc, List.singleton_append]
    · rw [List.filter_cons_of_neg hpattern, if_neg fun h ↦ hpattern (errorsAt_eq_nil.mp h).1]
      refine ih fun value ↦ ?_
      rw [hset, hsnoc, or_and_right]
      refine (or_iff_left ?_).symm
      rintro ⟨rfl, h⟩
      exact hpattern h

theorem map_value_soundFrom : (soundFrom kind [] lines).map Line.value =
    distinct ((lines.map Line.value).filter (satisfiesPattern kind)) := by
  have hnone (value : String) : value ∈ ([] : List String) ↔
      value ∈ ([] : List Line).map Line.value ∧ satisfiesPattern kind value = true := by simp
  rw [distinct, foldl_addToSet_eq hnone, List.nil_append]

/-- Without the lines that are reported, the well-formed identifiers are left, each once. -/
theorem linesIn_withoutLines_reported
    (hreported : ∀ number, number ∈ reported ↔ ∃ before line after,
      parsedLinesIn text = before ++ line :: after ∧ errorsAt kind before line ≠ [] ∧
        line.number = number) :
    linesIn (withoutLines text reported) =
      distinct ((linesIn text).filter (satisfiesPattern kind)) := by
  have hsound : (parsedLinesIn text).filter (fun line ↦ line.number ∉ reported) =
      soundFrom kind [] (parsedLinesIn text) :=
    @filter_reported_eq kind [] _ _ nodup_number_parsedLinesIn hreported
  rw [linesIn_withoutLines, hsound, map_value_soundFrom, linesIn]

end

section
variable {list : GrantAllowList} {form : Form} {details : Problems} {e : FieldError}

theorem key_of_mem_errorsAt {kind : IdentifierKind} {before : List Line} {line : Line}
    (h : e ∈ errorsAt kind before line) : e.key = kind := by
  rcases List.mem_append.mp h with h | h
  · split at h
    · cases h
    · rw [List.mem_singleton.mp h, invalidError]
  · split at h
    · cases h
    · rw [List.mem_singleton.mp h, duplicateError]

theorem of_parseAllowListForm (form : Form) (kind : IdentifierKind) :
    (parseAllowListForm form).of kind = linesIn (form.of kind) := by
  cases kind <;> rfl

/-- A form is accepted when what is parsed of it is well formed. -/
theorem replaceGlobal_of_wellFormed (h : (parseAllowListForm form).WellFormed) :
    list.replaceGlobal (parseAllowListForm form) =
      .ok ⟨list.grantCode, parseAllowListForm form, h⟩ :=
  replaceGlobal_eq_ok.mpr ⟨rfl, congrArg₂ Identifiers.mk normalize_linesIn.symm
    normalize_linesIn.symm⟩

/-- The details of a refusal are the problems of the form. -/
theorem details_eq (h : list.replaceGlobal (parseAllowListForm form) = .error details)
    (kind : IdentifierKind) :
    details.of kind =
      identifierProblemsIn kind ((parsedLinesIn (form.of kind)).map Line.value) := by
  rw [replaceGlobal_eq_error h, parseAllowListForm, normalize_linesIn, normalize_linesIn]
  cases kind <;> rfl

/-- The errors of a refused form are those of its lines. -/
theorem mem_toAllowListFieldErrors
    (h : list.replaceGlobal (parseAllowListForm form) = .error details) :
    e ∈ toAllowListFieldErrors form details ↔ ∃ kind before line after,
      parsedLinesIn (form.of kind) = before ++ line :: after ∧ e ∈ errorsAt kind before line := by
  rw [toAllowListFieldErrors, List.mem_flatMap]
  simp only [details_eq h, mem_errorsFor]
  constructor
  · rintro ⟨kind, -, herror⟩
    exact ⟨kind, herror⟩
  · rintro ⟨kind, herror⟩
    exact ⟨kind, by cases kind <;> simp, herror⟩

/-- The lines of a kind that are reported are those with an error. -/
theorem mem_reportedLines (h : list.replaceGlobal (parseAllowListForm form) = .error details)
    {kind : IdentifierKind} {number : ℕ} :
    number ∈ reportedLines kind (toAllowListFieldErrors form details) ↔ ∃ before line after,
      parsedLinesIn (form.of kind) = before ++ line :: after ∧ errorsAt kind before line ≠ [] ∧
        line.number = number := by
  rw [reportedLines, List.mem_map]
  constructor
  · rintro ⟨e, he, rfl⟩
    obtain ⟨he, hkey⟩ := List.mem_filter.mp he
    obtain ⟨kind', before, line, after, hlines, herror⟩ := (mem_toAllowListFieldErrors h).mp he
    obtain rfl := (key_of_mem_errorsAt herror).symm.trans (of_decide_eq_true hkey)
    exact ⟨before, line, after, hlines, List.ne_nil_of_mem herror,
      (line_of_mem_errorsAt herror).symm⟩
  · rintro ⟨before, line, after, hlines, herrors, rfl⟩
    obtain ⟨e, herror⟩ := List.exists_mem_of_ne_nil _ herrors
    refine ⟨e, List.mem_filter.mpr ⟨?_, decide_eq_true (key_of_mem_errorsAt herror)⟩,
      line_of_mem_errorsAt herror⟩
    exact (mem_toAllowListFieldErrors h).mpr ⟨kind, before, line, after, hlines, herror⟩

/-- Without the lines that are reported, the well-formed identifiers of a form are left. -/
theorem linesIn_without (h : list.replaceGlobal (parseAllowListForm form) = .error details)
    (kind : IdentifierKind) :
    (parseAllowListForm (form.without (toAllowListFieldErrors form details))).of kind =
      distinct ((linesIn (form.of kind)).filter (satisfiesPattern kind)) := by
  rw [of_parseAllowListForm]
  cases kind with
  | sbi => exact linesIn_withoutLines_reported fun _ ↦ mem_reportedLines h
  | crn => exact linesIn_withoutLines_reported fun _ ↦ mem_reportedLines h

theorem wellFormed_without (h : list.replaceGlobal (parseAllowListForm form) = .error details) :
    (parseAllowListForm (form.without (toAllowListFieldErrors form details))).WellFormed := by
  intro kind
  rw [linesIn_without h]
  refine ⟨fun value hvalue ↦ (List.mem_filter.mp (mem_distinct.mp hvalue)).2, ?_⟩
  rw [linesIn, ← map_value_soundFrom]
  exact nodup_soundFrom

/-- Without no lines a form is parsed as it is. -/
theorem parseAllowListForm_without_nil :
    parseAllowListForm (form.without []) = parseAllowListForm form := by
  have hkept (text : String) : linesIn (withoutLines text []) = linesIn text := by
    rw [linesIn_withoutLines, linesIn]
    simp
  exact congrArg₂ Identifiers.mk (hkept form.sbi) (hkept form.crn)

/-- A form with a number that is too short and one that comes twice. -/
def woodlandForm : Form := ⟨"106284736\n12\n106284736", ""⟩

/-- What is wrong with it. -/
def woodlandProblems : Problems := ⟨⟨["12"], ["106284736"]⟩, ⟨[], []⟩⟩

/-- An identifier stands in one line and has no space at its ends. -/
theorem trimText_of_satisfiesPattern {kind : IdentifierKind} {value : String}
    (h : satisfiesPattern kind value = true) :
    OneLine value.toList ∧ trimText value = value ∧ value ≠ "" := by
  obtain ⟨hlength, hdigits⟩ := Bool.and_eq_true_iff.mp h
  have hdigit (c : Char) (hc : c ∈ value.toList) : c.isDigit = true :=
    List.all_eq_true.mp hdigits c hc
  refine ⟨⟨fun hreturn ↦ ?_, fun hfeed ↦ ?_⟩, ?_, ?_⟩
  · exact absurd (hdigit _ hreturn) (by decide)
  · exact absurd (hdigit _ hfeed) (by decide)
  · rw [trimText, trimBy_of_all fun c hc ↦ isWhitespace_of_isDigit (hdigit c hc),
      String.ofList_toList]
  · rintro rfl
    cases kind <;> exact absurd hlength (by decide)

/-- What is shown of identifiers is read again. -/
theorem linesIn_textOf {kind : IdentifierKind} {identifiers : List String}
    (h : ∀ value ∈ identifiers, satisfiesPattern kind value = true) :
    linesIn (textOf identifiers) = identifiers := by
  have hone : ∀ line ∈ identifiers.map String.toList, OneLine line := by
    intro line hline
    obtain ⟨value, hvalue, rfl⟩ := List.mem_map.mp hline
    exact (trimText_of_satisfiesPattern (h value hvalue)).1
  have htrim : (identifiers.map String.toList).map (fun line ↦ trimText (String.ofList line)) =
      identifiers := by
    rw [List.map_map]
    refine (List.map_congr_left fun value hvalue ↦ ?_).trans (List.map_id _)
    rw [Function.comp_apply, String.ofList_toList]
    exact (trimText_of_satisfiesPattern (h value hvalue)).2.1
  rw [textOf, linesIn_joinLines hone, htrim]
  exact List.filter_eq_self.mpr fun value hvalue ↦
    decide_eq_true (trimText_of_satisfiesPattern (h value hvalue)).2.2

end

end FgGas.AllowLists
