import Mathlib.Data.List.Basic

/-!
# Lines

The lines of a text, as they end at a line feed, a carriage return or both, and a text that is put
together from lines.
-/

namespace FgGas.Machine

/-- A symbol before the first line. -/
def ontoLine (c : Char) : List (List Char) → List (List Char)
  | [] => [[c]]
  | line :: lines => (c :: line) :: lines

/-- `text.split(/\r\n|\r|\n/)`. -/
def splitLines : List Char → List (List Char)
  | [] => [[]]
  | '\r' :: '\n' :: rest => [] :: splitLines rest
  | '\r' :: rest => [] :: splitLines rest
  | '\n' :: rest => [] :: splitLines rest
  | c :: rest => ontoLine c (splitLines rest)

/-- `lines.join("\n")`. -/
def joinLines : List (List Char) → List Char
  | [] => []
  | [line] => line
  | line :: lines => line ++ '\n' :: joinLines lines

/-- That no line ends within a text. -/
def OneLine (text : List Char) : Prop := '\r' ∉ text ∧ '\n' ∉ text

section
variable {c : Char} {line rest : List Char} {lines : List (List Char)}

theorem splitLines_cons (hreturn : c ≠ '\r') (hfeed : c ≠ '\n') :
    splitLines (c :: rest) = ontoLine c (splitLines rest) := by
  rw [splitLines]
  · exact fun _ h ↦ absurd h hreturn
  · exact fun h ↦ absurd h hreturn
  · exact fun h ↦ absurd h hfeed

theorem OneLine.of_cons (h : OneLine (c :: line)) : c ≠ '\r' ∧ c ≠ '\n' ∧ OneLine line := by
  obtain ⟨hreturn, hfeed⟩ := h
  rw [List.mem_cons, not_or] at hreturn hfeed
  exact ⟨Ne.symm hreturn.1, Ne.symm hfeed.1, hreturn.2, hfeed.2⟩

/-- A text in which no line ends is one line. -/
theorem splitLines_of_oneLine (h : OneLine line) : splitLines line = [line] := by
  induction line with
  | nil => rfl
  | cons c line ih =>
    obtain ⟨hreturn, hfeed, h⟩ := h.of_cons
    rw [splitLines_cons hreturn hfeed, ih h, ontoLine]

theorem splitLines_append (h : OneLine line) :
    splitLines (line ++ '\n' :: rest) = line :: splitLines rest := by
  induction line with
  | nil => rw [List.nil_append, splitLines]
  | cons c line ih =>
    obtain ⟨hreturn, hfeed, h⟩ := h.of_cons
    rw [List.cons_append, splitLines_cons hreturn hfeed, ih h, ontoLine]

/-- Lines that are joined are split again. -/
theorem splitLines_joinLines (hne : lines ≠ []) (h : ∀ line ∈ lines, OneLine line) :
    splitLines (joinLines lines) = lines := by
  induction lines with
  | nil => exact absurd rfl hne
  | cons line lines ih =>
    cases lines with
    | nil => exact splitLines_of_oneLine (h line List.mem_cons_self)
    | cons line' lines =>
      rw [joinLines, splitLines_append (h line List.mem_cons_self),
        ih (List.cons_ne_nil _ _) fun l hl ↦ h l (List.mem_cons_of_mem _ hl)]
      exact fun h ↦ absurd h (List.cons_ne_nil _ _)

theorem oneLine_nil : OneLine [] := ⟨List.not_mem_nil, List.not_mem_nil⟩

theorem oneLine_of_mem_ontoLine (hreturn : c ≠ '\r') (hfeed : c ≠ '\n')
    (h : ∀ line ∈ lines, OneLine line) (hline : line ∈ ontoLine c lines) : OneLine line := by
  have honto {rest : List Char} (hrest : OneLine rest) : OneLine (c :: rest) :=
    ⟨fun hmem ↦ hrest.1 ((List.mem_cons.mp hmem).resolve_left (Ne.symm hreturn)),
      fun hmem ↦ hrest.2 ((List.mem_cons.mp hmem).resolve_left (Ne.symm hfeed))⟩
  cases lines with
  | nil => exact List.mem_singleton.mp hline ▸ honto oneLine_nil
  | cons first lines =>
    rcases List.mem_cons.mp hline with rfl | hline
    · exact honto (h first List.mem_cons_self)
    · exact h line (List.mem_cons_of_mem _ hline)

/-- No line ends within a line. -/
theorem oneLine_of_mem_splitLines {text : List Char} (h : line ∈ splitLines text) :
    OneLine line := by
  induction text using splitLines.induct generalizing line with
  | case1 => exact List.mem_singleton.mp h ▸ oneLine_nil
  | case2 rest ih =>
    rw [splitLines] at h
    rcases List.mem_cons.mp h with rfl | h
    · exact oneLine_nil
    · exact ih h
  | case3 rest hrest ih =>
    rw [splitLines] at h
    · rcases List.mem_cons.mp h with rfl | h
      · exact oneLine_nil
      · exact ih h
    · exact hrest
  | case4 rest ih =>
    rw [splitLines] at h
    rcases List.mem_cons.mp h with rfl | h
    · exact oneLine_nil
    · exact ih h
  | case5 c rest _ hreturn hfeed ih =>
    rw [splitLines_cons hreturn hfeed] at h
    exact oneLine_of_mem_ontoLine hreturn hfeed (fun _ ↦ ih) h

end

end FgGas.Machine
