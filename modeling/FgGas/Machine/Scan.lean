import Mathlib.Data.List.Basic
import Mathlib.Data.List.Infix

/-!
# Longest matches

An automaton says which words are matches. A text is cut into the longest matches that start where
the one before has ended, and the symbols at which none starts.
-/

namespace FgGas.Machine

universe u v

/-- An automaton that may get stuck. -/
structure Automaton (σ : Type v) (α : Type u) where
  next : σ → α → Option σ
  accepts : σ → Bool

/-- A part of a text: a match, or a symbol at which none starts. -/
inductive Piece (α : Type u)
  | word (symbols : List α)
  | symbol (c : α)

namespace Piece

variable {α : Type u}

/-- The symbols of a piece. -/
def symbols : Piece α → List α
  | word symbols => symbols
  | symbol c => [c]

/-- The matches among the pieces. -/
def words : List (Piece α) → List (List α)
  | [] => []
  | .word symbols :: pieces => symbols :: words pieces
  | .symbol _ :: pieces => words pieces

/-- The text with other symbols for its matches, one after another. -/
def fill : List (Piece α) → List (List α) → List α
  | .word _ :: pieces, replacement :: rest => replacement ++ fill pieces rest
  | .symbol c :: pieces, replacements => c :: fill pieces replacements
  | _, _ => []

theorem fill_words (pieces : List (Piece α)) :
    fill pieces (words pieces) = pieces.flatMap symbols := by
  induction pieces with
  | nil => rfl
  | cons piece pieces ih => cases piece <;> simp [words, fill, symbols, ih]

/-- Where the replacement depends on the match alone, each piece is replaced by itself. -/
theorem fill_map (f : List α → List α) (pieces : List (Piece α)) :
    fill pieces ((words pieces).map f) = pieces.flatMap fun
      | .word symbols => f symbols
      | .symbol c => [c] := by
  induction pieces with
  | nil => rfl
  | cons piece pieces ih => cases piece <;> simp [words, fill, ih]

theorem mem_words {pieces : List (Piece α)} {word : List α} (h : .word word ∈ pieces) :
    word ∈ words pieces := by
  induction pieces with
  | nil => exact absurd h List.not_mem_nil
  | cons piece pieces ih =>
    rcases List.mem_cons.mp h with rfl | htail
    · exact List.mem_cons_self
    · cases piece with
      | word symbols => exact List.mem_cons_of_mem _ (ih htail)
      | symbol c => exact ih htail

/-- A match is no longer than the text. -/
theorem length_le_of_mem_words {pieces : List (Piece α)} {word : List α}
    (h : word ∈ words pieces) : word.length ≤ (pieces.flatMap symbols).length := by
  induction pieces with
  | nil => exact absurd h List.not_mem_nil
  | cons piece pieces ih =>
    rw [List.flatMap_cons, List.length_append]
    cases piece with
    | word symbols =>
      rcases List.mem_cons.mp h with rfl | h
      · exact Nat.le_add_right _ _
      · exact (ih h).trans (Nat.le_add_left _ _)
    | symbol c => exact (ih h).trans (Nat.le_add_left _ _)

end Piece

namespace Automaton

variable {σ : Type v} {α : Type u} (A : Automaton σ α)

/-- Whether a word read from a state is a match. -/
def takes (s : σ) : List α → Bool
  | [] => A.accepts s
  | c :: word =>
    match A.next s c with
    | none => false
    | some s' => takes s' word

/-- The longest prefix that is a match, and what follows it. -/
def longest (s : σ) : List α → Option (List α × List α)
  | [] => if A.accepts s then some ([], []) else none
  | c :: text =>
    let here := if A.accepts s then some ([], c :: text) else none
    match A.next s c with
    | none => here
    | some s' =>
      match longest s' text with
      | none => here
      | some (word, rest) => some (c :: word, rest)

variable {A} {s : σ} {c : α} {text word word' rest : List α}

theorem takes_cons_iff : A.takes s (c :: word) = true ↔
    ∃ s', A.next s c = some s' ∧ A.takes s' word = true := by
  rw [takes]
  cases A.next s c <;> simp

/-- No prefix is a match where no longest one is. -/
theorem longest_eq_none (h : A.longest s text = none) (hbegins : word <+: text) :
    A.takes s word = false := by
  induction text generalizing s word with
  | nil =>
    rw [List.prefix_nil.mp hbegins, takes]
    rw [longest] at h
    split at h
    · cases h
    · next haccepts => exact Bool.eq_false_iff.mpr haccepts
  | cons c text ih =>
    have haccepts : A.accepts s = false := by
      by_contra haccepts
      rw [Bool.not_eq_false] at haccepts
      simp only [longest, haccepts, if_true] at h
      split at h
      · cases h
      · split at h <;> cases h
    cases word with
    | nil => exact haccepts
    | cons c' word =>
      obtain ⟨rfl, htail⟩ := List.cons_prefix_cons.mp hbegins
      rw [Bool.eq_false_iff]
      intro hmatches
      obtain ⟨s', hnext, hmatches⟩ := takes_cons_iff.mp hmatches
      simp only [longest, hnext, haccepts] at h
      split at h
      · next hrest => exact Bool.noConfusion ((ih hrest htail).symm.trans hmatches)
      · cases h

/-- The longest match is one, and no prefix beyond it is. -/
theorem longest_eq_some (h : A.longest s text = some (word, rest)) :
    text = word ++ rest ∧ A.takes s word = true ∧
      ∀ word', word' <+: text → A.takes s word' = true → word'.length ≤ word.length := by
  induction text generalizing s word with
  | nil =>
    rw [longest] at h
    split at h
    · next haccepts =>
      cases h
      exact ⟨rfl, haccepts, fun word' hbegins _ ↦ by rw [List.prefix_nil.mp hbegins]⟩
    · cases h
  | cons c text ih =>
    rw [longest] at h
    have hhere (h' : (if A.accepts s then some (([] : List α), c :: text) else none) =
        some (word, rest)) (hstuck : ∀ s', A.next s c = some s' → A.longest s' text = none) :
        c :: text = word ++ rest ∧ A.takes s word = true ∧
          ∀ word', word' <+: c :: text → A.takes s word' = true →
            word'.length ≤ word.length := by
      split at h'
      · next haccepts =>
        cases h'
        refine ⟨rfl, haccepts, fun word' hbegins hmatches ↦ ?_⟩
        cases word' with
        | nil => exact Nat.le_refl 0
        | cons c' word' =>
          obtain ⟨rfl, htail⟩ := List.cons_prefix_cons.mp hbegins
          obtain ⟨s', hnext, hmatches⟩ := takes_cons_iff.mp hmatches
          have hnone := longest_eq_none (hstuck s' hnext) htail
          exact Bool.noConfusion (hnone.symm.trans hmatches)
      · cases h'
    split at h
    · next hnext => exact hhere h fun s' hs' ↦ by rw [hnext] at hs'; cases hs'
    · next s' hnext =>
      split at h
      · next hnone =>
        exact hhere h fun s'' hs'' ↦ by rw [hnext] at hs''; cases hs''; exact hnone
      · next word₁ rest₁ hsome =>
        cases h
        obtain ⟨htext, hmatches, hlongest⟩ := ih hsome
        refine ⟨congrArg (c :: ·) htext, takes_cons_iff.mpr ⟨s', hnext, hmatches⟩,
          fun word' hbegins hmatches' ↦ ?_⟩
        cases word' with
        | nil => exact Nat.zero_le _
        | cons c' word' =>
          obtain ⟨rfl, htail⟩ := List.cons_prefix_cons.mp hbegins
          obtain ⟨s'', hnext', hmatches'⟩ := takes_cons_iff.mp hmatches'
          rw [hnext] at hnext'
          cases hnext'
          exact Nat.succ_le_succ (hlongest word' htail hmatches')

/-- The pieces a text is cut into. -/
inductive Cuts (A : Automaton σ α) (s : σ) : List α → List (Piece α) → Prop
  | nil : Cuts A s [] []
  | word {c : α} {word rest : List α} {pieces : List (Piece α)}
      (hmatches : A.takes s (c :: word) = true)
      (hlongest : ∀ word', word' <+: c :: word ++ rest → A.takes s word' = true →
        word'.length ≤ (c :: word).length)
      (hrest : Cuts A s rest pieces) :
      Cuts A s (c :: word ++ rest) (.word (c :: word) :: pieces)
  | symbol {c : α} {text : List α} {pieces : List (Piece α)}
      (hnone : ∀ word, c :: word <+: c :: text → A.takes s (c :: word) = false)
      (hrest : Cuts A s text pieces) : Cuts A s (c :: text) (.symbol c :: pieces)

variable (A) in
/-- Cut a text. -/
def cut (s : σ) (text : List α) : List (Piece α) :=
  match _h : text with
  | [] => []
  | c :: text' =>
    match _hlongest : A.longest s text with
    | some (c' :: word, rest) => .word (c' :: word) :: cut s rest
    | _ => .symbol c :: cut s text'
termination_by text.length
decreasing_by
  · obtain ⟨htext, -, -⟩ := longest_eq_some _hlongest
    rw [← _h, htext]
    simp only [List.length_append, List.length_cons]
    omega
  · exact Nat.lt_succ_self _

theorem cut_nil : A.cut s [] = [] := by rw [cut]

theorem cut_word {c' : α} (h : A.longest s (c :: text) = some (c' :: word, rest)) :
    A.cut s (c :: text) = .word (c' :: word) :: A.cut s rest := by
  rw [cut]
  split
  · next h' =>
    rw [h] at h'
    cases h'
    rfl
  · next h' => exact absurd h (h' _ _ _)

theorem cut_symbol (h : ∀ c' word rest, A.longest s (c :: text) ≠ some (c' :: word, rest)) :
    A.cut s (c :: text) = .symbol c :: A.cut s text := by
  rw [cut]
  split
  · next h' => exact absurd h' (h _ _ _)
  · rfl

/-- A text is cut in one way. -/
theorem Cuts.eq_cut {pieces : List (Piece α)} (h : A.Cuts s text pieces) :
    pieces = A.cut s text := by
  induction h with
  | nil => exact cut_nil.symm
  | @word c word rest pieces hmatches hlongest hrest ih =>
    rw [ih]
    cases h : A.longest s (c :: word ++ rest) with
    | none =>
      have hnone := longest_eq_none h (List.prefix_append (c :: word) rest)
      exact Bool.noConfusion (hnone.symm.trans hmatches)
    | some found =>
      obtain ⟨htext, hmatches', hlongest'⟩ := longest_eq_some h
      have hle := hlongest found.1 (by rw [htext]; exact List.prefix_append _ _) hmatches'
      have hge := hlongest' (c :: word) (List.prefix_append (c :: word) rest) hmatches
      obtain ⟨hword, hrest⟩ := List.append_inj htext (Nat.le_antisymm hge hle)
      refine (cut_word (h.trans ?_)).symm
      rw [hword, hrest]
  | @symbol c text pieces hnone hrest ih =>
    rw [ih]
    refine (cut_symbol fun c' word rest h ↦ ?_).symm
    obtain ⟨htext, hmatches, -⟩ := longest_eq_some h
    obtain ⟨rfl, htext⟩ := List.cons.inj htext
    have hbegins : c :: word <+: c :: text := ⟨rest, by rw [htext]⟩
    exact Bool.noConfusion ((hnone word hbegins).symm.trans hmatches)

/-- The pieces a text is cut into are the longest matches and the symbols between. -/
theorem cuts_cut (hstart : A.accepts s = false) (text : List α) : A.Cuts s text (A.cut s text) := by
  induction text using Automaton.cut.induct A s with
  | case1 => exact cut_nil ▸ .nil
  | case2 c text' c' word rest hlongest ih =>
    rw [cut_word hlongest]
    obtain ⟨htext, hmatches, hlongest⟩ := longest_eq_some hlongest
    rw [htext] at hlongest ⊢
    exact .word hmatches hlongest ih
  | case3 c text' hlongest ih =>
    rw [cut_symbol hlongest]
    refine .symbol (fun word hbegins ↦ ?_) ih
    cases h : A.longest s (c :: text') with
    | none => exact longest_eq_none h hbegins
    | some found =>
      obtain ⟨found, rest⟩ := found
      cases found with
      | nil =>
        obtain ⟨-, hmatches, -⟩ := longest_eq_some h
        rw [takes] at hmatches
        exact Bool.noConfusion (hstart.symm.trans hmatches)
      | cons c' word' => exact absurd h (hlongest c' word' rest)

theorem cuts_iff (hstart : A.accepts s = false) {pieces : List (Piece α)} :
    A.Cuts s text pieces ↔ pieces = A.cut s text :=
  ⟨Cuts.eq_cut, fun h ↦ h ▸ cuts_cut hstart text⟩

/-- Nothing of the text is lost. -/
theorem Cuts.flatten {pieces : List (Piece α)} (h : A.Cuts s text pieces) :
    pieces.flatMap Piece.symbols = text := by
  induction h with
  | nil => rfl
  | word _ _ _ ih => rw [List.flatMap_cons, ih, Piece.symbols]
  | symbol _ _ ih => rw [List.flatMap_cons, ih, Piece.symbols, List.singleton_append]

/-- What is cut out is a match. -/
theorem Cuts.takes {pieces : List (Piece α)} (h : A.Cuts s text pieces)
    (hword : word ∈ Piece.words pieces) : A.takes s word = true := by
  induction h with
  | nil => exact absurd hword List.not_mem_nil
  | word hmatches _ _ ih =>
    rcases List.mem_cons.mp hword with rfl | hword
    · exact hmatches
    · exact ih hword
  | symbol _ _ ih => exact ih hword

/-- A text is one match when the only one cut out of it is the whole text. -/
theorem Cuts.eq_word {pieces : List (Piece α)} (h : A.Cuts s text pieces)
    (hwords : Piece.words pieces = [text]) : pieces = [.word text] := by
  cases h with
  | nil => cases hwords
  | @word c word rest pieces hmatches hlongest hrest =>
    obtain ⟨hword, -⟩ := List.cons.inj hwords
    have hnil : rest = [] := List.self_eq_append_right.mp hword
    subst hnil
    cases hrest
    rw [List.append_nil]
  | @symbol c text pieces hnone hrest =>
    have hmem : c :: text ∈ Piece.words pieces := by
      rw [Piece.words] at hwords
      rw [hwords]
      exact List.mem_cons_self
    have hle := Piece.length_le_of_mem_words hmem
    rw [hrest.flatten, List.length_cons] at hle
    exact absurd hle (Nat.not_succ_le_self _)

end Automaton

end FgGas.Machine
