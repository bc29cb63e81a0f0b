import FgGas.Machine.Template
import Mathlib.Algebra.Order.BigOperators.Group.List
import Mathlib.Algebra.Order.Group.Nat

/-!
# Names put in one after another

A template whose names are replaced one at a time, each at its first occurrence. When every name
first occurs on its own placeholder the filled template comes of it, whatever the order. When each
placeholder goes and no other name does, each stood on its own.
-/

namespace FgGas.Machine.Marks

universe u v
variable {α : Type u} [DecidableEq α] {ν : Type v}

section
variable (M : Marks α) (encode : ν → List α)

/-- The text once the names are put in. -/
def written : List α → List (List α × ν) → List α
  | s, [] => s
  | s, p :: ps =>
    if M.mark :: p.1 <:+: s then written (replaceFirst (M.mark :: p.1) (encode p.2) s) ps
    else written s ps

/-- What found no place. -/
def left : List α → List (List α × ν) → List (List α × ν)
  | _, [] => []
  | s, p :: ps =>
    if M.mark :: p.1 <:+: s then left (replaceFirst (M.mark :: p.1) (encode p.2) s) ps
    else p :: left s ps

/-- The names that found a place, each with where: whether a lead was before it, and the run. -/
def placed : List α → List (List α × ν) → List (List α × Bool × List α)
  | _, [] => []
  | s, p :: ps =>
    if M.mark :: p.1 <:+: s then
      (p.1, (M.metAfter p.1 false s).getD (false, [])) ::
        placed (replaceFirst (M.mark :: p.1) (encode p.2) s) ps
    else placed s ps

end

variable {M : Marks α} {encode : ν → List α} {s : List α} {p : List α × ν}
  {ps : List (List α × ν)}

/-- A name that occurs is met. -/
theorem exists_met (h : M.mark :: p.1 <:+: s) : ∃ x, M.metAfter p.1 false s = some x :=
  Option.isSome_iff_exists.mp (met_isSome_iff.mpr h)

/-- A placeholder is a mark and its name. -/
theorem infix_of_mem_placeholdersAfter {name : List α} {led : Bool}
    (h : name ∈ M.placeholdersAfter led s) : M.mark :: name <:+: s := by
  induction s generalizing led with
  | nil => cases h
  | cons c cs ih =>
    rw [placeholdersAfter, List.mem_append] at h
    rcases h with h | h
    · split at h
      · next hc =>
        rw [List.mem_singleton] at h
        rw [h, ← hc.2.1]
        exact (List.cons_prefix_cons.mpr ⟨rfl, List.takeWhile_prefix _⟩).isInfix
      · cases h
    · exact (ih h).trans (List.suffix_cons _ _).isInfix

/-! ## Names that first occur on their own placeholder -/

/-- Replaced on its own placeholder in a text that fills clear, a name takes that placeholder away
and leaves the filled text. -/
theorem own_step {value : List α → List α} {name : List α} (hname : M.IsName name)
    (hvalue : ∀ n, M.Clean (value n)) (hmet : M.metAfter name false s = some (true, name))
    (hne : name ≠ []) (hclear : M.placeholders (M.fill value s) = []) :
    M.fill value (replaceFirst (M.mark :: name) (value name) s) = M.fill value s ∧
      (M.placeholders s).Perm
        (name :: M.placeholders (replaceFirst (M.mark :: name) (value name) s)) := by
  have hputs := puts_of_met (value name) hmet
  have hfill : M.fill value (replaceFirst (M.mark :: name) (value name) s) = M.fill value s :=
    hputs.fillAfter_eq rfl rfl hne hname hvalue rfl (by simp) hclear
  refine ⟨hfill, (hputs.subperm hname (hvalue _) hne).perm_of_length_le ?_⟩
  have h1 := count_fillAfter hvalue false false s
  have h2 := count_fillAfter hvalue false false (replaceFirst (M.mark :: name) (value name) s)
  have h3 := hputs.count_mark hname (hvalue _)
  unfold fill at hfill
  rw [hfill] at h2
  rw [List.length_cons]
  omega

section
variable (hencode : ∀ v, M.Clean (encode v))
include hencode

/-- A placeholder without a name stays when every name stands on its own. -/
theorem mem_placeholders_written (hname : ∀ p ∈ ps, M.IsName p.1)
    (hnodup : (ps.map Prod.fst).Nodup) (howns : ∀ p ∈ ps, M.OwnsAfter p.1 false s)
    {name : List α} (hmem : name ∈ M.placeholders s) (hmissing : name ∉ ps.map Prod.fst) :
    name ∈ M.placeholders (M.written encode s ps) := by
  induction ps generalizing s with
  | nil => exact hmem
  | cons p ps ih =>
    rw [List.map_cons, List.nodup_cons] at hnodup
    rw [List.map_cons, List.mem_cons, not_or] at hmissing
    have hp := hname p List.mem_cons_self
    have hps : ∀ q ∈ ps, M.IsName q.1 := fun q hq ↦ hname q (List.mem_cons_of_mem _ hq)
    rw [written]
    split
    · next hin =>
      obtain ⟨x, hx⟩ := exists_met hin
      obtain ⟨rfl, hne⟩ := howns p List.mem_cons_self x hx
      have hputs := puts_of_met (encode p.2) hx
      apply ih hps hnodup.2 _ (hputs.mem_of_ne hp (hencode _) hne hmissing.1 hmem) hmissing.2
      intro q hq
      have hdiff : q.1 ≠ p.1 := fun heq ↦ hnodup.1 (heq ▸ List.mem_map_of_mem hq)
      exact hputs.ownsAfter rfl rfl hne hp (hencode _) (hps q hq) hdiff
        (howns q (List.mem_cons_of_mem _ hq))
    · exact ih hps hnodup.2 (fun q hq ↦ howns q (List.mem_cons_of_mem _ hq)) hmem hmissing.2

/-- The filled template comes of names that each first occur on their own placeholder, when no
placeholder occurs twice, none is without a name and no empty value uncovers one. -/
theorem written_eq_fill {value : List α → List α} (hvalue : ∀ n, M.Clean (value n))
    (hps : ∀ p ∈ ps, value p.1 = encode p.2) (hname : ∀ p ∈ ps, M.IsName p.1)
    (hnodup : (ps.map Prod.fst).Nodup) (howns : ∀ p ∈ ps, M.OwnsAfter p.1 false s)
    (honce : (M.placeholders s).Nodup) (hall : M.placeholders s ⊆ ps.map Prod.fst)
    (hclear : M.placeholders (M.fill value s) = []) :
    M.written encode s ps = M.fill value s ∧
      M.left encode s ps = ps.filter (fun p ↦ p.1 ∉ M.placeholders s) := by
  induction ps generalizing s with
  | nil =>
    have hnone : M.placeholders s = [] := List.subset_nil.mp hall
    exact ⟨(fillAfter_of_placeholders_nil hnone).symm, rfl⟩
  | cons p ps ih =>
    rw [List.map_cons, List.nodup_cons] at hnodup
    have hp := hname p List.mem_cons_self
    have hps' : ∀ q ∈ ps, M.IsName q.1 := fun q hq ↦ hname q (List.mem_cons_of_mem _ hq)
    have hval : ∀ q ∈ ps, value q.1 = encode q.2 := fun q hq ↦ hps q (List.mem_cons_of_mem _ hq)
    rw [written, left]
    split
    · next hin =>
      obtain ⟨x, hx⟩ := exists_met hin
      obtain ⟨rfl, hne⟩ := howns p List.mem_cons_self x hx
      have hstep := own_step hp hvalue hx hne hclear
      rw [hps p List.mem_cons_self] at hstep
      have honce' := (hstep.2.nodup_iff.mp honce)
      rw [List.nodup_cons] at honce'
      have hmem : p.1 ∈ M.placeholders s := hstep.2.mem_iff.mpr List.mem_cons_self
      have howns' : ∀ q ∈ ps, M.OwnsAfter q.1 false
          (replaceFirst (M.mark :: p.1) (encode p.2) s) := fun q hq ↦
        (puts_of_met _ hx).ownsAfter rfl rfl hne hp (hencode _) (hps' q hq)
          (fun heq ↦ hnodup.1 (heq ▸ List.mem_map_of_mem hq))
          (howns q (List.mem_cons_of_mem _ hq))
      have hall' : M.placeholders (replaceFirst (M.mark :: p.1) (encode p.2) s) ⊆
          ps.map Prod.fst := fun n hn ↦
        (List.mem_cons.mp (hall (hstep.2.mem_iff.mpr (List.mem_cons_of_mem _ hn)))).resolve_left
          fun heq ↦ honce'.1 (heq ▸ hn)
      obtain ⟨hwritten, hleft⟩ :=
        ih hval hps' hnodup.2 howns' honce'.2 hall' (by rw [hstep.1]; exact hclear)
      refine ⟨hwritten.trans hstep.1, ?_⟩
      rw [hleft, List.filter_cons_of_neg (by simpa using hmem)]
      apply List.filter_congr
      intro q hq
      have hdiff : q.1 ≠ p.1 := fun heq ↦ hnodup.1 (heq ▸ List.mem_map_of_mem hq)
      rw [decide_eq_decide, hstep.2.mem_iff, List.mem_cons, or_iff_right hdiff]
    · next hout =>
      have hmem : p.1 ∉ M.placeholders s := fun h ↦ hout (infix_of_mem_placeholdersAfter h)
      have hall' : M.placeholders s ⊆ ps.map Prod.fst := fun n hn ↦
        (List.mem_cons.mp (hall hn)).resolve_left fun heq ↦ hmem (heq ▸ hn)
      obtain ⟨hwritten, hleft⟩ := ih hval hps' hnodup.2
        (fun q hq ↦ howns q (List.mem_cons_of_mem _ hq)) honce hall' hclear
      rw [hwritten, hleft, List.filter_cons_of_pos (by simpa using hmem)]
      exact ⟨rfl, rfl⟩

end

/-! ## Names that take every placeholder away -/

section
variable (hencode : ∀ v, M.Clean (encode v))
include hencode

/-- A mark goes with every name that finds a place. -/
theorem count_written (hname : ∀ p ∈ ps, M.IsName p.1) (s : List α) :
    s.count M.mark =
      (M.written encode s ps).count M.mark + (M.placed encode s ps).length := by
  induction ps generalizing s with
  | nil => rfl
  | cons p ps ih =>
    have hname' : ∀ q ∈ ps, M.IsName q.1 := fun q hq ↦ hname q (List.mem_cons_of_mem _ hq)
    rw [written, placed]
    split
    · next hin =>
      obtain ⟨x, hx⟩ := exists_met hin
      have hcount := (puts_of_met (encode p.2) hx).count_mark
        (hname p List.mem_cons_self) (hencode _)
      rw [hcount, ih hname', List.length_cons]
      omega
    · exact ih hname' s

/-- With at most as many places as placeholders, and no placeholder left, the places are the
placeholders. -/
theorem placed_perm (hname : ∀ p ∈ ps, M.IsName p.1)
    (hnone : M.placeholders (M.written encode s ps) = [])
    (hlen : (M.placed encode s ps).length ≤ (M.placeholders s).length) :
    (∀ x ∈ M.placed encode s ps, x.2.1 = true ∧ x.2.2 ≠ []) ∧
      ((M.placed encode s ps).map (·.2.2)).Perm (M.placeholders s) := by
  induction ps generalizing s with
  | nil =>
    rw [written] at hnone
    rw [hnone]
    exact ⟨fun x hx ↦ absurd hx List.not_mem_nil, List.Perm.refl _⟩
  | cons p ps ih =>
    have hp := hname p List.mem_cons_self
    have hname' : ∀ q ∈ ps, M.IsName q.1 := fun q hq ↦ hname q (List.mem_cons_of_mem _ hq)
    rw [written] at hnone
    rw [placed] at hlen ⊢
    by_cases hin : M.mark :: p.1 <:+: s
    · rw [if_pos hin] at hnone hlen ⊢
      obtain ⟨⟨at', r⟩, hx⟩ := exists_met hin
      have hputs := puts_of_met (encode p.2) hx
      rw [List.length_cons] at hlen
      have hplace : at' = true ∧ r ≠ [] := by
        by_contra hno
        have hor : at' = false ∨ r = [] := by
          rcases Bool.eq_false_or_eq_true at' with h | h
          · exact .inr (by by_contra hr; exact hno ⟨h, hr⟩)
          · exact .inl h
        have hle := hputs.length_le hp (hencode _) hor
        have heq := (ih hname' hnone (by unfold placeholders at hlen ⊢; omega)).2.length_eq
        rw [List.length_map] at heq
        unfold placeholders at hlen heq
        omega
      obtain ⟨rfl, hr⟩ := hplace
      have hsub := hputs.subperm hp (hencode _) hr
      have hle := hsub.length_le
      rw [List.length_cons] at hle
      obtain ⟨hall, hperm⟩ := ih hname' hnone (by unfold placeholders at hlen ⊢; omega)
      refine ⟨fun x hmem ↦ ?_, ?_⟩
      · rcases List.mem_cons.mp hmem with rfl | hmem
        · rw [hx]
          exact ⟨rfl, hr⟩
        · exact hall x hmem
      · rw [List.map_cons, hx]
        refine (hperm.cons r).trans (hsub.perm_of_length_le ?_).symm
        have heq := hperm.length_eq
        rw [List.length_map] at heq
        unfold placeholders at hlen heq
        rw [List.length_cons]
        omega
    · rw [if_neg hin] at hnone hlen ⊢
      exact ih hname' hnone hlen

omit hencode

/-- A name starts the run it is put on. -/
theorem isPrefix_of_mem_placed (hname : ∀ p ∈ ps, M.IsName p.1) (s : List α) :
    ∀ x ∈ M.placed encode s ps, x.1 <+: x.2.2 := by
  induction ps generalizing s with
  | nil => exact fun x hx ↦ absurd hx List.not_mem_nil
  | cons p ps ih =>
    have hname' : ∀ q ∈ ps, M.IsName q.1 := fun q hq ↦ hname q (List.mem_cons_of_mem _ hq)
    rw [placed]
    split
    · next hin =>
      obtain ⟨y, hy⟩ := exists_met hin
      intro x hx
      rcases List.mem_cons.mp hx with rfl | hx
      · rw [hy]
        exact (puts_of_met (encode p.2) hy).name_isPrefix (hname p List.mem_cons_self)
      · exact ih hname' _ x hx
    · exact ih hname' s

/-- A name finds a place or is left. -/
theorem placed_append_left (s : List α) :
    ((M.placed encode s ps).map Prod.fst ++ (M.left encode s ps).map Prod.fst).Perm
      (ps.map Prod.fst) := by
  induction ps generalizing s with
  | nil => exact List.Perm.refl _
  | cons p ps ih =>
    rw [placed, left]
    split
    · exact (ih _).cons p.1
    · exact List.perm_middle.trans ((ih s).cons p.1)

theorem left_sublist (s : List α) : (M.left encode s ps).Sublist ps := by
  induction ps generalizing s with
  | nil => exact List.Sublist.refl _
  | cons p ps ih =>
    rw [left]
    split
    · exact (ih _).cons p
    · exact (ih s).cons_cons p

end

omit [DecidableEq α] in
/-- Starts of words that are, together, as long as the words are the words. -/
theorem eq_of_isPrefix_of_perm {l : List (List α × Bool × List α)}
    (hleads : ∀ x ∈ l, x.1 <+: x.2.2) (hperm : (l.map (·.1)).Perm (l.map (·.2.2))) :
    ∀ x ∈ l, x.1 = x.2.2 := by
  have hsum : (l.map (·.1.length)).sum = (l.map (·.2.2.length)).sum := by
    have := (hperm.map List.length).sum_nat
    rwa [List.map_map, List.map_map] at this
  have hlen : ∀ x ∈ l, x.1.length = x.2.2.length := by
    clear hperm
    induction l with
    | nil => exact fun x hx ↦ absurd hx List.not_mem_nil
    | cons y l ih =>
      have hleads' : ∀ x ∈ l, x.1 <+: x.2.2 := fun x hx ↦ hleads x (List.mem_cons_of_mem _ hx)
      have hy := (hleads y List.mem_cons_self).length_le
      have hle : (l.map (·.1.length)).sum ≤ (l.map (·.2.2.length)).sum :=
        List.sum_le_sum fun x hx ↦ (hleads' x hx).length_le
      rw [List.map_cons, List.map_cons, List.sum_cons, List.sum_cons] at hsum
      intro x hx
      rcases List.mem_cons.mp hx with rfl | hx
      · omega
      · exact ih hleads' (by omega) x hx
  exact fun x hx ↦ (hleads x hx).eq_of_length (hlen x hx)

end FgGas.Machine.Marks
