import Mathlib.Data.List.Induction
import Mathlib.Data.List.Nodup

/-!
# Finding what occurs one step at a time

Entries are told apart by what is seen of them, and what is seen is refined step by step: each
thing found is split into what the entries behind it show next, at most `limit` of it. `Covers`
is what such a search keeps: nothing is found twice, everything found occurs, and either all
that occurs is found or at least `limit` things are.
-/

namespace FgGas.Listing

variable {α γ δ κ : Type} {l : List α} {limit : Nat}

/-- What has been found of the entries, each seen as `seen` shows it. -/
structure Covers (l : List α) (seen : α → γ) (limit : Nat) (found : List γ) : Prop where
  nodup : found.Nodup
  occurs : ∀ c ∈ found, ∃ a ∈ l, seen a = c
  all : (∀ a ∈ l, seen a ∈ found) ∨ limit ≤ found.length

/-- What one thing found is split into: what is seen next of the entries behind it. -/
structure Splits (l : List α) (seen : α → γ) (next : α → δ) (limit : Nat) (c : γ)
    (parts : List δ) : Prop where
  nodup : parts.Nodup
  occurs : ∀ c' ∈ parts, ∃ a ∈ l, seen a = c ∧ next a = c'
  all : (∀ a ∈ l, seen a = c → next a ∈ parts) ∨ limit ≤ parts.length

section
variable {seen : α → γ} {next : α → δ} {found : List γ} {parts : γ → List δ}

/-- What occurs is split into something. -/
theorem Splits.ne_nil {c : γ} {cs : List δ} (hlimit : 0 < limit)
    (h : Splits l seen next limit c cs) (hc : ∃ a ∈ l, seen a = c) : cs ≠ [] := by
  rintro rfl
  rcases h.all with hall | hlength
  · obtain ⟨a, ha, hseen⟩ := hc
    exact absurd (hall a ha hseen) List.not_mem_nil
  · exact absurd hlength (Nat.not_le.mpr hlimit)

theorem length_le_length_flatMap (h : ∀ c ∈ found, parts c ≠ []) :
    found.length ≤ (found.flatMap parts).length := by
  induction found with
  | nil => exact Nat.le_refl _
  | cons c found ih =>
    have hc := List.length_pos_of_ne_nil (h c List.mem_cons_self)
    have ih := ih fun c' hc' ↦ h c' (List.mem_cons_of_mem _ hc')
    rw [List.flatMap_cons, List.length_append, List.length_cons]
    omega

theorem length_le_length_flatMap_of_mem {c : γ} (hc : c ∈ found) :
    (parts c).length ≤ (found.flatMap parts).length := by
  obtain ⟨front, back, rfl⟩ := List.append_of_mem hc
  rw [List.flatMap_append, List.flatMap_cons, List.length_append, List.length_append]
  omega

/-- A search does not get shorter by a step. -/
theorem Covers.length_le (hlimit : 0 < limit) (h : Covers l seen limit found)
    (hsplit : ∀ c ∈ found, Splits l seen next limit c (parts c)) :
    found.length ≤ (found.flatMap parts).length :=
  length_le_length_flatMap fun c hc ↦ (hsplit c hc).ne_nil hlimit (h.occurs c hc)

/-- Splitting all that has been found keeps a search going. -/
theorem Covers.step (hlimit : 0 < limit) (hrefines : ∀ a b, next a = next b → seen a = seen b)
    (h : Covers l seen limit found)
    (hsplit : ∀ c ∈ found, Splits l seen next limit c (parts c)) :
    Covers l next limit (found.flatMap parts) where
  nodup := by
    refine List.nodup_flatMap.mpr ⟨fun c hc ↦ (hsplit c hc).nodup, ?_⟩
    refine h.nodup.imp_of_mem fun {c d} hc hd hne ↦ ?_
    show (parts c).Disjoint (parts d)
    rw [List.disjoint_left]
    intro c' hc' hd'
    obtain ⟨a, _, hac, ha⟩ := (hsplit c hc).occurs c' hc'
    obtain ⟨b, _, hbd, hb⟩ := (hsplit d hd).occurs c' hd'
    exact hne (hac.symm.trans ((hrefines a b (ha.trans hb.symm)).trans hbd))
  occurs c' hc' := by
    obtain ⟨c, hc, hpart⟩ := List.mem_flatMap.mp hc'
    obtain ⟨a, ha, _, hnext⟩ := (hsplit c hc).occurs c' hpart
    exact ⟨a, ha, hnext⟩
  all := by
    rcases h.all with hall | hlength
    · by_cases hcut : ∃ c ∈ found, limit ≤ (parts c).length
      · obtain ⟨c, hc, hlength⟩ := hcut
        exact .inr (Nat.le_trans hlength (length_le_length_flatMap_of_mem hc))
      · refine .inl fun a ha ↦ List.mem_flatMap.mpr ⟨seen a, hall a ha, ?_⟩
        rcases (hsplit _ (hall a ha)).all with hpart | hlength
        · exact hpart a ha rfl
        · exact absurd ⟨_, hall a ha, hlength⟩ hcut
    · exact .inr (Nat.le_trans hlength (h.length_le hlimit hsplit))

/-- What is found may be shown differently, as long as it stays apart. -/
theorem Covers.map {show_ : γ → δ} (hnext : ∀ a ∈ l, show_ (seen a) = next a)
    (happart : ∀ a ∈ l, ∀ b ∈ l, next a = next b → seen a = seen b)
    (h : Covers l seen limit found) : Covers l next limit (found.map show_) where
  nodup := by
    refine List.Nodup.map_on (fun c hc d hd heq ↦ ?_) h.nodup
    obtain ⟨a, ha, rfl⟩ := h.occurs c hc
    obtain ⟨b, hb, rfl⟩ := h.occurs d hd
    exact happart a ha b hb ((hnext a ha).symm.trans (heq.trans (hnext b hb)))
  occurs c' hc' := by
    obtain ⟨c, hc, rfl⟩ := List.mem_map.mp hc'
    obtain ⟨a, ha, rfl⟩ := h.occurs c hc
    exact ⟨a, ha, (hnext a ha).symm⟩
  all := h.all.imp (fun hall a ha ↦ hnext a ha ▸ List.mem_map_of_mem (hall a ha))
    fun hlength ↦ by rwa [List.length_map]

end

/-! ### Whole searches -/

section
variable {seen : List κ → α → γ} {parts : κ → γ → List γ} {found : List γ}

/-- A search over all keys keeps what one over none does. -/
theorem Covers.foldl (hlimit : 0 < limit)
    (hrefines : ∀ ks k a b, seen (ks ++ [k]) a = seen (ks ++ [k]) b → seen ks a = seen ks b)
    (hsplit : ∀ ks k c, (∃ a ∈ l, seen ks a = c) →
      Splits l (seen ks) (seen (ks ++ [k])) limit c (parts k c))
    (h : Covers l (seen []) limit found) (ks : List κ) :
    Covers l (seen ks) limit (ks.foldl (fun cs k ↦ cs.flatMap (parts k)) found) := by
  induction ks using List.reverseRecOn with
  | nil => exact h
  | append_singleton ks k ih =>
    rw [List.foldl_append]
    exact ih.step hlimit (hrefines ks k) fun c hc ↦ hsplit ks k c (ih.occurs c hc)

/-- A search that is cut short at a key finds at least the limit. -/
theorem Covers.limit_le_of_cut (hlimit : 0 < limit)
    (hrefines : ∀ ks k a b, seen (ks ++ [k]) a = seen (ks ++ [k]) b → seen ks a = seen ks b)
    (hsplit : ∀ ks k c, (∃ a ∈ l, seen ks a = c) →
      Splits l (seen ks) (seen (ks ++ [k])) limit c (parts k c))
    (h : Covers l (seen []) limit found) {ks : List κ} {k : κ} {c : γ}
    (hc : c ∈ ks.foldl (fun cs k ↦ cs.flatMap (parts k)) found)
    (hcut : limit ≤ (parts k c).length) (more : List κ) :
    limit ≤ ((ks ++ k :: more).foldl (fun cs k ↦ cs.flatMap (parts k)) found).length := by
  induction more using List.reverseRecOn with
  | nil =>
    rw [List.foldl_append]
    exact Nat.le_trans hcut (length_le_length_flatMap_of_mem hc)
  | append_singleton more k' ih =>
    have hassoc : ks ++ k :: (more ++ [k']) = (ks ++ k :: more) ++ [k'] := by simp
    have hcovers := h.foldl hlimit hrefines hsplit (ks ++ k :: more)
    rw [hassoc, List.foldl_append]
    exact Nat.le_trans ih (hcovers.length_le hlimit fun c hc ↦
      hsplit _ k' c (hcovers.occurs c hc))

end

end FgGas.Listing
