import Mathlib.Data.List.Infix
import Mathlib.Data.List.Perm.Subperm
import Mathlib.Data.List.TakeWhile

/-!
# Templates

A text with placeholders, each a mark right after a lead and the longest run of name characters
that follows. The mark and a name may also stand elsewhere, and a name may begin a longer one: what
replacing the first `mark ++ name` of a text does to its placeholders, wherever it stands.
-/

namespace FgGas.Machine

universe u
variable {α : Type u}

/-- The characters of a template that mean something. -/
structure Marks (α : Type u) where
  /-- Starts a placeholder. -/
  mark : α
  /-- Stands right before a placeholder. -/
  lead : α
  /-- May stand in a name. -/
  isName : α → Bool
  mark_plain : isName mark = false
  lead_plain : isName lead = false
  mark_ne_lead : mark ≠ lead

namespace Marks

section
variable (M : Marks α)

/-- The longest run of name characters a text starts with. -/
def run (s : List α) : List α := s.takeWhile M.isName

/-- Neither marks nor leads. -/
def Clean (s : List α) : Prop := ∀ c ∈ s, c ≠ M.mark ∧ c ≠ M.lead

/-- Name characters only. -/
def IsName (name : List α) : Prop := ∀ c ∈ name, M.isName c = true

instance (name : List α) : Decidable (M.IsName name) :=
  inferInstanceAs (Decidable (∀ c ∈ name, M.isName c = true))

end

variable {M : Marks α} {name : List α}

theorem IsName.clean (h : M.IsName name) : M.Clean name := by
  intro c hc
  constructor
  · rintro rfl
    exact absurd (h _ hc) (by simp [M.mark_plain])
  · rintro rfl
    exact absurd (h _ hc) (by simp [M.lead_plain])

theorem run_isName (s : List α) : M.IsName (M.run s) := fun _ hc ↦ List.mem_takeWhile_imp hc

@[simp] theorem run_nil : M.run [] = [] := rfl

theorem run_cons (c : α) (cs : List α) :
    M.run (c :: cs) = if M.isName c then c :: M.run cs else [] := by
  rw [run, List.takeWhile_cons]
  rfl

theorem run_mark (cs : List α) : M.run (M.mark :: cs) = [] := by
  rw [run_cons, M.mark_plain]
  rfl

theorem run_append (hname : M.IsName name) (rest : List α) :
    M.run (name ++ rest) = name ++ M.run rest :=
  List.takeWhile_append_of_pos hname

theorem run_append_dropWhile (s : List α) : M.run s ++ s.dropWhile M.isName = s :=
  List.takeWhile_append_dropWhile

theorem run_dropWhile (s : List α) : M.run (s.dropWhile M.isName) = [] := by
  have h := run_append (run_isName (M := M) s) (s.dropWhile M.isName)
  rw [run_append_dropWhile] at h
  exact List.append_right_eq_self.mp h.symm

/-- A name starts a text as it starts the text's run. -/
theorem IsName.isPrefix_iff (h : M.IsName name) (s : List α) : name <+: s ↔ name <+: M.run s := by
  constructor
  · rintro ⟨rest, rfl⟩
    rw [run, List.takeWhile_append_of_pos h]
    exact List.prefix_append _ _
  · exact fun hp ↦ hp.trans (List.takeWhile_prefix _)

/-- A mark and a name start a text that starts with the mark and has the name start its run. -/
theorem IsName.mark_isPrefix_iff (h : M.IsName name) (c : α) (cs : List α) :
    M.mark :: name <+: c :: cs ↔ c = M.mark ∧ name <+: M.run cs := by
  rw [List.cons_prefix_cons, h.isPrefix_iff]
  exact and_congr_left' eq_comm

end Marks

variable [DecidableEq α]

/-- The first occurrence of a text replaced. -/
def replaceFirst (sub new : List α) : List α → List α
  | [] => if sub = [] then new else []
  | c :: cs =>
    if sub <+: c :: cs then new ++ (c :: cs).drop sub.length else c :: replaceFirst sub new cs

/-- What a text is replaced by may be itself. -/
theorem replaceFirst_self (sub s : List α) : replaceFirst sub sub s = s := by
  induction s with
  | nil =>
    unfold replaceFirst
    split
    · assumption
    · rfl
  | cons c cs ih =>
    unfold replaceFirst
    split
    · next h =>
      obtain ⟨rest, hrest⟩ := h
      rw [← hrest, List.drop_left]
    · rw [ih]

namespace Marks

section
variable (M : Marks α)

/-- The names of the placeholders of a text, given whether a lead stands before it. -/
def placeholdersAfter : Bool → List α → List (List α)
  | _, [] => []
  | led, c :: cs =>
    (if led ∧ c = M.mark ∧ M.run cs ≠ [] then [M.run cs] else []) ++
      placeholdersAfter (c = M.lead) cs

/-- The names of the placeholders of a text. -/
def placeholders (s : List α) : List (List α) := M.placeholdersAfter false s

/-- A text with every placeholder replaced; `skip` says that a name is being passed over. -/
def fillAfter (value : List α → List α) : Bool → Bool → List α → List α
  | _, _, [] => []
  | led, skip, c :: cs =>
    if skip ∧ M.isName c then fillAfter value false true cs
    else if led ∧ c = M.mark ∧ M.run cs ≠ [] then
      value (M.run cs) ++ fillAfter value false true cs
    else c :: fillAfter value (c = M.lead) false cs

/-- A text with every placeholder replaced. -/
def fill (value : List α → List α) (s : List α) : List α := M.fillAfter value false false s

/-- Where the first `mark ++ name` stands: whether a lead is before it, and the run after it. -/
def metAfter (name : List α) : Bool → List α → Option (Bool × List α)
  | _, [] => none
  | led, c :: cs =>
    if M.mark :: name <+: c :: cs then some (led, M.run cs) else metAfter name (c = M.lead) cs

/-- Whether a text would start with a placeholder, were a lead before it. -/
def starts : List α → Bool
  | [] => false
  | c :: cs => c = M.mark ∧ M.run cs ≠ []

/-- No placeholder with an empty value is right before a mark and a name. -/
def clearAfter (value : List α → List α) : Bool → List α → Bool
  | _, [] => true
  | led, c :: cs =>
    (if led ∧ c = M.mark ∧ M.run cs ≠ [] ∧ value (M.run cs) = [] then
      !M.starts (cs.dropWhile M.isName) else true) && clearAfter value (c = M.lead) cs

/-- The first `mark ++ name`, if there is one, is the placeholder of that name. -/
def OwnsAfter (name : List α) (led : Bool) (s : List α) : Prop :=
  ∀ x ∈ M.metAfter name led s, x = (true, name) ∧ name ≠ []

instance (name : List α) (led : Bool) (s : List α) : Decidable (M.OwnsAfter name led s) :=
  inferInstanceAs (Decidable (∀ x ∈ M.metAfter name led s, x = (true, name) ∧ name ≠ []))

end

variable {M : Marks α} {name new rest s : List α} {led : Bool}

/-- After a mark no lead stands. -/
@[simp] theorem decide_mark : decide (M.mark = M.lead) = false := by simp [M.mark_ne_lead]

/-! ## Passing over a clean text -/

/-- Whether a lead stands before what follows a clean text. -/
theorem placeholdersAfter_clean (hnew : M.Clean new) (hne : new ≠ []) (led : Bool)
    (rest : List α) :
    M.placeholdersAfter led (new ++ rest) = M.placeholdersAfter false rest := by
  induction new generalizing led with
  | nil => exact absurd rfl hne
  | cons c cs ih =>
    have hc := hnew c List.mem_cons_self
    rw [List.cons_append, placeholdersAfter, if_neg (fun h ↦ hc.1 h.2.1), List.nil_append,
      decide_eq_false hc.2]
    by_cases hcs : cs = []
    · rw [hcs, List.nil_append]
    · exact ih (fun d hd ↦ hnew d (List.mem_cons_of_mem _ hd)) hcs false

theorem placeholdersAfter_clean_false (hnew : M.Clean new) (rest : List α) :
    M.placeholdersAfter false (new ++ rest) = M.placeholdersAfter false rest := by
  by_cases hne : new = []
  · rw [hne, List.nil_append]
  · exact placeholdersAfter_clean hnew hne false rest

/-- A lead before a text can only add a placeholder. -/
theorem placeholdersAfter_sublist (led : Bool) (s : List α) :
    List.Sublist (M.placeholdersAfter false s) (M.placeholdersAfter led s) := by
  cases s with
  | nil => exact List.Sublist.refl _
  | cons c cs =>
    rw [placeholdersAfter, placeholdersAfter, if_neg (fun h ↦ Bool.false_ne_true h.1)]
    exact List.sublist_append_right _ _

theorem placeholdersAfter_clean_sublist (hnew : M.Clean new) (led : Bool) (rest : List α) :
    List.Sublist (M.placeholdersAfter false rest) (M.placeholdersAfter led (new ++ rest)) := by
  rw [← placeholdersAfter_clean_false hnew rest]
  exact placeholdersAfter_sublist led _

/-! ## One replacement -/

/-- The first `mark ++ name` replaced: the text that results, whether a lead was before the place,
and the run that stood there. -/
inductive Puts (M : Marks α) (name new : List α) :
    Bool → List α → List α → Bool → List α → Prop
  | here (led : Bool) (rest : List α) :
    Puts M name new led (M.mark :: (name ++ rest)) (new ++ rest) led (M.run (name ++ rest))
  | later {led at' : Bool} {c : α} {cs cs' r : List α} :
    ¬ M.mark :: name <+: c :: cs → Puts M name new (c = M.lead) cs cs' at' r →
    Puts M name new led (c :: cs) (c :: cs') at' r

/-- The replacement, as `replaceFirst` makes it. -/
theorem puts_of_met (new : List α) {x : Bool × List α} (h : M.metAfter name led s = some x) :
    M.Puts name new led s (replaceFirst (M.mark :: name) new s) x.1 x.2 := by
  induction s generalizing led with
  | nil => cases h
  | cons c cs ih =>
    rw [metAfter] at h
    rw [replaceFirst]
    by_cases hp : M.mark :: name <+: c :: cs
    · rw [if_pos hp] at h
      rw [if_pos hp]
      cases h
      obtain ⟨rest, hrest⟩ := hp
      rw [List.cons_append] at hrest
      cases hrest
      rw [List.length_cons, List.drop_succ_cons, List.drop_left]
      exact .here led rest
    · rw [if_neg hp] at h
      rw [if_neg hp]
      exact .later hp (ih h)

/-- Nothing is met where the text does not occur. -/
theorem met_isSome_iff : (M.metAfter name led s).isSome ↔ M.mark :: name <:+: s := by
  induction s generalizing led with
  | nil => simp [metAfter]
  | cons c cs ih =>
    rw [metAfter, List.infix_cons_iff]
    by_cases hp : M.mark :: name <+: c :: cs
    · simp [hp]
    · rw [if_neg hp, ih]
      exact (or_iff_right hp).symm

section
variable {s' r : List α} {at' : Bool}

/-- The name replaced starts the run that stood there. -/
theorem Puts.name_isPrefix (h : M.Puts name new led s s' at' r) (hname : M.IsName name) :
    name <+: r := by
  induction h with
  | here led rest => exact (hname.isPrefix_iff _).mp (List.prefix_append _ _)
  | later _ _ ih => exact ih

/-- One mark goes. -/
theorem Puts.count_mark (h : M.Puts name new led s s' at' r) (hname : M.IsName name)
    (hnew : M.Clean new) : s.count M.mark = s'.count M.mark + 1 := by
  induction h with
  | here led rest =>
    have h1 : name.count M.mark = 0 :=
      List.count_eq_zero_of_not_mem fun hm ↦ (hname.clean _ hm).1 rfl
    have h2 : new.count M.mark = 0 := List.count_eq_zero_of_not_mem fun hm ↦ (hnew _ hm).1 rfl
    rw [List.count_cons_self, List.count_append, List.count_append, h1, h2]
  | later _ _ ih =>
    rw [List.count_cons, List.count_cons, ih]
    omega

/-- A run stays as it is when what is replaced later stands after a lead. -/
theorem Puts.run_eq (h : M.Puts name new false s s' true r) : M.run s' = M.run s := by
  generalize hled : false = led, hat : true = at' at h
  induction h with
  | here => rw [← hled] at hat; cases hat
  | @later led at' c cs cs' r hp _ ih =>
    rw [run_cons, run_cons]
    by_cases hc : M.isName c = true
    · have hlead : c ≠ M.lead := by
        rintro rfl
        rw [M.lead_plain] at hc
        cases hc
      rw [if_pos hc, if_pos hc, ih (decide_eq_false hlead).symm hat]
    · rw [if_neg hc, if_neg hc]

/-- A run that is there stays there. -/
theorem Puts.run_ne_nil (h : M.Puts name new led s s' at' r) (hrun : M.run s ≠ []) :
    M.run s' ≠ [] := by
  cases h with
  | here => exact absurd (run_mark _) hrun
  | later hp _ =>
    rw [run_cons] at hrun ⊢
    split at hrun
    · next hc =>
      rw [if_pos hc]
      exact List.cons_ne_nil _ _
    · exact absurd rfl hrun

/-- Replaced on a placeholder, a name takes at most that placeholder away. -/
theorem Puts.subperm (h : M.Puts name new led s s' true r) (hname : M.IsName name)
    (hnew : M.Clean new) (hr : r ≠ []) :
    (M.placeholdersAfter led s).Subperm (r :: M.placeholdersAfter led s') := by
  generalize hat : true = at' at h
  induction h with
  | here led rest =>
    rw [placeholdersAfter, if_pos ⟨hat.symm, rfl, hr⟩, decide_mark,
      placeholdersAfter_clean_false hname.clean, List.singleton_append, List.subperm_cons]
    exact (placeholdersAfter_clean_sublist hnew led rest).subperm
  | @later led at' c cs cs' r hp hlater ih =>
    rw [placeholdersAfter, placeholdersAfter]
    have hrun : c = M.mark → M.run cs' = M.run cs := by
      rintro rfl
      rw [← hat, decide_mark] at hlater
      exact hlater.run_eq
    by_cases hentry : led = true ∧ c = M.mark ∧ M.run cs ≠ []
    · rw [if_pos hentry, if_pos (by rwa [hrun hentry.2.1]), hrun hentry.2.1]
      exact ((List.subperm_cons _).mpr (ih hr hat)).trans (List.Perm.swap _ _ _).subperm
    · rw [if_neg hentry, if_neg fun hc ↦ hentry (by rwa [hrun hc.2.1] at hc)]
      exact ih hr hat

/-- Replaced elsewhere, a name takes no placeholder away. -/
theorem Puts.length_le (h : M.Puts name new led s s' at' r) (hname : M.IsName name)
    (hnew : M.Clean new) (hr : at' = false ∨ r = []) :
    (M.placeholdersAfter led s).length ≤ (M.placeholdersAfter led s').length := by
  induction h with
  | here led rest =>
    rw [placeholdersAfter, if_neg, decide_mark, placeholdersAfter_clean_false hname.clean]
    · exact (placeholdersAfter_clean_sublist hnew led rest).length_le
    · rintro ⟨hled, -, hrun⟩
      rcases hr with h | h
      · rw [h] at hled; cases hled
      · exact hrun h
  | @later led at' c cs cs' r hp hlater ih =>
    rw [placeholdersAfter, placeholdersAfter, List.length_append, List.length_append]
    refine Nat.add_le_add ?_ (ih hr)
    by_cases hentry : led = true ∧ c = M.mark ∧ M.run cs ≠ []
    · rw [if_pos hentry, if_pos ⟨hentry.1, hentry.2.1, hlater.run_ne_nil hentry.2.2⟩]
      exact le_rfl
    · rw [if_neg hentry]
      exact Nat.zero_le _

/-- Replaced on its own placeholder, a name leaves the other placeholders. -/
theorem Puts.mem_of_ne (h : M.Puts name new led s s' true name) (hname : M.IsName name)
    (hnew : M.Clean new) (hne : name ≠ []) {other : List α} (hother : other ≠ name)
    (hmem : other ∈ M.placeholdersAfter led s) : other ∈ M.placeholdersAfter led s' :=
  (List.mem_cons.mp ((h.subperm hname hnew hne).subset hmem)).resolve_left hother

end

/-! ## The filled text -/

section
variable {value : List α → List α} {skip : Bool} {c : α} {cs : List α}

theorem fillAfter_pass (hskip : skip = true) (hc : M.isName c = true) :
    M.fillAfter value led skip (c :: cs) = M.fillAfter value false true cs := by
  rw [fillAfter, if_pos ⟨hskip, hc⟩]

theorem fillAfter_placeholder (hrun : M.run cs ≠ []) :
    M.fillAfter value true skip (M.mark :: cs) =
      value (M.run cs) ++ M.fillAfter value false true cs := by
  rw [fillAfter, if_neg (by simp [M.mark_plain]), if_pos ⟨rfl, rfl, hrun⟩]

theorem fillAfter_emit (hskip : ¬ (skip = true ∧ M.isName c = true))
    (hplain : ¬ (led = true ∧ c = M.mark ∧ M.run cs ≠ [])) :
    M.fillAfter value led skip (c :: cs) = c :: M.fillAfter value (c = M.lead) false cs := by
  rw [fillAfter, if_neg hskip, if_neg hplain]

/-- A name is passed over. -/
theorem fillAfter_skip_name (hname : M.IsName name) (rest : List α) :
    M.fillAfter value false true (name ++ rest) = M.fillAfter value false true rest := by
  induction name with
  | nil => rfl
  | cons c cs ih =>
    rw [List.cons_append, fillAfter_pass rfl (hname c List.mem_cons_self),
      ih fun d hd ↦ hname d (List.mem_cons_of_mem _ hd)]

/-- Nothing is passed over where no name is. -/
theorem fillAfter_skip_of_run (hrun : M.run s = []) (led : Bool) :
    M.fillAfter value led true s = M.fillAfter value led false s := by
  cases s with
  | nil => rfl
  | cons c cs =>
    rw [run_cons] at hrun
    have hc : ¬ M.isName c = true := fun hc ↦ by rw [if_pos hc] at hrun; cases hrun
    rw [fillAfter, fillAfter, if_neg (show ¬ (true = true ∧ M.isName c = true) from fun h ↦ hc h.2),
      if_neg (show ¬ (false = true ∧ M.isName c = true) from fun h ↦ hc h.2)]

theorem fillAfter_skip (s : List α) :
    M.fillAfter value false true s = M.fillAfter value false false (s.dropWhile M.isName) := by
  conv_lhs => rw [← run_append_dropWhile (M := M) s]
  rw [fillAfter_skip_name (run_isName s), fillAfter_skip_of_run (run_dropWhile s)]

/-- A clean text is kept. -/
theorem fillAfter_clean (hnew : M.Clean new) (hne : new ≠ []) (led : Bool) (rest : List α) :
    M.fillAfter value led false (new ++ rest) = new ++ M.fillAfter value false false rest := by
  induction new generalizing led with
  | nil => exact absurd rfl hne
  | cons c cs ih =>
    have hc := hnew c List.mem_cons_self
    rw [List.cons_append, fillAfter_emit (by simp) fun h ↦ hc.1 h.2.1, decide_eq_false hc.2,
      List.cons_append]
    by_cases hcs : cs = []
    · rw [hcs, List.nil_append, List.nil_append]
    · rw [ih (fun d hd ↦ hnew d (List.mem_cons_of_mem _ hd)) hcs false]

/-- With no placeholder a text is kept. -/
theorem fillAfter_of_placeholders_nil (h : M.placeholdersAfter led s = []) :
    M.fillAfter value led false s = s := by
  induction s generalizing led with
  | nil => rfl
  | cons c cs ih =>
    rw [placeholdersAfter, List.append_eq_nil_iff] at h
    have hplain : ¬ (led = true ∧ c = M.mark ∧ M.run cs ≠ []) := fun hp ↦ by
      rw [if_pos hp] at h
      cases h.1
    rw [fillAfter_emit (by simp) hplain, ih h.2]

/-- The marks left are those of no placeholder. -/
theorem count_fillAfter (hvalue : ∀ n, M.Clean (value n)) (led skip : Bool) (s : List α) :
    (M.fillAfter value led skip s).count M.mark + (M.placeholdersAfter led s).length =
      s.count M.mark := by
  induction s generalizing led skip with
  | nil => rfl
  | cons c cs ih =>
    rw [placeholdersAfter, List.length_append]
    by_cases hpass : skip = true ∧ M.isName c = true
    · have hc := (show M.IsName [c] from fun d hd ↦ by rw [List.mem_singleton.mp hd]; exact hpass.2)
        |>.clean c List.mem_cons_self
      rw [fillAfter_pass hpass.1 hpass.2, if_neg fun h ↦ hc.1 h.2.1, decide_eq_false hc.2,
        List.count_cons_of_ne hc.1, List.length_nil, Nat.zero_add]
      exact ih _ _
    · by_cases hentry : led = true ∧ c = M.mark ∧ M.run cs ≠ []
      · obtain ⟨rfl, rfl, hrun⟩ := hentry
        have hv : (value (M.run cs)).count M.mark = 0 :=
          List.count_eq_zero_of_not_mem fun hm ↦ (hvalue _ _ hm).1 rfl
        rw [fillAfter_placeholder hrun, if_pos ⟨rfl, rfl, hrun⟩, List.count_append, hv,
          List.count_cons_self, decide_mark, ← ih false true,
          List.length_singleton]
        omega
      · rw [fillAfter_emit hpass hentry, if_neg hentry, List.count_cons, List.count_cons,
          ← ih (c = M.lead) false, List.length_nil]
        omega

/-- Runs are kept where no lead is before them. -/
theorem run_fillAfter (s : List α) : M.run (M.fillAfter value false false s) = M.run s := by
  induction s with
  | nil => rfl
  | cons c cs ih =>
    rw [fillAfter_emit (by simp) (by simp), run_cons, run_cons]
    by_cases hc : M.isName c = true
    · have hlead : c ≠ M.lead := by
        rintro rfl
        rw [M.lead_plain] at hc
        cases hc
      rw [if_pos hc, if_pos hc, decide_eq_false hlead, ih]
    · rw [if_neg hc, if_neg hc]

theorem starts_fillAfter (s : List α) :
    M.starts (M.fillAfter value false false s) = M.starts s := by
  cases s with
  | nil => rfl
  | cons c cs =>
    rw [fillAfter_emit (by simp) (by simp), starts, starts]
    by_cases hc : c = M.mark
    · rw [hc, decide_mark, run_fillAfter]
    · simp [hc]

/-- What a lead before a text adds. -/
theorem placeholdersAfter_true_eq_nil :
    M.placeholdersAfter true s = [] ↔ M.starts s = false ∧ M.placeholdersAfter false s = [] := by
  cases s with
  | nil => simp [placeholdersAfter, starts]
  | cons c cs => simp [placeholdersAfter, starts]

theorem fillAfter_of_starts (h : M.starts s = false) (led : Bool) :
    M.fillAfter value led false s = M.fillAfter value false false s := by
  cases s with
  | nil => rfl
  | cons c cs =>
    have hplain : ¬ (led = true ∧ c = M.mark ∧ M.run cs ≠ []) := fun hp ↦ by
      simp [starts, hp.2] at h
    rw [fillAfter_emit (by simp) hplain, fillAfter_emit (by simp) (by simp)]

/-- A filled text shows no placeholder when no value that is empty uncovers one. -/
theorem placeholdersAfter_fillAfter (hvalue : ∀ n, M.Clean (value n))
    (hskip : skip = true → led = false) :
    M.placeholdersAfter led (M.fillAfter value led skip s) = [] ↔
      M.clearAfter value led s = true := by
  induction s generalizing led skip with
  | nil => simp [fillAfter, placeholdersAfter, clearAfter]
  | cons c cs ih =>
    by_cases hpass : skip = true ∧ M.isName c = true
    · have hlead : c ≠ M.lead := by
        rintro rfl
        exact absurd hpass.2 (by simp [M.lead_plain])
      rw [fillAfter_pass hpass.1 hpass.2, hskip hpass.1, ih fun _ ↦ rfl, clearAfter,
        decide_eq_false hlead]
      simp
    · by_cases hentry : led = true ∧ c = M.mark ∧ M.run cs ≠ []
      · obtain ⟨rfl, rfl, hrun⟩ := hentry
        rw [fillAfter_placeholder hrun, clearAfter, decide_mark, Bool.and_eq_true,
          ← @ih false true fun _ ↦ rfl]
        by_cases hv : value (M.run cs) = []
        · rw [if_pos ⟨rfl, rfl, hrun, hv⟩, hv, List.nil_append, placeholdersAfter_true_eq_nil,
            fillAfter_skip, starts_fillAfter, Bool.not_eq_true']
        · rw [if_neg fun h ↦ hv h.2.2.2, placeholdersAfter_clean (hvalue _) hv]
          simp
      · have hrun : led = true → c = M.mark →
            M.run (M.fillAfter value (c = M.lead) false cs) = [] := fun hl hc ↦ by
          rw [hc, decide_mark, run_fillAfter]
          by_contra hne
          exact hentry ⟨hl, hc, hne⟩
        rw [fillAfter_emit hpass hentry, placeholdersAfter, clearAfter,
          if_neg fun h ↦ h.2.2 (hrun h.1 h.2.1), if_neg fun h ↦ hentry ⟨h.1, h.2.1, h.2.2.1⟩,
          List.nil_append, ih (by simp), Bool.true_and]

/-- Replaced on its own placeholder, a name leaves the filled text as it was. -/
theorem Puts.fillAfter_eq {s' r : List α} {at' : Bool} (h : M.Puts name new led s s' at' r)
    (hat : at' = true) (hr : r = name) (hne : name ≠ []) (hname : M.IsName name)
    (hvalue : ∀ n, M.Clean (value n)) (hv : value name = new) (hskip : skip = true → led = false)
    (hclear : M.placeholdersAfter led (M.fillAfter value led skip s) = []) :
    M.fillAfter value led skip s' = M.fillAfter value led skip s := by
  have hnew : M.Clean new := hv ▸ hvalue name
  induction h generalizing skip with
  | here led rest =>
    subst hat
    have hskip' : skip = false := by
      by_contra hs
      exact absurd (hskip (by simpa using hs)) (by simp)
    have hrest : M.run rest = [] :=
      List.append_right_eq_self.mp ((run_append hname rest).symm.trans hr)
    have hrun : M.run (name ++ rest) ≠ [] := hr.trans_ne hne
    rw [fillAfter_placeholder hrun, hr, hv, fillAfter_skip_name hname,
      fillAfter_skip_of_run hrest] at hclear ⊢
    rw [hskip']
    by_cases hnil : new = []
    · rw [hnil, List.nil_append] at hclear ⊢
      rw [placeholdersAfter_true_eq_nil, starts_fillAfter] at hclear
      exact fillAfter_of_starts hclear.1 true
    · exact fillAfter_clean hnew hnil true rest
  | @later led at' c cs cs' r hp hlater ih =>
    have hrun : c = M.mark → M.run cs' = M.run cs := by
      rintro rfl
      rw [hat, decide_mark] at hlater
      exact hlater.run_eq
    by_cases hpass : skip = true ∧ M.isName c = true
    · have hlead : decide (c = M.lead) = false := decide_eq_false <| by
        rintro rfl
        exact absurd hpass.2 (by simp [M.lead_plain])
      rw [fillAfter_pass hpass.1 hpass.2] at hclear ⊢
      rw [fillAfter_pass hpass.1 hpass.2]
      rw [hskip hpass.1] at hclear
      have := ih hat hr (fun _ : true = true ↦ hlead) (by rw [hlead]; exact hclear)
      rwa [hlead] at this
    · by_cases hentry : led = true ∧ c = M.mark ∧ M.run cs ≠ []
      · obtain ⟨rfl, rfl, hne'⟩ := hentry
        rw [fillAfter_placeholder hne'] at hclear
        rw [fillAfter_placeholder hne', fillAfter_placeholder (hrun rfl ▸ hne'), hrun rfl]
        have hsub := placeholdersAfter_clean_sublist (hvalue (M.run cs)) true
          (M.fillAfter value false true cs)
        rw [hclear] at hsub
        have := ih hat hr (fun _ : true = true ↦ decide_mark)
          (by rw [decide_mark]; exact List.sublist_nil.mp hsub)
        rw [decide_mark] at this
        rw [this]
      · have hentry' : ¬ (led = true ∧ c = M.mark ∧ M.run cs' ≠ []) := fun h ↦
          hentry ⟨h.1, h.2.1, hrun h.2.1 ▸ h.2.2⟩
        rw [fillAfter_emit hpass hentry, placeholdersAfter, List.append_eq_nil_iff] at hclear
        rw [fillAfter_emit hpass hentry, fillAfter_emit hpass hentry',
          ih hat hr (by simp) hclear.2]

end

/-! ## Which placeholder a name meets -/

/-- A clean text is passed. -/
theorem metAfter_clean (hnew : M.Clean new) (hne : new ≠ []) (led : Bool) (rest : List α) :
    M.metAfter name led (new ++ rest) = M.metAfter name false rest := by
  induction new generalizing led with
  | nil => exact absurd rfl hne
  | cons c cs ih =>
    have hc := hnew c List.mem_cons_self
    rw [List.cons_append, metAfter, if_neg fun h ↦ hc.1 (List.cons_prefix_cons.mp h).1.symm,
      decide_eq_false hc.2]
    by_cases hcs : cs = []
    · rw [hcs, List.nil_append]
    · exact ih (fun d hd ↦ hnew d (List.mem_cons_of_mem _ hd)) hcs false

/-- Where no name is met right away, a lead before the text changes nothing. -/
theorem OwnsAfter.of_false (h : M.OwnsAfter name false s) (led : Bool) :
    M.OwnsAfter name led s := by
  cases s with
  | nil => exact fun x hx ↦ by cases hx
  | cons c cs =>
    intro x hx
    have hp : ¬ M.mark :: name <+: c :: cs := fun hp ↦ by
      have := (h (false, M.run cs) (by rw [metAfter, if_pos hp]; rfl)).1
      cases this
    apply h x
    rwa [metAfter, if_neg hp] at hx ⊢

/-- Replaced on its own placeholder, a name leaves the first place of every other. -/
theorem Puts.ownsAfter {other s' r : List α} {at' : Bool} (h : M.Puts name new led s s' at' r)
    (hat : at' = true) (hr : r = name) (hne : name ≠ []) (hname : M.IsName name)
    (hnew : M.Clean new) (hother : M.IsName other) (hdiff : other ≠ name)
    (howns : M.OwnsAfter other led s) : M.OwnsAfter other led s' := by
  induction h with
  | here led rest =>
    subst hat
    have hp : ¬ M.mark :: other <+: M.mark :: (name ++ rest) := fun hp ↦ by
      have := (howns (true, M.run (name ++ rest)) (by rw [metAfter, if_pos hp]; rfl)).1
      rw [hr] at this
      exact hdiff (Prod.ext_iff.mp this).2.symm
    have hrest : M.OwnsAfter other false rest := fun x hx ↦ howns x (by
      rw [metAfter, if_neg hp, metAfter_clean hname.clean hne]
      exact hx)
    by_cases hnil : new = []
    · rw [hnil, List.nil_append]
      exact hrest.of_false true
    · intro x hx
      rw [metAfter_clean hnew hnil] at hx
      exact hrest x hx
  | @later led at' c cs cs' r hp hlater ih =>
    have hrun : c = M.mark → M.run cs' = M.run cs := by
      rintro rfl
      rw [hat, decide_mark] at hlater
      exact hlater.run_eq
    have hiff : M.mark :: other <+: c :: cs' ↔ M.mark :: other <+: c :: cs := by
      rw [hother.mark_isPrefix_iff, hother.mark_isPrefix_iff]
      exact and_congr_right fun hc ↦ by rw [hrun hc]
    intro x hx
    by_cases ho : M.mark :: other <+: c :: cs
    · rw [metAfter, if_pos (hiff.mpr ho), hrun ((hother.mark_isPrefix_iff _ _).mp ho).1] at hx
      exact howns x (by rw [metAfter, if_pos ho]; exact hx)
    · rw [metAfter, if_neg (mt hiff.mp ho)] at hx
      exact ih hat hr (fun y hy ↦ howns y (by rw [metAfter, if_neg ho]; exact hy)) x hx

end Marks

end FgGas.Machine
