import FgGas.Buckets.Summary
import FgGas.Machine.Lookup

/-!
# Finding combinations

The combinations of a summary under one fill are found one fact at a time. Each step matches the
rows within the fill that share the combination found so far, so the search keeps `Covers`: what
it finds are combinations of rows within, each once, and all of them unless a step is cut short.
-/

namespace FgGas.Buckets

open Listing Machine

variable {τ ι : Type}

/-! ### Objects -/

section
variable {lower upper values : Values} {fact other : String} {value : Option String}
  {facts : List String} {of : String → Option String}

theorem mem_withFilter {p : String × Option String} :
    p ∈ withFilter values fact value ↔ p ∈ values ∧ p.1 ≠ fact ∨ p = (fact, value) := by
  simp [withFilter]

theorem withFilter_injective : Function.Injective (withFilter values fact) := by
  intro value value' h
  simpa [withFilter] using h

theorem mem_spread {p : String × Option String} :
    p ∈ spread lower upper ↔ p ∈ lower ∧ p.1 ∉ upper.map Prod.fst ∨ p ∈ upper := by
  simp [spread]

theorem mem_fromEntries {p : String × Option String} :
    p ∈ fromEntries facts of ↔ p.1 ∈ facts ∧ p.2 = of p.1 := by
  obtain ⟨name, v⟩ := p
  simp only [fromEntries, List.mem_map, List.mem_eraseDups, Prod.mk.injEq]
  constructor
  · rintro ⟨name, hname, rfl, rfl⟩
    exact ⟨hname, rfl⟩
  · rintro ⟨hname, rfl⟩
    exact ⟨name, hname, rfl, rfl⟩

theorem map_fst_fromEntries : (fromEntries facts of).map Prod.fst = facts.eraseDups := by
  rw [fromEntries, List.map_map]
  exact List.map_id _

theorem lookup_fromEntries :
    (fromEntries facts of).lookup fact = if fact ∈ facts then some (of fact) else none := by
  have hlookup : ∀ names : List String, (names.map fun name ↦ (name, of name)).lookup fact =
      if fact ∈ names then some (of fact) else none := by
    intro names
    induction names with
    | nil => rfl
    | cons name names ih =>
      rw [List.map_cons, List.lookup_cons, ih]
      by_cases h : fact = name
      · simp [h]
      · simp [h, beq_eq_false_iff_ne.mpr h]
  rw [fromEntries, hlookup]
  simp

/-- Objects of the same facts are equal when they hold the same. -/
theorem fromEntries_inj {of' : String → Option String} :
    fromEntries facts of = fromEntries facts of' ↔ ∀ fact ∈ facts, of fact = of' fact := by
  constructor
  · intro h fact hfact
    have hmem : (fact, of fact) ∈ fromEntries facts of := mem_fromEntries.mpr ⟨hfact, rfl⟩
    rw [h] at hmem
    exact (mem_fromEntries.mp hmem).2
  · intro h
    exact List.map_congr_left fun fact hfact ↦ by rw [h fact (List.mem_eraseDups.mp hfact)]

theorem nodup_withFilter (h : (values.map Prod.fst).Nodup) :
    ((withFilter values fact value).map Prod.fst).Nodup := by
  have hkept := (List.filter_sublist (p := fun p ↦ p.1 ≠ fact) (l := values)).map Prod.fst
  rw [withFilter, List.map_append, List.nodup_append]
  refine ⟨h.sublist hkept, List.nodup_singleton _, fun a ha b hb heq ↦ ?_⟩
  obtain ⟨p, hp, rfl⟩ := List.mem_map.mp ha
  have hne : p.1 ≠ fact := by simpa using (List.mem_filter.mp hp).2
  exact hne (heq.trans (List.mem_singleton.mp hb))

theorem lookup_spread : (spread lower upper).lookup fact =
    (upper.lookup fact).or (lower.lookup fact) := by
  have hunder : (lower.filter fun p ↦ p.1 ∉ upper.map Prod.fst).lookup fact =
      if fact ∈ upper.map Prod.fst then none else lower.lookup fact := by
    induction lower with
    | nil => simp
    | cons p lower ih =>
      obtain ⟨name, v⟩ := p
      by_cases hname : name ∈ upper.map Prod.fst
      · rw [List.filter_cons_of_neg (by simpa using hname), ih]
        by_cases hfact : fact = name
        · simp [hfact, hname]
        · rw [List.lookup_cons, beq_eq_false_iff_ne.mpr hfact]
      · rw [List.filter_cons_of_pos (by simpa using hname), List.lookup_cons, ih]
        by_cases hfact : fact = name
        · simp [hfact, hname]
        · rw [List.lookup_cons, beq_eq_false_iff_ne.mpr hfact]
  rw [spread, List.lookup_append, hunder]
  by_cases hfact : fact ∈ upper.map Prod.fst
  · obtain ⟨v, hv, _⟩ := exists_lookup hfact
    simp [hfact, hv]
  · have hnone : upper.lookup fact = none := by
      rw [List.lookup_eq_none_iff]
      intro p hp
      have hne : fact ≠ p.1 := fun heq ↦ hfact (heq ▸ List.mem_map_of_mem hp)
      simpa using hne
    simp [hfact, hnone]

/-- Objects of the same facts are told apart by their texts. -/
theorem textOf_inj {values' : Values} (hfacts : values.map Prod.fst = values'.map Prod.fst)
    (h : textOf values = textOf values') : values = values' := by
  have hlength : values.length = values'.length := by
    simpa using congrArg List.length hfacts
  have hvalues := arrayText_inj (by simpa using hlength) h
  exact (List.zip_of_prod hfacts hvalues).trans (List.zip_of_prod rfl rfl).symm

end

/-! ### A map by text -/

section
variable {shape : List String} {entries : List Values} {values : Values}

/-- What a map by text keeps: objects of the same facts, each once. -/
def KeptByText (shape : List String) (entries : List Values) : Prop :=
  entries.Nodup ∧ ∀ values ∈ entries, values.map Prod.fst = shape

/-- Setting an entry keeps the others, and keeps them apart. -/
theorem KeptByText.set (h : KeptByText shape entries) (hvalues : values.map Prod.fst = shape) :
    KeptByText shape (setByText entries values) ∧
      ∀ entry, entry ∈ setByText entries values ↔ entry ∈ entries ∨ entry = values := by
  have htext : ∀ entry ∈ entries, textOf entry = textOf values → entry = values :=
    fun entry hentry ↦ textOf_inj ((h.2 entry hentry).trans hvalues.symm)
  by_cases hany : entries.any (textOf · = textOf values) = true
  · obtain ⟨entry, hentry, heq⟩ := List.any_eq_true.mp hany
    obtain rfl := htext entry hentry (of_decide_eq_true heq)
    have hsame : setByText entries entry = entries := by
      rw [setByText, if_pos hany]
      refine (List.map_congr_left fun other hother ↦ ?_).trans (List.map_id _)
      by_cases hkey : textOf other = textOf entry
      · rw [if_pos hkey, htext other hother hkey, id]
      · rw [if_neg hkey, id]
    rw [hsame]
    exact ⟨h, fun other ↦ ⟨.inl, fun hor ↦ hor.elim id (· ▸ hentry)⟩⟩
  · have hnew : values ∉ entries := fun hmem ↦
      hany (List.any_eq_true.mpr ⟨values, hmem, decide_eq_true rfl⟩)
    rw [setByText, if_neg hany]
    refine ⟨⟨?_, fun entry hentry ↦ ?_⟩, fun entry ↦ by simp⟩
    · exact List.nodup_append.mpr ⟨h.1, List.nodup_singleton _,
        fun a ha b hb heq ↦ hnew (List.mem_singleton.mp hb ▸ heq ▸ ha)⟩
    · rcases List.mem_append.mp hentry with hold | hlast
      · exact h.2 entry hold
      · exact List.mem_singleton.mp hlast ▸ hvalues

/-- A map of all that is found. -/
theorem KeptByText.foldl (found : List Values) (h : KeptByText shape entries)
    (hfound : ∀ values ∈ found, values.map Prod.fst = shape) :
    KeptByText shape (found.foldl setByText entries) ∧
      ∀ entry, entry ∈ found.foldl setByText entries ↔ entry ∈ entries ∨ entry ∈ found := by
  induction found generalizing entries with
  | nil => exact ⟨h, by simp⟩
  | cons values found ih =>
    obtain ⟨hkept, hmem⟩ := h.set (hfound values List.mem_cons_self)
    obtain ⟨hkept', hmem'⟩ := ih hkept fun v hv ↦ hfound v (List.mem_cons_of_mem _ hv)
    refine ⟨hkept', fun entry ↦ ?_⟩
    rw [List.foldl_cons, hmem', hmem, List.mem_cons, or_assoc]

end

/-! ### Steps under a fill -/

/-- The combination of a row after some facts have been stepped. -/
def seenAfter (fixed : Values) (facts : List String) (d : Document τ ι) : Values :=
  facts.foldl (fun combination fact ↦ withFilter combination fact (d.fact fact)) fixed

section
variable {fixed fill : Values} {facts byFacts : List String} {a b d : Document τ ι}

theorem mem_seenAfter {p : String × Option String} : p ∈ seenAfter fixed facts d ↔
    p ∈ fixed ∧ p.1 ∉ facts ∨ p.1 ∈ facts ∧ p.2 = d.fact p.1 := by
  induction facts using List.reverseRecOn with
  | nil => simp [seenAfter]
  | append_singleton facts fact ih =>
    have hlast : seenAfter fixed (facts ++ [fact]) d =
        withFilter (seenAfter fixed facts d) fact (d.fact fact) := by
      simp [seenAfter]
    obtain ⟨name, value⟩ := p
    rw [hlast, mem_withFilter, ih]
    by_cases hname : name = fact
    · subst hname
      simp
    · simp [hname]

/-- Rows are told apart by the facts stepped. -/
theorem seenAfter_inj : seenAfter fixed facts a = seenAfter fixed facts b ↔
    ∀ fact ∈ facts, a.fact fact = b.fact fact := by
  constructor
  · intro h fact hfact
    have hmem : (fact, a.fact fact) ∈ seenAfter fixed facts a :=
      mem_seenAfter.mpr (.inr ⟨hfact, rfl⟩)
    rw [h, mem_seenAfter] at hmem
    exact hmem.elim (fun hfixed ↦ absurd hfact hfixed.2) And.right
  · intro h
    induction facts using List.reverseRecOn with
    | nil => rfl
    | append_singleton facts fact ih =>
      have ih := ih fun name hname ↦ h name (List.mem_append_left _ hname)
      simp only [seenAfter, List.foldl_append, List.foldl_cons, List.foldl_nil] at ih ⊢
      rw [ih, h fact (by simp)]

/-- What the fill fixes of a combination is what its rows hold. -/
theorem fixedBy_eq (hfill : ∀ p ∈ fill, a.fact p.1 = p.2) :
    ∀ p ∈ fixedBy byFacts fill, p.2 = a.fact p.1 := by
  intro p hp
  obtain ⟨hfact, hvalue⟩ := mem_fromEntries.mp hp
  have hown : p.1 ∈ fill.map Prod.fst := of_decide_eq_true (List.mem_filter.mp hfact).2
  obtain ⟨value, hlookup, hmem⟩ := exists_lookup hown
  rw [hvalue, valueOf, hlookup, hfill _ hmem]
  rfl

variable [LinearOrder τ] [LinearOrder ι] {read : Read τ ι}

/-- A row a step may match: of the fill, of what is asked and in the range. -/
def Within (read : Read τ ι) (fill : Values) (d : Document τ ι) : Prop :=
  (∀ p ∈ fill, d.fact p.1 = p.2) ∧ (∀ p ∈ read.query.wanted, d.fact p.1 = p.2) ∧
    (rangePart read).admits d = true

instance : DecidablePred (Within read fill) := fun _ ↦ inferInstanceAs (Decidable (_ ∧ _))

/-- A step under a combination that goes with the fill matches the rows within that hold it. -/
theorem passes_stepParts {combination : Values} {of : String → Option String}
    (hfill : ∀ p ∈ fill, of p.1 = p.2) (hwanted : ∀ p ∈ read.query.wanted, of p.1 = p.2)
    (hcombination : ∀ p ∈ combination, p.2 = of p.1) :
    passes (stepParts read fill combination) d = true ↔
      Within read fill d ∧ ∀ p ∈ combination, d.fact p.1 = p.2 := by
  have hparts : passes (stepParts read fill combination) d = true ↔
      (∀ p ∈ spread (spread fill read.query.wanted) combination, d.fact p.1 = p.2) ∧
        (rangePart read).admits d = true := by
    simp [passes, stepParts, Part.admits, FactFilter.admits]
  rw [hparts]
  constructor
  · rintro ⟨hall, hrange⟩
    have hheld : ∀ p ∈ combination, d.fact p.1 = p.2 := fun p hp ↦
      hall p (mem_spread.mpr (.inr hp))
    -- what is overridden is overridden by the same value
    have hover : ∀ fact ∈ combination.map Prod.fst, d.fact fact = of fact := by
      intro fact hfact
      obtain ⟨p, hp, rfl⟩ := List.mem_map.mp hfact
      exact (hheld p hp).trans (hcombination p hp)
    have hasked : ∀ p ∈ read.query.wanted, d.fact p.1 = p.2 := by
      intro p hp
      by_cases hfact : p.1 ∈ combination.map Prod.fst
      · exact (hover _ hfact).trans (hwanted p hp)
      · exact hall p (mem_spread.mpr (.inl ⟨mem_spread.mpr (.inr hp), hfact⟩))
    refine ⟨⟨fun p hp ↦ ?_, hasked, hrange⟩, hheld⟩
    by_cases hfact : p.1 ∈ combination.map Prod.fst
    · exact (hover _ hfact).trans (hfill p hp)
    · by_cases hname : p.1 ∈ read.query.wanted.map Prod.fst
      · obtain ⟨q, hq, hqp⟩ := List.mem_map.mp hname
        rw [← hqp, hasked q hq, ← hwanted q hq, hqp, hfill p hp]
      · exact hall p (mem_spread.mpr (.inl ⟨mem_spread.mpr (.inl ⟨hp, hname⟩), hfact⟩))
  · rintro ⟨⟨hfilled, hasked, hrange⟩, hheld⟩
    refine ⟨fun p hp ↦ ?_, hrange⟩
    rcases mem_spread.mp hp with ⟨hunder, _⟩ | hover
    · rcases mem_spread.mp hunder with ⟨hin, _⟩ | hin
      · exact hfilled p hin
      · exact hasked p hin
    · exact hheld p hover

/-- What the combination of a row within holds is what the row does. -/
theorem seenAfter_eq (ha : Within read fill a) :
    ∀ p ∈ seenAfter (fixedBy byFacts fill) facts a, p.2 = a.fact p.1 := by
  intro p hp
  rcases mem_seenAfter.mp hp with ⟨hfixed, _⟩ | ⟨_, hvalue⟩
  · exact fixedBy_eq ha.1 p hfixed
  · exact hvalue

/-- A step under the combination of a row within matches the rows within that share it. -/
theorem passes_stepParts_seenAfter (ha : Within read fill a) :
    passes (stepParts read fill (seenAfter (fixedBy byFacts fill) facts a)) d = true ↔
      Within read fill d ∧ seenAfter (fixedBy byFacts fill) facts d =
        seenAfter (fixedBy byFacts fill) facts a := by
  rw [passes_stepParts ha.1 ha.2.1 (seenAfter_eq ha), seenAfter_inj]
  refine and_congr_right fun hd ↦ ?_
  constructor
  · intro h fact hfact
    exact h (fact, a.fact fact) (mem_seenAfter.mpr (.inr ⟨hfact, rfl⟩))
  · intro h p hp
    rcases mem_seenAfter.mp hp with ⟨hfixed, _⟩ | ⟨hfact, hvalue⟩
    · exact (fixedBy_eq hd.1 p hfixed).symm
    · rw [hvalue, h p.1 hfact]

variable {platform : Platform} {rows : List (Document τ ι)} {combination : Values}
  {fact : String}

/-- The rows a step under a fill may match. -/
def rowsWithin (rows : List (Document τ ι)) (read : Read τ ι) (fill : Values) :
    List (Document τ ι) :=
  rows.filter fun d ↦ Within read fill d

theorem mem_rowsWithin : d ∈ rowsWithin rows read fill ↔ d ∈ rows ∧ Within read fill d := by
  simp [rowsWithin]

/-- The values a step answers are of rows that match, and all of them unless it is cut short. -/
theorem widen_splits (hc : ∃ a ∈ rowsWithin rows read fill,
      seenAfter (fixedBy byFacts fill) facts a = combination) :
    Splits (rowsWithin rows read fill) (seenAfter (fixedBy byFacts fill) facts)
      (seenAfter (fixedBy byFacts fill) (facts ++ [fact])) (MAX_VALUES + 1) combination
      (widen platform rows read fill fact combination) := by
  obtain ⟨a, ha, rfl⟩ := hc
  have hwithin := (mem_rowsWithin.mp ha).2
  have hnext : ∀ d : Document τ ι, seenAfter (fixedBy byFacts fill) (facts ++ [fact]) d =
      withFilter (seenAfter (fixedBy byFacts fill) facts d) fact (d.fact fact) := by
    intro d
    simp [seenAfter]
  have hgroups := platform.groups
    (matchedValues rows read fill (seenAfter (fixedBy byFacts fill) facts a) fact)
  refine ⟨?_, fun c' hc' ↦ ?_, ?_⟩
  · have hnodup := (hgroups.nodup_iff.mpr (List.nodup_dedup _)).sublist
      (List.take_sublist (MAX_VALUES + 1) _)
    exact hnodup.map withFilter_injective
  · obtain ⟨value, hvalue, rfl⟩ := List.mem_map.mp hc'
    have hmatched := List.mem_dedup.mp (hgroups.mem_iff.mp (List.mem_of_mem_take hvalue))
    obtain ⟨d, hd, rfl⟩ := List.mem_map.mp hmatched
    obtain ⟨hrow, hpasses⟩ := List.mem_filter.mp hd
    obtain ⟨hin, hsame⟩ := (passes_stepParts_seenAfter hwithin).mp hpasses
    exact ⟨d, mem_rowsWithin.mpr ⟨hrow, hin⟩, hsame, by rw [hnext, hsame]⟩
  · by_cases hshort : (platform.groupOrder (matchedValues rows read fill
        (seenAfter (fixedBy byFacts fill) facts a) fact)).length ≤ MAX_VALUES + 1
    · refine .inl fun d hd hsame ↦ ?_
      obtain ⟨hrow, hin⟩ := mem_rowsWithin.mp hd
      have hpasses := (passes_stepParts_seenAfter hwithin).mpr ⟨hin, hsame⟩
      rw [hnext, hsame]
      refine List.mem_map_of_mem ?_
      rw [stepValues, List.take_of_length_le hshort]
      exact hgroups.mem_iff.mpr (List.mem_dedup.mpr
        (List.mem_map_of_mem (List.mem_filter.mpr ⟨hrow, hpasses⟩)))
    · refine .inr ?_
      rw [widen, stepValues, List.length_map, List.length_take]
      omega

omit [LinearOrder τ] [LinearOrder ι] in
theorem seenAfter_refines (facts : List String) (fact : String) (a b : Document τ ι)
    (h : seenAfter fixed (facts ++ [fact]) a = seenAfter fixed (facts ++ [fact]) b) :
    seenAfter fixed facts a = seenAfter fixed facts b :=
  seenAfter_inj.mpr fun name hname ↦ seenAfter_inj.mp h name (List.mem_append_left _ hname)

/-- The search under a fill that has rows starts from what the fill fixes. -/
theorem covers_fixedBy (h : rowsWithin rows read fill ≠ []) :
    Covers (rowsWithin rows read fill) (seenAfter (fixedBy byFacts fill) []) (MAX_VALUES + 1)
      [fixedBy byFacts fill] where
  nodup := List.nodup_singleton _
  occurs c hc := by
    obtain ⟨a, ha⟩ := List.exists_mem_of_ne_nil _ h
    exact ⟨a, ha, (List.mem_singleton.mp hc).symm⟩
  all := .inl fun _ _ ↦ List.mem_singleton.mpr rfl

/-- The combinations found under a fill that has rows. -/
theorem covers_combinationsOf (h : rowsWithin rows read fill ≠ []) (facts : List String) :
    Covers (rowsWithin rows read fill) (seenAfter (fixedBy byFacts fill) facts) (MAX_VALUES + 1)
      (combinationsOf platform rows read byFacts fill facts) :=
  (covers_fixedBy h).foldl (Nat.succ_pos _) seenAfter_refines
    (fun _ _ _ hc ↦ widen_splits hc) facts

/-- The combination of a row. -/
def combinationOf (byFacts : List String) (d : Document τ ι) : Values :=
  fromEntries byFacts d.fact

/-- What is found under a fill that has rows are the combinations of its rows. -/
theorem covers_readValuesWithin (h : rowsWithin rows read fill ≠ []) :
    Covers (rowsWithin rows read fill) (combinationOf byFacts) (MAX_VALUES + 1)
      (readValuesWithin platform rows read byFacts fill) := by
  refine (covers_combinationsOf h _).map (fun a ha ↦ ?_) fun a _ b _ hab ↦ ?_
  · refine fromEntries_inj.mpr fun fact hfact ↦ ?_
    have hwithin := (mem_rowsWithin.mp ha).2
    have hkey : fact ∈ (seenAfter (fixedBy byFacts fill) (steppedFacts byFacts fill) a).map
        Prod.fst := by
      cases hown : hasOwn fill fact with
      | true =>
        have hfixed : (fact, valueOf fill fact) ∈ fixedBy byFacts fill :=
          mem_fromEntries.mpr ⟨List.mem_filter.mpr ⟨hfact, hown⟩, rfl⟩
        have hnot : fact ∉ steppedFacts byFacts fill := by
          simp [steppedFacts, hown]
        exact List.mem_map.mpr ⟨_, mem_seenAfter.mpr (.inl ⟨hfixed, hnot⟩), rfl⟩
      | false =>
        have hstepped : fact ∈ steppedFacts byFacts fill := by
          simp [steppedFacts, hown, hfact]
        exact List.mem_map.mpr ⟨(fact, a.fact fact),
          mem_seenAfter.mpr (.inr ⟨hstepped, rfl⟩), rfl⟩
    obtain ⟨value, hlookup, hmem⟩ := exists_lookup hkey
    rw [valueOf, hlookup]
    exact seenAfter_eq hwithin _ hmem
  · exact seenAfter_inj.mpr fun fact hfact ↦
      fromEntries_inj.mp hab fact (List.mem_filter.mp hfact).1

end

end FgGas.Buckets
