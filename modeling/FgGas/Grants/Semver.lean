import FgGas.Grants.ConfigVersion
import FgGas.Machine.LeadingZeros
import Mathlib.Data.List.MinMax
import Mathlib.Data.Prod.Lex
import Mathlib.Order.WithBot

/-!
# Versions told apart

`parseSemver` (`src/common/semver.js`) down to the doubles its components are read as, and the
choice among the stored versions of a major by `findLatestForMajor`
(`src/grants/repositories/config-version.repository.js`), which takes the one stored first where
several are as late. A component is told from another by more than leading zeros, and by no more
than a double holds.
-/

namespace FgGas.Grants.Semver

open Machine Agreements

/-- `Number.parseInt` of decimal digits, `Infinity` on top. -/
def parseInt (digits : List Char) : WithTop ℚ := nearestDouble (digitsValue digits : ℚ)

/-- What `parseSemver` returns. -/
structure Version where
  major : WithTop ℚ
  minor : WithTop ℚ
  patch : WithTop ℚ
  deriving DecidableEq

/-- `/^\d+$/`. -/
def isComponent (part : List Char) : Bool := !part.isEmpty && part.all Char.isDigit

/-- `version.split(".")`. -/
def components (version : String) : List (List Char) := version.toList.splitOn '.'

/-- `parseSemver`. -/
def parseSemver (version : String) : Option Version :=
  match components version with
  | [major, minor, patch] =>
      if isComponent major && isComponent minor && isComponent patch then
        some ⟨parseInt major, parseInt minor, parseInt patch⟩
      else none
  | _ => none

theorem parseVersionPart_eq (part : List Char) :
    parseVersionPart part = if isComponent part = true then some (digitsValue part) else none := by
  unfold parseVersionPart isComponent
  cases part.isEmpty <;> cases part.all Char.isDigit <;> rfl

/-- The exact reading that the other modules go by, rounded to doubles. -/
theorem parseSemver_eq_rounded (version : String) :
    parseSemver version = (Agreements.parseSemver version).map fun (major, minor, patch) ↦
      ⟨nearestDouble major, nearestDouble minor, nearestDouble patch⟩ := by
  unfold parseSemver Agreements.parseSemver components
  generalize version.toList.splitOn '.' = parts
  match parts with
  | [] | [_] | [_, _] | _ :: _ :: _ :: _ :: _ => rfl
  | [major, minor, patch] =>
    simp only [parseVersionPart_eq]
    by_cases hmajor : isComponent major = true
    · by_cases hminor : isComponent minor = true
      · by_cases hpatch : isComponent patch = true
        · simp [hmajor, hminor, hpatch, parseInt]
        · simp [hmajor, hminor, hpatch]
      · simp [hmajor, hminor]
    · simp [hmajor]

/-- A string that is accepted, and what it is read as. -/
structure Accepted where
  text : String
  version : Version
  parsed : parseSemver text = some version
  deriving DecidableEq

/-- What is stored of a config version. -/
structure VersionDocument extends Accepted where
  status : ConfigVersionStatus
  fetchStatus : FetchStatus
  deriving DecidableEq

/-- The stored config versions of a grant code, one for each string. -/
structure Catalogue where
  documents : List VersionDocument
  keyed : (documents.map (·.text)).Nodup

/-- The filter of `findLatestForMajor`. -/
def VersionDocument.selectable (major : WithTop ℚ) (v : VersionDocument) : Bool :=
  v.version.major = major && v.status = .active && v.fetchStatus ≠ .permanentError

/-- The sort of `findLatestForMajor`. -/
def VersionDocument.order (v : VersionDocument) : WithTop ℚ ×ₗ WithTop ℚ :=
  toLex (v.version.minor, v.version.patch)

/-- `findLatestForMajor`, of the documents in the order they are stored. -/
def findLatestForMajor (stored : List VersionDocument) (major : WithTop ℚ) :
    Option VersionDocument :=
  (stored.filter (·.selectable major)).argmax VersionDocument.order

/-- The versions of a major than which none is later. -/
def Catalogue.latest (catalogue : Catalogue) (major : WithTop ℚ) : List VersionDocument :=
  let selectable := catalogue.documents.filter (·.selectable major)
  selectable.filter fun v ↦ selectable.all fun u ↦ u.order ≤ v.order

/-! ### Components -/

/-- Two components that a version is not told from another by: they differ in leading zeros only,
or are past 2 to the 53 and share the nearest double. -/
def Alike (a b : List Char) : Prop :=
  significantDigits a = significantDigits b ∨
    2 ^ 53 ≤ digitsValue a ∧ 2 ^ 53 ≤ digitsValue b ∧
      nearestDouble (digitsValue a : ℚ) = nearestDouble (digitsValue b : ℚ)

/-- Two strings none of whose components tells them apart. -/
def Merged (v w : String) : Prop := List.Forall₂ Alike (components v) (components w)

theorem parseInt_eq_iff {a b : List Char} (ha : isComponent a = true)
    (hb : isComponent b = true) : parseInt a = parseInt b ↔ Alike a b := by
  have hdigits : ∀ part, isComponent part = true → ∀ c ∈ part, c.isDigit = true := by
    intro part hpart
    rw [isComponent, Bool.and_eq_true] at hpart
    exact List.all_eq_true.mp hpart.2
  have hvalue := digitsValue_eq_iff (hdigits a ha) (hdigits b hb)
  have hround : parseInt a = parseInt b ↔
      nearestDouble (digitsValue a : ℚ) = nearestDouble (digitsValue b : ℚ) := Iff.rfl
  rw [hround, Alike, ← hvalue]
  constructor
  · intro h
    by_cases hlow : digitsValue a < 2 ^ 53
    · exact .inl ((nearestDouble_natCast_inj hlow).mp h)
    · by_cases hlow' : digitsValue b < 2 ^ 53
      · exact .inl ((nearestDouble_natCast_inj hlow').mp h.symm).symm
      · exact .inr ⟨not_lt.mp hlow, not_lt.mp hlow', h⟩
  · rintro (h | h)
    · rw [h]
    · exact h.2.2

/-- An accepted string has three components, each of digits. -/
theorem parseSemver_eq_some {text : String} {version : Version}
    (h : parseSemver text = some version) :
    ∃ a b c, components text = [a, b, c] ∧ isComponent a = true ∧ isComponent b = true ∧
      isComponent c = true ∧ version = ⟨parseInt a, parseInt b, parseInt c⟩ := by
  unfold parseSemver at h
  split at h
  · next a b c hparts =>
    split at h
    · next hall =>
      rw [Bool.and_eq_true, Bool.and_eq_true] at hall
      exact ⟨a, b, c, hparts, hall.1.1, hall.1.2, hall.2, (Option.some.inj h).symm⟩
    · cases h
  · cases h

/-- Accepted strings are read as one version exactly when they are merged. -/
theorem version_eq_iff (v w : Accepted) : v.version = w.version ↔ Merged v.text w.text := by
  obtain ⟨a, b, c, hv, ha, hb, hc, hversion⟩ := parseSemver_eq_some v.parsed
  obtain ⟨a', b', c', hw, ha', hb', hc', hversion'⟩ := parseSemver_eq_some w.parsed
  rw [hversion, hversion', Merged, hv, hw, Version.mk.injEq, parseInt_eq_iff ha ha',
    parseInt_eq_iff hb hb', parseInt_eq_iff hc hc']
  simp only [List.forall₂_cons, List.forall₂_nil_left_iff, and_true]

/-- A component without leading zeros, below 2 to the 53. -/
def Plain (part : List Char) : Prop :=
  (part = ['0'] ∨ significantDigits part = part) ∧ digitsValue part < 2 ^ 53

theorem alike_iff_of_plain {a b : List Char} (ha : Plain a) (hb : Plain b) (hna : a ≠ [])
    (hnb : b ≠ []) : Alike a b ↔ a = b := by
  constructor
  · intro h
    have hsame := h.resolve_right fun hlarge ↦ absurd ha.2 (not_lt.mpr hlarge.1)
    have hzero : significantDigits ['0'] = [] := rfl
    rcases ha.1 with rfl | hplain
    · rcases hb.1 with rfl | hplain'
      · rfl
      · exact absurd (hplain'.symm.trans (hsame.symm.trans hzero)) hnb
    · rcases hb.1 with rfl | hplain'
      · exact absurd (hplain.symm.trans (hsame.trans hzero)) hna
      · rw [← hplain, hsame, hplain']
  · rintro rfl
    exact .inl rfl

/-- Accepted strings of plain components are merged only with themselves. -/
theorem merged_iff_of_plain {v w : Accepted} (hv : ∀ part ∈ components v.text, Plain part)
    (hw : ∀ part ∈ components w.text, Plain part) : Merged v.text w.text ↔ v.text = w.text := by
  have hne : ∀ u : Accepted, ∀ part ∈ components u.text, part ≠ [] := by
    intro u part hpart
    obtain ⟨a, b, c, hparts, ha, hb, hc, -⟩ := parseSemver_eq_some u.parsed
    rw [hparts] at hpart
    simp only [List.mem_cons, List.not_mem_nil, or_false] at hpart
    rintro rfl
    rcases hpart with rfl | rfl | rfl <;> contradiction
  constructor
  · intro h
    have hsame : List.Forall₂ Eq (components v.text) (components w.text) := by
      refine (List.forall₂_iff_get.mpr ⟨h.length_eq, fun i hi hi' ↦ ?_⟩)
      exact (alike_iff_of_plain (hv _ (List.get_mem _ _)) (hw _ (List.get_mem _ _))
        (hne v _ (List.get_mem _ _)) (hne w _ (List.get_mem _ _))).mp (h.get hi hi')
    rw [List.forall₂_eq_eq_eq] at hsame
    have hlist := congrArg (['.'].intercalate ·) hsame
    simp only [components, List.intercalate_splitOn] at hlist
    exact String.toList_inj.mp hlist
  · intro h
    rw [h]
    exact List.forall₂_same.mpr fun part _ ↦ .inl rfl

/-! ### The choice of the latest -/

theorem VersionDocument.ext_text {catalogue : Catalogue} {v w : VersionDocument}
    (hv : v ∈ catalogue.documents) (hw : w ∈ catalogue.documents) (h : v.text = w.text) :
    v = w :=
  List.inj_on_of_nodup_map catalogue.keyed hv hw h

theorem mem_latest {catalogue : Catalogue} {major : WithTop ℚ} {v : VersionDocument} :
    v ∈ catalogue.latest major ↔
      v ∈ catalogue.documents.filter (·.selectable major) ∧
        ∀ u ∈ catalogue.documents.filter (·.selectable major), u.order ≤ v.order := by
  rw [Catalogue.latest, List.mem_filter, List.all_eq_true]
  simp only [decide_eq_true_eq]

/-- What is chosen is among the latest, whatever the order of storage. -/
theorem mem_latest_of_chosen {catalogue : Catalogue} {major : WithTop ℚ}
    {stored : List VersionDocument} (hperm : stored.Perm catalogue.documents)
    {v : VersionDocument} (h : findLatestForMajor stored major = some v) :
    v ∈ catalogue.latest major := by
  have hfilter := hperm.filter (·.selectable major)
  refine mem_latest.mpr ⟨hfilter.mem_iff.mp (List.argmax_mem h), fun u hu ↦ ?_⟩
  exact List.le_of_mem_argmax (hfilter.mem_iff.mpr hu) h

/-- Each of the latest is chosen where it is stored first. -/
theorem chosen_of_mem_latest {catalogue : Catalogue} {major : WithTop ℚ} {v : VersionDocument}
    (h : v ∈ catalogue.latest major) :
    findLatestForMajor (v :: catalogue.documents.erase v) major = some v := by
  obtain ⟨hv, hlatest⟩ := mem_latest.mp h
  obtain ⟨hmem, hselect⟩ := List.mem_filter.mp hv
  have hperm := (List.perm_cons_erase hmem).filter (·.selectable major)
  unfold findLatestForMajor
  rw [List.filter_cons_of_pos hselect] at hperm ⊢
  rw [List.argmax_cons]
  cases hrest : ((catalogue.documents.erase v).filter (·.selectable major)).argmax
      VersionDocument.order with
  | none => rfl
  | some u =>
    have hu := hlatest u (hperm.mem_iff.mpr (List.mem_cons_of_mem _ (List.argmax_mem hrest)))
    exact if_neg (not_lt.mpr hu)

/-- The choice does not depend on the order of storage exactly when one version is the latest. -/
theorem chosen_alike_iff (catalogue : Catalogue) (major : WithTop ℚ) :
    (∀ stored, stored.Perm catalogue.documents →
      findLatestForMajor stored major = findLatestForMajor catalogue.documents major) ↔
    ∀ v ∈ catalogue.latest major, ∀ w ∈ catalogue.latest major, v = w := by
  constructor
  · intro h v hv w hw
    have hmem : ∀ u ∈ catalogue.latest major, u ∈ catalogue.documents := fun u hu ↦
      (List.mem_filter.mp (mem_latest.mp hu).1).1
    have hfirst := h _ (List.perm_cons_erase (hmem v hv)).symm
    have hsecond := h _ (List.perm_cons_erase (hmem w hw)).symm
    rw [chosen_of_mem_latest hv] at hfirst
    rw [chosen_of_mem_latest hw, ← hfirst] at hsecond
    exact (Option.some.inj hsecond).symm
  · intro h stored hperm
    cases hstored : findLatestForMajor stored major with
    | none =>
      have hnil := List.argmax_eq_none.mp hstored
      have hfilter := hperm.filter (·.selectable major)
      rw [hnil] at hfilter
      unfold findLatestForMajor
      rw [List.nil_perm.mp hfilter]
      rfl
    | some v =>
      have hv := mem_latest_of_chosen hperm hstored
      cases hchosen : findLatestForMajor catalogue.documents major with
      | none =>
        have hnil := List.argmax_eq_none.mp hchosen
        have hmem := (mem_latest.mp hv).1
        rw [hnil] at hmem
        exact absurd hmem List.not_mem_nil
      | some w =>
        rw [h v hv w (mem_latest_of_chosen (List.Perm.refl _) hchosen)]

/-- Two accepted strings are read as different versions exactly when they are not merged, and the
choice of the latest version of a major does not depend on the order of storage exactly when no two
of the latest are merged. -/
theorem versions_told_apart_iff (v w : Accepted) (catalogue : Catalogue) (major : WithTop ℚ) :
    ((v.text ≠ w.text → v.version ≠ w.version) ↔
      (v.text ≠ w.text → ¬ Merged v.text w.text)) ∧
    ((∀ stored, stored.Perm catalogue.documents →
        findLatestForMajor stored major = findLatestForMajor catalogue.documents major) ↔
      ∀ v ∈ catalogue.latest major, ∀ w ∈ catalogue.latest major, v.text ≠ w.text →
        ¬ Merged v.text w.text) := by
  refine ⟨by rw [Ne, Ne, version_eq_iff], ?_⟩
  rw [chosen_alike_iff]
  have hmem : ∀ u ∈ catalogue.latest major, u ∈ catalogue.documents ∧
      u.version.major = major := by
    intro u hu
    obtain ⟨hstored, hselect⟩ := List.mem_filter.mp (mem_latest.mp hu).1
    simp only [VersionDocument.selectable, Bool.and_eq_true, decide_eq_true_eq] at hselect
    exact ⟨hstored, hselect.1.1⟩
  constructor
  · intro h v hv w hw hne
    exact absurd (congrArg (·.text) (h v hv w hw)) hne
  · intro h v hv w hw
    by_contra hne
    have htext : v.text ≠ w.text := fun heq ↦
      hne (VersionDocument.ext_text (hmem v hv).1 (hmem w hw).1 heq)
    -- two of the latest are as late as each other, and of one major
    have horder : v.order = w.order :=
      le_antisymm ((mem_latest.mp hw).2 v (mem_latest.mp hv).1)
        ((mem_latest.mp hv).2 w (mem_latest.mp hw).1)
    have hparts := Prod.mk.inj (toLex.injective horder)
    have hmajor : v.version.major = w.version.major := by
      rw [(hmem v hv).2, (hmem w hw).2]
    have hversion : v.version = w.version := by
      cases hv' : v.version
      cases hw' : w.version
      rw [hv', hw'] at hparts hmajor
      rw [Version.mk.injEq]
      exact ⟨hmajor, hparts.1, hparts.2⟩
    exact h v hv w hw htext ((version_eq_iff v.toAccepted w.toAccepted).mp hversion)

/-- A version with a leading zero in its patch is stored beside the version without it. Both are
read as `1.0.0`, and the first stored is the latest. -/
theorem versions_not_told_apart :
    ∃ v w : VersionDocument, v.text = "1.0.0" ∧ w.text = "1.0.00" ∧ v.version = w.version ∧
      findLatestForMajor [v, w] v.version.major = some v ∧
      findLatestForMajor [w, v] v.version.major = some w := by
  have hplain : parseSemver "1.0.0" = some ⟨parseInt ['1'], parseInt ['0'], parseInt ['0']⟩ := rfl
  have hzeros : parseSemver "1.0.00" = some ⟨parseInt ['1'], parseInt ['0'], parseInt ['0']⟩ := rfl
  refine ⟨⟨⟨"1.0.0", _, hplain⟩, .active, .pending⟩, ⟨⟨"1.0.00", _, hzeros⟩, .active, .pending⟩,
    rfl, rfl, rfl, ?_, ?_⟩ <;>
  · simp [findLatestForMajor, VersionDocument.selectable, VersionDocument.order, List.argmax_cons]

end FgGas.Grants.Semver
